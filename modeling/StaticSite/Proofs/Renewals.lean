import StaticSite.Proofs.Visits

/-! One path handled. With a watcher that subscribes to every directory that is there, and where
there are no links, the subscriptions at and below a path that is handled are those that the walk
would have now, and the files queued are the files of the tree there. A path that is not reported
needs no handling: its directory is not one that the walk comes by. -/
namespace StaticSite

open FileSystem Builder

/-- That the subscriptions are those to the directories at some places. -/
def WatchState.Watches (ws : WatchState) (held : Place → Prop) : Prop :=
  ∀ d, ws.contains d ↔ ∃ p, held p ∧ d.components = (Path.ofPlace p).components

/-- That some files have been queued since, each once. -/
def WatchState.Queues (ws ws' : WatchState) (due : Path → Prop) : Prop :=
  ∃ queued, ws'.jobs = ws.jobs ++ queued ∧ queued.Nodup ∧ ∀ rel, rel ∈ queued ↔ due rel

namespace WatchState

variable {ws ws' : WatchState} {held held' : Place → Prop} {due due' : Path → Prop} {p q : Place}

theorem Watches.congr (h : ws.Watches held) (hsame : ∀ p, held p ↔ held' p) : ws.Watches held' := by
  intro d
  rw [h d]
  simp only [hsame]

theorem Watches.of_dirs (h : ws.Watches held) (hsame : ws'.dirs = ws.dirs) : ws'.Watches held := by
  intro d
  rw [contains_congr hsame, h d]

theorem Queues.congr (h : ws.Queues ws' due) (hsame : ∀ rel, due rel ↔ due' rel) :
    ws.Queues ws' due' := by
  obtain ⟨queued, hjobs, hnodup, hdue⟩ := h
  exact ⟨queued, hjobs, hnodup, fun rel => (hdue rel).trans (hsame rel)⟩

theorem Queues.nothing (h : ws'.jobs = ws.jobs) (hnone : ∀ rel, ¬due rel) : ws.Queues ws' due :=
  ⟨[], by rw [h, List.append_nil], .nil, fun rel => by simpa using hnone rel⟩

theorem Queues.trans {ws'' : WatchState} (h : ws.Queues ws' due) (h' : ws'.Queues ws'' due')
    (hnone : ∀ rel, ¬due rel) :
    ws.Queues ws'' due' := by
  obtain ⟨queued, hjobs, -, hdue⟩ := h
  obtain ⟨more, hmore, hnodup, hdue'⟩ := h'
  have hnil : queued = [] := List.eq_nil_iff_forall_not_mem.2 fun rel hrel =>
    hnone rel ((hdue rel).1 hrel)
  exact ⟨more, by rw [hmore, hjobs, hnil, List.append_nil], hnodup, hdue'⟩

theorem Watches.contains_ofPlace (h : ws.Watches held) (hvalid : ∀ p, held p → ValidNames p)
    (hq : ValidNames q) :
    ws.contains (.ofPlace q) ↔ held q := by
  rw [h]
  constructor
  · intro hcase
    obtain ⟨p, hp, hsame⟩ := hcase
    rwa [Path.components_ofPlace_inj hq (hvalid p hp) hsame]
  · exact fun hheld => ⟨q, hheld, rfl⟩

theorem Watches.forget (h : ws.Watches held) (hvalid : ∀ p, held p → ValidNames p)
    (hq : ValidNames q) :
    (ws.forget (.ofPlace q)).Watches fun p => held p ∧ ¬q <+: p := by
  intro d
  rw [contains_forget, h]
  have hpre {p : Place} (hp : held p) (hd : d.components = (Path.ofPlace p).components) :
      d.startsWith (.ofPlace q) = false ↔ ¬q <+: p := by
    rw [Path.startsWith_congr hd, ← Bool.not_eq_true, Path.startsWith_ofPlace (hvalid p hp) hq]
  constructor
  · intro hcase
    obtain ⟨⟨p, hp, hd⟩, hout⟩ := hcase
    exact ⟨p, ⟨hp, (hpre hp hd).1 hout⟩, hd⟩
  · intro hcase
    obtain ⟨p, ⟨hp, hout⟩, hd⟩ := hcase
    exact ⟨⟨p, hp, hd⟩, (hpre hp hd).2 hout⟩

theorem Watches.isReported_iff (h : ws.Watches held) (hvalid : ∀ p, held p → ValidNames p)
    {r : Place} {name : Text} (hq : ValidNames (r ++ [name])) :
    Change.isReported ws (.ofPlace (r ++ [name])) ↔ held r := by
  obtain ⟨p, hparent, hp⟩ := Path.parent?_ofPlace_concat hq
  rw [Change.isReported, hparent, Option.any_some, ← h.contains_ofPlace hvalid hq.of_append.1,
    contains, contains, hp]

end WatchState

namespace ChangeHandler

variable {h : ChangeHandler} {fs before : FileSystem} {ws : WatchState} {root p q r : Place}
  {names : List Text} {name : Text} {held : Place → Prop}

theorem Accepts.queuedOf (ha : h.Accepts) (entries : List SourceEntry) :
    h.queuedOf true entries = files entries := by
  rw [ChangeHandler.queuedOf, ha.working]
  rfl

theorem exists_subscribed_iff (hr : Rooted h.builder root) (hst : Standing h.builder root fs)
    {above : List Text} (habove : Seen h.builder fs root (root ++ above))
    (hopen : Open h.builder above) {d : Path} :
    (∃ e ∈ (h.builder.collectIn fs (.ofNames above)).1, e.kind = .directory ∧
        fs.exists_ (h.builder.source.join e.path) ∧
        (h.builder.source.join e.path).components = d.components) ↔
      ∃ p, (Seen h.builder fs root p ∧ root ++ above <+: p ∧ p ≠ root ++ above) ∧
        d.components = (Path.ofPlace p).components := by
  rw [← exists_directory_collectIn_iff hr hst habove hopen]
  constructor
  · intro hcase
    obtain ⟨e, he, hkind, -, hd⟩ := hcase
    exact ⟨e, he, hkind, hd.symm⟩
  · intro hcase
    obtain ⟨e, he, hkind, hd⟩ := hcase
    exact ⟨e, he, hkind, exists_of_mem_collectIn hr hst habove hopen he, hd.symm⟩

theorem Accepts.subscribeTree (ha : h.Accepts) (hr : Rooted h.builder root)
    (hst : Standing h.builder root fs) :
    (h.subscribeTree fs .start).2 = none ∧
    (h.subscribeTree fs .start).1.Watches (Seen h.builder fs root) := by
  have hroot : Seen h.builder fs root (root ++ []) := by
    rw [List.append_nil]
    exact seen_root hst
  have hthere : fs.exists_ h.builder.source := by
    obtain ⟨t, ht⟩ := hst.leads.route
    refine exists_iff.2 ⟨root, .directory t, stat_eq_ok.2 ?_⟩
    rw [find_eq_route hst.linkFree true hst.leads.absolute, hst.named]
    exact route_lookupNames.2 ht
  have hadd : h.add fs .start h.builder.source =
      (⟨[h.builder.source], 1, [.watched h.builder.source]⟩, none) := by
    simp [add, WatchState.contains, WatchState.start, ha.refuses, hthere]
  rw [ChangeHandler.subscribeTree, hadd]
  refine ⟨(ha.subscribeBelow h.builder.source).1, fun d => (ha.subscribeBelow d).2.trans ?_⟩
  rw [show (⟨[]⟩ : Path) = .ofNames [] from rfl, exists_subscribed_iff hr hst hroot (.nil _),
    List.append_nil, hr.source]
  constructor
  · intro hcase
    cases hcase with
    | inl hd =>
      obtain ⟨m, hm, hd⟩ := WatchState.contains_iff.1 hd
      rw [List.mem_singleton.1 hm] at hd
      exact ⟨root, seen_root hst, hd.symm⟩
    | inr hbelow =>
      obtain ⟨p, hp, hd⟩ := hbelow
      exact ⟨p, hp.1, hd⟩
  · intro hcase
    obtain ⟨p, hp, hd⟩ := hcase
    by_cases heq : p = root
    · rw [heq] at hd
      exact .inl (WatchState.contains_iff.2 ⟨_, List.mem_singleton_self _, hd.symm⟩)
    · obtain ⟨names, rfl, -⟩ := id hp
      exact .inr ⟨_, ⟨hp, List.prefix_append _ _, heq⟩, hd⟩

/-- What the subscriptions come to, once the changes at and below one place have been handled. -/
def Renewed (h : ChangeHandler) (fs : FileSystem) (root q : Place) (held : Place → Prop)
    (p : Place) : Prop :=
  (held p ∧ ¬q <+: p) ∨ (Seen h.builder fs root p ∧ q <+: p)

theorem renewed_of_none (hheld : ∀ p, held p → ¬q <+: p)
    (hseen : ∀ p, Seen h.builder fs root p → ¬q <+: p) :
    held p ↔ Renewed h fs root q held p := by
  constructor
  · exact fun hp => .inl ⟨hp, hheld p hp⟩
  · intro hcase
    cases hcase with
    | inl hp => exact hp.1
    | inr hp => exact absurd hp.2 (hseen p hp.1)

theorem Accepts.subscribeNew_renewed (ha : h.Accepts) (hr : Rooted h.builder root)
    (hst : Standing h.builder root fs) (hheld : ∀ p, held p → ValidNames p) (hw : ws.Watches held)
    (hne : names ≠ []) (hmet : Met h.builder fs root names) {t : Nat}
    (hat : fs.at? (root ++ names) = some (.directory t)) :
    (h.subscribeNew fs ws (.ofPlace (root ++ names)) (.ofNames names)).1.Watches
    (Renewed h fs root (root ++ names) held) ∧
      ws.Queues (h.subscribeNew fs ws (.ofPlace (root ++ names)) (.ofNames names)).1
        (FileUnder h.builder fs (root ++ names)) := by
  have hseen : Seen h.builder fs root (root ++ names) := ⟨names, rfl, hmet, t, hat⟩
  have hthere := hmet.exists_of_directory hr hst hne ⟨t, hat⟩
  refine ⟨fun d => (ha.subscribeNew d).2.trans ?_, _, jobs_subscribeNew h fs ws _ _, ?_,
    fun rel => ?_⟩
  · rw [exists_subscribed_iff hr hst hseen hmet.toOpen, ← WatchState.contains_forget,
      hw.forget hheld (hseen.valid hr)]
    constructor
    · intro hcase
      cases hcase with
      | inl hcase =>
        cases hcase with
        | inl hkept => exact hkept.imp fun p hp => ⟨.inl hp.1, hp.2⟩
        | inr htop => exact ⟨_, .inr ⟨hseen, List.prefix_refl _⟩, htop.2.symm⟩
      | inr hbelow => exact hbelow.imp fun p hp => ⟨.inr ⟨hp.1.1, hp.1.2.1⟩, hp.2⟩
    · intro hcase
      obtain ⟨p, hp, hd⟩ := hcase
      cases hp with
      | inl hkept => exact .inl (.inl ⟨p, hkept, hd⟩)
      | inr hbelow =>
        by_cases htop : p = root ++ names
        · rw [htop] at hd
          exact .inl (.inr ⟨hthere, hd.symm⟩)
        · exact .inr ⟨p, ⟨hbelow.1, hbelow.2, htop⟩, hd⟩
  · rw [ha.queuedOf]
    exact nodup_files_collectIn hst.wellFormed hr.isAbsolute hmet.valid
  · rw [ha.queuedOf]
    exact mem_files_collectIn_iff hr hst hseen hmet.toOpen

theorem Accepts.submit_renewed (ha : h.Accepts) (hr : Rooted h.builder root)
    (hst : Standing h.builder root fs) (hw : ws.Watches held)
    (hheld : ∀ p, held p → ¬root ++ names <+: p) (hmet : Met h.builder fs root names)
    {content : Bytes} {t : Nat} (hat : fs.at? (root ++ names) = some (.file content t)) :
    (h.submit ws (.ofNames names)).1.Watches (Renewed h fs root (root ++ names) held) ∧
      ws.Queues (h.submit ws (.ofNames names)).1 (FileUnder h.builder fs (root ++ names)) := by
  obtain ⟨hsame, hjobs, -⟩ := h.submit_spec ws (.ofNames names)
  rw [if_neg (by simp [ha.working])] at hjobs
  have hleaf {p : Place} {n : Node} (hn : fs.at? p = some n) (hpre : root ++ names <+: p) :
      p = root ++ names :=
    hst.wellFormed.eq_of_file_above hat hn hpre
  have hseen (p : Place) (hp : Seen h.builder fs root p) : ¬root ++ names <+: p := by
    intro hpre
    obtain ⟨-, -, -, u, hu⟩ := hp
    rw [hleaf hu hpre, hat] at hu
    cases hu
  have hwatches : (h.submit ws (.ofNames names)).1.Watches held := hw.of_dirs hsame
  refine ⟨hwatches.congr fun p => renewed_of_none hheld hseen, _, hjobs, List.nodup_singleton _,
    fun rel => ?_⟩
  rw [List.mem_singleton, fileUnder_iff hr hst (hr.valid.append hmet.valid)]
  constructor
  · rintro rfl
    exact ⟨_, rfl, List.prefix_refl _, hmet, content, t, hat⟩
  · intro hrel
    obtain ⟨below, rfl, hpre, -, c, u, hu⟩ := hrel
    rw [List.append_cancel_left (hleaf hu hpre)]

theorem Accepts.handle_renewed (created : Bool) (ha : h.Accepts) (hr : Rooted h.builder root)
    (hst : Standing h.builder root fs)
    (hheld : ∀ p, held p → ∃ names, p = root ++ names ∧ Open h.builder names) (hw : ws.Watches held)
    (hdirs : Open h.builder names) (hname : ValidName name)
    (hnew : (∃ t, fs.at? (root ++ (names ++ [name])) = some (.directory t)) →
      created = true ∨ ¬held (root ++ (names ++ [name])))
    (hfile : (∃ content t, fs.at? (root ++ (names ++ [name])) = some (.file content t)) →
      ∀ p, held p → ¬root ++ (names ++ [name]) <+: p) :
    (h.handle fs created ws (.ofPlace (root ++ (names ++ [name])))).1.Watches
        (Renewed h fs root (root ++ (names ++ [name])) held) ∧
      ws.Queues (h.handle fs created ws (.ofPlace (root ++ (names ++ [name])))).1
        (FileUnder h.builder fs (root ++ (names ++ [name]))) := by
  have hne : names ++ [name] ≠ [] := by simp
  have hvalid : ValidNames (names ++ [name]) :=
    hdirs.valid.append (by simpa [ValidNames] using hname)
  have hq : ValidNames (root ++ (names ++ [name])) := hr.valid.append hvalid
  have hheldValid : ∀ p, held p → ValidNames p := by
    intro p hp
    obtain ⟨below, rfl, hbelow⟩ := hheld p hp
    exact hr.valid.append hbelow.valid
  have hcase := h.handling fs created ws (.ofPlace (root ++ (names ++ [name])))
  generalize h.handle fs created ws (.ofPlace (root ++ (names ++ [name]))) = next at hcase ⊢
  have hpath := hr.descend hvalid
  -- What is passed over, or no longer there, has nothing at or below it that the walk comes by.
  cases hcase with
  | hidden hinvisible =>
    have hclosed : ¬Open h.builder (names ++ [name]) := by
      intro hopen
      rw [← hpath, visible?_descend hr.isAbsolute hne hvalid,
        hopen.shown _ hne (List.prefix_refl _)] at hinvisible
      cases hinvisible
    obtain ⟨hseen, hnone⟩ := nothing_below hr hst hvalid fun hmet => hclosed hmet.toOpen
    refine ⟨hw.congr fun p => renewed_of_none (fun p hp hpre => ?_) hseen, .nothing rfl hnone⟩
    obtain ⟨below, rfl, hbelow⟩ := hheld p hp
    obtain ⟨more, rfl⟩ := (List.prefix_append_right_inj root).1 hpre
    exact hclosed hbelow.of_append
  | known rel hvisible hdir hold hin =>
    rw [hw.contains_ofPlace hheldValid hq] at hin
    rw [← hpath] at hdir
    cases hnew ((hst.isDirectory_iff hne hvalid).1 hdir).2 with
    | inl hcreated => exact absurd hcreated (by simp [hold])
    | inr hnot => exact absurd hin hnot
  | subscribed rel hvisible hdir =>
    rw [← hpath] at hvisible hdir
    obtain ⟨rfl, hopen⟩ := visible?_descend_concat hr.isAbsolute hdirs hname hvisible
    obtain ⟨hadmitted, t, hat⟩ := (hst.isDirectory_iff hne hvalid).1 hdir
    exact ha.subscribeNew_renewed hr hst hheldValid hw hne ⟨hopen, hadmitted, _, hat⟩ hat
  | queued rel hvisible hisFile =>
    rw [← hpath] at hvisible hisFile
    obtain ⟨rfl, hopen⟩ := visible?_descend_concat hr.isAbsolute hdirs hname hvisible
    obtain ⟨hadmitted, content, t, hat⟩ := (hst.isFile_iff hne hvalid).1 hisFile
    exact ha.submit_renewed hr hst hw (hfile ⟨content, t, hat⟩) ⟨hopen, hadmitted, _, hat⟩ hat
  | forgotten rel hvisible hnoDir hnoFile =>
    rw [← hpath] at hnoDir hnoFile
    have hnot : ¬Met h.builder fs root (names ++ [name]) := by
      intro hmet
      cases hmet.directory_or_file hst with
      | inl hdir => simp [(hst.isDirectory_iff hne hvalid).2 ⟨hmet.admitted, hdir⟩] at hnoDir
      | inr hfile => simp [(hst.isFile_iff hne hvalid).2 ⟨hmet.admitted, hfile⟩] at hnoFile
    obtain ⟨hseen, hnone⟩ := nothing_below hr hst hvalid hnot
    refine ⟨(hw.forget hheldValid hq).congr fun p => ⟨.inl, fun hp => ?_⟩,
      .nothing (WatchState.jobs_forget _ _) hnone⟩
    exact hp.resolve_right fun hbelow => hseen p hbelow.1 hbelow.2

/-! ### Events -/

theorem Accepts.handle_result (ha : h.Accepts) (fs : FileSystem) (created : Bool) (ws : WatchState)
    (p : Path) :
    (h.handle fs created ws p).2 = none := by
  have hcase := h.handling fs created ws p
  generalize h.handle fs created ws p = next at hcase ⊢
  cases hcase with
  | hidden | known | forgotten => rfl
  | subscribed rel => exact (ha.subscribeNew p).1
  | queued rel => exact (h.submit_spec ws rel).2.2.2 ha.working

def visit (h : ChangeHandler) (fs : FileSystem) (created : Bool) (reported : Path → Bool)
    (ws : WatchState) (p : Path) :
    WatchState :=
  if reported p then (h.handle fs created ws p).1 else ws

theorem Accepts.handleAll_filter (ha : h.Accepts) (fs : FileSystem) (created : Bool)
    (reported : Path → Bool) (ws : WatchState) (ps : List Path) :
    h.handleAll fs created ws (ps.filter reported) = (ps.foldl (h.visit fs created reported) ws,
      none) := by
  induction ps generalizing ws with
  | nil => rfl
  | cons p ps ih =>
    rw [List.filter_cons, List.foldl_cons, visit]
    cases reported p with
    | false => exact ih ws
    | true =>
      rw [if_pos rfl, if_pos rfl, handleAll]
      split
      next s e heq => exact absurd (ha.handle_result fs created ws p) (by simp [heq])
      next s heq => rw [heq, ih s]

theorem reported_of_met (hr : Rooted h.builder root) (hwf : fs.WellFormed)
    (hw : ws.Watches (Seen h.builder before root)) (hq : ValidNames (r ++ [name]))
    (hroot : ¬r ++ [name] <+: root) (hsame : fs.at? r = before.at? r)
    (hmet : Met h.builder fs root names) (hpre : r ++ [name] <+: root ++ names) :
    Change.isReported ws (.ofPlace (r ++ [name])) ∧ ∃ above, r = root ++ above ∧
    Open h.builder above := by
  have habove : root <+: r := by
    cases List.prefix_or_prefix_of_prefix (List.prefix_append root names) hpre with
    | inl hin =>
      cases List.prefix_concat_iff.1 hin with
      | inl heq => exact absurd (heq ▸ List.prefix_refl _) hroot
      | inr hin => exact hin
    | inr hin => exact absurd hin hroot
  obtain ⟨above, rfl⟩ := habove
  rw [List.append_assoc, List.prefix_append_right_inj] at hpre
  obtain ⟨more, rfl⟩ := hpre
  rw [List.append_assoc] at hmet
  have hseen : Seen h.builder before root (root ++ above) :=
    (hmet.seen_of_append hr hwf (by simp)).congr hsame.symm
  exact ⟨(hw.isReported_iff (fun p hp => hp.valid hr) hq).2 hseen, above, rfl,
    hmet.toOpen.of_append⟩

theorem Accepts.visit_renewed (created : Bool) (ha : h.Accepts) (hr : Rooted h.builder root)
    (hst : Standing h.builder root fs) (hbefore : before.WellFormed) {told : WatchState}
    (htold : told.Watches (Seen h.builder before root))
    (hheld : ∀ p, held p → Seen h.builder before root p) (hw : ws.Watches held)
    (hq : ValidNames (r ++ [name])) (hroot : ¬r ++ [name] <+: root)
    (hsame : ∀ n, fs.at? (r ++ [name]) = some n → fs.at? r = before.at? r)
    (hnew : (∃ t, fs.at? (r ++ [name]) = some (.directory t)) → created = true ∨
      ¬held (r ++ [name]))
    (hfile : (∃ content t, fs.at? (r ++ [name]) = some (.file content t)) →
      ∀ p, held p → ¬r ++ [name] <+: p) :
    (h.visit fs created (Change.isReported told) ws (.ofPlace (r ++ [name]))).Watches
        (Renewed h fs root (r ++ [name]) held) ∧
      ws.Queues (h.visit fs created (Change.isReported told) ws (.ofPlace (r ++ [name])))
        (FileUnder h.builder fs (r ++ [name])) := by
  rw [visit]
  cases hreported : Change.isReported told (.ofPlace (r ++ [name])) with
  | false =>
    -- A path that is not reported is in a directory that is not seen, neither now nor before.
    have hnow {names : List Text} (hmet : Met h.builder fs root names) :
        ¬r ++ [name] <+: root ++ names := by
      intro hpre
      obtain ⟨more, hmore⟩ := hpre
      obtain ⟨n, hn⟩ := hmet.there
      rw [← hmore] at hn
      obtain ⟨m, hm⟩ := hst.wellFormed.exists_at?_of_append hn
      have := (reported_of_met hr hst.wellFormed htold hq hroot (hsame m hm) hmet ⟨more, hmore⟩).1
      rw [hreported] at this
      cases this
    have hthen (p : Place) (hp : held p) : ¬r ++ [name] <+: p := by
      intro hpre
      obtain ⟨names, rfl, hmet, -⟩ := hheld p hp
      have := (reported_of_met hr hbefore htold hq hroot rfl hmet hpre).1
      rw [hreported] at this
      cases this
    refine ⟨hw.congr fun p => renewed_of_none hthen fun p hp => ?_, .nothing rfl fun rel hrel => ?_⟩
    · obtain ⟨names, rfl, hmet, -⟩ := hp
      exact hnow hmet
    · obtain ⟨names, -, hpre, hmet, -⟩ := (fileUnder_iff hr hst hq).1 hrel
      exact hnow hmet hpre
  | true =>
    have hseen := (htold.isReported_iff (fun p hp => hp.valid hr) hq).1 hreported
    obtain ⟨above, rfl, hmet, -⟩ := hseen
    rw [if_pos rfl]
    rw [List.append_assoc] at hnew hfile ⊢
    refine ha.handle_renewed created hr hst (fun p hp => ?_) hw hmet.toOpen (hq name (by simp)) hnew
      hfile
    obtain ⟨names, rfl, hmet, -⟩ := hheld p hp
    exact ⟨names, rfl, hmet.toOpen⟩

end ChangeHandler

end StaticSite
