import StaticSite.Proofs.HandlerSteps

/-! What the handler takes care of in a tree without links: the directories that it is subscribed
to, the files that it has queued, and all that it will come to of itself, as it has been told of it,
is about to list it or has it listed. No step of its own adds to this or takes from it. -/
namespace StaticSite

open FileSystem Builder

namespace HandlerState

/-- That a path waits which will have what is at some names listed or queued. -/
def Waits (root : Place) (waiting : List Path) (names : List Text) : Prop :=
  ∃ p, .ofPlace p ∈ waiting ∧ p <+: root ++ names

/-- That what is at some names is at or below the directory at hand, and will be listed. -/
def AtHand : Stage → List Text → Prop
  | .found _ rel, names => ∃ above, ValidNames above ∧ rel = .ofNames above ∧ above <+: names
  | .opened rel, names => ∃ above, ValidNames above ∧ rel = .ofNames above ∧ above <+: names
  | _, _ => False

/-- That what is at some names is among the entries still to be taken up. -/
def Left : Stage → List Text → Prop
  | .listed entries, names => ∃ kind, ⟨.ofNames names, kind⟩ ∈ entries
  | _, _ => False

/-- That what is at some names is subscribed to, has been queued, or will be. -/
def Handled (root : Place) (waiting : List Path) (stage : Stage) (held : Place → Prop)
    (queued : List Path) (names : List Text) : Prop :=
  held (root ++ names) ∨ Waits root waiting names ∨ AtHand stage names ∨ Left stage names ∨
    .ofNames names ∈ queued

/-- What is known of the directory at hand. -/
structure Present (h : ChangeHandler) (root : Place) (fs : FileSystem) (names : List Text) : Prop
    extends Met h.builder fs root names where
  below : names ≠ []
  directory : ∃ t, fs.at? (root ++ names) = some (.directory t)

structure Listed (h : ChangeHandler) (root : Place) (fs : FileSystem) (kind : EntryKind)
    (names : List Text) : Prop
    extends Met h.builder fs root names where
  below : names ≠ []
  kindAt : SourceEntry.kindAt? fs (h.builder.source.descend names) = some kind

def Knows (h : ChangeHandler) (root : Place) (fs : FileSystem) (held : Place → Prop) : Stage → Prop
  | .idle => True
  | .found dir rel =>
    ∃ names, dir = .ofPlace (root ++ names) ∧ rel = .ofNames names ∧ Present h root fs names
  | .opened rel => ∃ names, rel = .ofNames names ∧ held (root ++ names) ∧ Present h root fs names
  | .listed entries =>
    ∀ e ∈ entries, ∃ names, e.path = .ofNames names ∧ Listed h root fs e.kind names

/-- What holds of every state that the handler comes to from a first one: of the directories, and of
the files that are new since then, it handles what is not below a gap, and nothing else. -/
structure Invariant (h : ChangeHandler) (root : Place) (first : HandlerState) (gaps : List Place)
    (held : Place → Prop) (queued : List Path) (a : HandlerState) : Prop where
  standing : Standing h.builder root a.files
  grown : ∀ p n, first.files.at? p = some n → a.files.at? p = some n
  made : ∀ g ∈ gaps, ∃ n, a.files.at? g = some n
  watches : a.watch.Watches held
  seen : ∀ p, held p → Seen h.builder a.files root p
  waiting : ∀ p ∈ a.waiting, ∃ dir name n, p = .ofPlace (dir ++ [name]) ∧
    Seen h.builder a.files root dir ∧
    a.files.at? (dir ++ [name]) = some n
  knows : Knows h root a.files held a.stage
  jobs : a.watch.jobs = first.watch.jobs ++ queued
  files : ∀ rel ∈ queued, ∃ names content t, rel = .ofNames names ∧ ValidNames names ∧
    a.files.at? (root ++ names) = some (.file content t)
  handled : ∀ names, Met h.builder a.files root names →
    ((∃ t, a.files.at? (root ++ names) = some (.directory t)) ∨
      first.files.at? (root ++ names) = none) →
      (Handled root a.waiting a.stage held queued names ↔ ∀ g ∈ gaps, ¬g <+: root ++ names)

variable {h : ChangeHandler} {root dir p q : Place} {first a : HandlerState} {gaps : List Place}
  {held held' : Place → Prop} {queued queued' : List Path} {fs : FileSystem} {ws ws' : WatchState}
    {ps ps' : List Path} {path rel : Path}
  {stage stage' : Stage} {names above : List Text} {name : Text} {n : Node}
    {entries : List SourceEntry} {e : SourceEntry}
  {content : Bytes} {t : Nat}

/-! ### What is handled -/

theorem waits_cons (hq : ValidNames q) (hnames : ValidNames (root ++ names)) :
    Waits root (.ofPlace q :: ps) names ↔ q <+: root ++ names ∨ Waits root ps names := by
  constructor
  · intro hwaits
    obtain ⟨p, hp, hpre⟩ := hwaits
    cases List.mem_cons.1 hp with
    | inl heq =>
      obtain ⟨more, hmore⟩ := hpre
      rw [← hmore] at hnames ⊢
      obtain rfl := Path.components_ofPlace_inj hnames.of_append.1 hq (congrArg Path.components heq)
      exact .inl (List.prefix_append _ _)
    | inr hin => exact .inr ⟨p, hin, hpre⟩
  · intro hcase
    cases hcase with
    | inl hpre => exact ⟨q, List.mem_cons_self, hpre⟩
    | inr hwaits =>
      obtain ⟨p, hp, hpre⟩ := hwaits
      exact ⟨p, List.mem_cons_of_mem _ hp, hpre⟩

theorem ofNames_eq_iff (hnames : ValidNames names) (habove : ValidNames above) (hne : above ≠ []) :
    Path.ofNames names = .ofNames above ↔ names = above := by
  refine ⟨fun heq => Path.ofNames_inj hnames habove ?_ hne heq, congrArg _⟩
  rintro rfl
  exact Path.text_ofNames_ne_nil hne habove (congrArg Path.text heq).symm

theorem exists_above_iff (habove : ValidNames above) (hne : above ≠ []) :
    (∃ a, ValidNames a ∧ Path.ofNames above = .ofNames a ∧ a <+: names) ↔ above <+: names := by
  constructor
  · intro hcase
    obtain ⟨a, ha, heq, hpre⟩ := hcase
    rwa [← (ofNames_eq_iff ha habove hne).1 heq.symm]
  · exact fun hpre => ⟨above, habove, rfl, hpre⟩

@[simp] theorem atHand_idle : ¬AtHand .idle names := id

@[simp] theorem atHand_listed : ¬AtHand (.listed entries) names := id

theorem atHand_found (habove : ValidNames above) (hne : above ≠ []) :
    AtHand (.found path (.ofNames above)) names ↔ above <+: names := exists_above_iff habove hne

theorem atHand_opened (habove : ValidNames above) (hne : above ≠ []) :
    AtHand (.opened (.ofNames above)) names ↔ above <+: names := exists_above_iff habove hne

@[simp] theorem left_idle : ¬Left .idle names := id

@[simp] theorem left_found : ¬Left (.found path rel) names := id

@[simp] theorem left_opened : ¬Left (.opened rel) names := id

@[simp] theorem left_nil : ¬Left (.listed []) names := by simp [Left]

theorem left_cons (hnames : ValidNames names) (habove : ValidNames above) (hne : above ≠ [])
    {kind : EntryKind} :
    Left (.listed (⟨.ofNames above, kind⟩ :: entries)) names ↔ names = above ∨
    Left (.listed entries) names := by
  rw [← ofNames_eq_iff hnames habove hne]
  constructor
  · intro hleft
    obtain ⟨kind', hin⟩ := hleft
    cases List.mem_cons.1 hin with
    | inl heq => exact .inl (congrArg SourceEntry.path heq)
    | inr hrest => exact .inr ⟨kind', hrest⟩
  · intro hleft
    cases hleft with
    | inl heq =>
      rw [← heq]
      exact ⟨kind, List.mem_cons_self⟩
    | inr hrest => exact hrest.imp fun kind' hin => List.mem_cons_of_mem _ hin

theorem watches_subscribe (ha : h.Accepts) (hw : ws.Watches held)
    (hthere : fs.exists_ (.ofPlace q)) :
    (h.subscribe fs ws (.ofPlace q)).Watches fun p => held p ∨ p = q := by
  intro d
  rw [ha.contains_subscribe, hw d]
  constructor
  · intro hcase
    cases hcase with
    | inl hbefore => exact hbefore.imp fun p hp => ⟨.inl hp.1, hp.2⟩
    | inr hnew => exact ⟨q, .inr rfl, hnew.2.symm⟩
  · intro hcase
    obtain ⟨p, hp, hd⟩ := hcase
    cases hp with
    | inl hbefore => exact .inl ⟨p, hbefore, hd⟩
    | inr hnew =>
      subst hnew
      exact .inr ⟨hthere, hd.symm⟩

theorem Present.seen (hp : Present h root fs above) : Seen h.builder fs root (root ++ above) :=
  ⟨above, rfl, hp.toMet, hp.directory⟩

theorem exists_kindAt? (hst : Standing h.builder root fs) (hne : names ≠ [])
    (hmet : Met h.builder fs root names) :
    ∃ kind, SourceEntry.kindAt? fs (h.builder.source.descend names) = some kind := by
  cases hmet.directory_or_file hst with
  | inl hdir => exact ⟨_, (hst.kindAt?_directory_iff hne hmet.valid).2 ⟨hmet.admitted, hdir⟩⟩
  | inr hfile => exact ⟨_, (hst.kindAt?_file_iff hne hmet.valid).2 ⟨hmet.admitted, hfile⟩⟩

theorem Listed.present (hl : Listed h root fs .directory above) (hst : Standing h.builder root fs) :
    Present h root fs above :=
  ⟨hl.toMet, hl.below, ((hst.kindAt?_directory_iff hl.below hl.valid).1 hl.kindAt).2⟩

/-! ### Steps -/

/-- A step leaves the files as they are, so it keeps the invariant if the same names are handled
before and after it. -/
theorem Invariant.of_step (hm : Invariant h root first gaps held queued ⟨fs, ws, ps, stage⟩)
    (hw : ws'.Watches held') (hseen : ∀ p, held' p → Seen h.builder fs root p)
    (hwaiting : ∀ p ∈ ps', p ∈ ps) (hknows : Knows h root fs held' stage')
    (hjobs : ws'.jobs = first.watch.jobs ++ queued')
    (hfiles : ∀ rel ∈ queued', rel ∈ queued ∨ ∃ names content t, rel = .ofNames names ∧
      ValidNames names ∧
      fs.at? (root ++ names) = some (.file content t))
    (hhandled : ∀ names, Met h.builder fs root names →
      (Handled root ps' stage' held' queued' names ↔ Handled root ps stage held queued names)) :
    Invariant h root first gaps held' queued' ⟨fs, ws', ps', stage'⟩ where
  standing := hm.standing
  grown := hm.grown
  made := hm.made
  watches := hw
  seen := hseen
  waiting := fun p hp => hm.waiting p (hwaiting p hp)
  knows := hknows
  jobs := hjobs
  files := fun rel hrel => (hfiles rel hrel).elim (hm.files rel) id
  handled := fun names hmet hnew => (hhandled names hmet).trans (hm.handled names hmet hnew)

theorem Invariant.pass (hr : Rooted h.builder root) (habove : ValidNames above)
    (hm : Invariant h root first gaps held queued ⟨fs, ws, .ofPlace (root ++ above) :: ps, .idle⟩)
    (hnot : ¬Met h.builder fs root above) (hw : ws'.Watches held') (hheld : ∀ p, held' p → held p)
    (hkept : ∀ p, held p → ¬root ++ above <+: p → held' p) (hjobs : ws'.jobs = ws.jobs) :
    Invariant h root first gaps held' queued ⟨fs, ws', ps, .idle⟩ := by
  refine hm.of_step hw (fun p hp => hm.seen p (hheld p hp)) (fun p hp => List.mem_cons_of_mem _ hp)
    trivial (hjobs.trans hm.jobs) (fun rel hrel => .inl hrel) fun names hnames => ?_
  have hout : ¬root ++ above <+: root ++ names := by
    intro hpre
    obtain ⟨more, rfl⟩ := (List.prefix_append_right_inj root).1 hpre
    exact hnot (hnames.of_append hr hm.standing.wellFormed)
  have hsame : held' (root ++ names) ↔ held (root ++ names) := ⟨hheld _, fun hp => hkept _ hp hout⟩
  rw [Handled, Handled, hsame, waits_cons (hr.valid.append habove) (hr.valid.append hnames.valid)]
  simp [hout]

theorem Invariant.send (ha : h.Accepts)
    (hm : Invariant h root first gaps held queued ⟨fs, ws, ps, stage⟩) (hne : above ≠ [])
    (hmet : Met h.builder fs root above) (hfile : fs.at? (root ++ above) = some (.file content t))
    (hwaiting : ∀ p ∈ ps', p ∈ ps) (hknows : Knows h root fs held stage')
    (hhandled : ∀ names, Met h.builder fs root names →
      (Handled root ps stage held queued names ↔ names = above ∨
        Handled root ps' stage' held queued names)) :
    Invariant h root first gaps held (queued ++ [.ofNames above]) ⟨fs,
      (h.submit ws (.ofNames above)).1, ps', stage'⟩ := by
  obtain ⟨hdirs, hjobs, -⟩ := h.submit_spec ws (.ofNames above)
  rw [if_neg (by simp [ha.working])] at hjobs
  refine hm.of_step (hm.watches.of_dirs hdirs) hm.seen hwaiting hknows
    (by rw [hjobs, hm.jobs, List.append_assoc]) (fun rel hrel => ?_) fun names hnames => ?_
  · refine (List.mem_append.1 hrel).imp_right fun hnew => ?_
    exact ⟨above, content, t, List.mem_singleton.1 hnew, hmet.valid, hfile⟩
  · rw [hhandled names hnames, Handled, Handled, List.mem_append, List.mem_singleton,
      ofNames_eq_iff hnames.valid hmet.valid hne]
    tauto

theorem Invariant.find (hr : Rooted h.builder root)
    (hm : Invariant h root first gaps held queued ⟨fs, ws, .ofPlace (root ++ above) :: ps, .idle⟩)
    (hp : Present h root fs above) (line : Log.Line) :
    Invariant h root first gaps (fun p => held p ∧ ¬root ++ above <+: p) queued
      ⟨fs, (ws.forget (.ofPlace (root ++ above))).log line, ps,
        .found (.ofPlace (root ++ above)) (.ofNames above)⟩ := by
  have hplace : ValidNames (root ++ above) := hr.valid.append hp.valid
  refine hm.of_step ((hm.watches.forget (fun p hp => (hm.seen p hp).valid hr) hplace).of_dirs rfl)
    (fun p hp => hm.seen p hp.1) (fun p hp => List.mem_cons_of_mem _ hp) ⟨above, rfl, rfl, hp⟩
    (by rw [WatchState.jobs_log, WatchState.jobs_forget, hm.jobs]) (fun rel hrel => .inl hrel)
      fun names hnames => ?_
  rw [Handled, Handled, waits_cons hplace (hr.valid.append hnames.valid),
    atHand_found hp.valid hp.below, List.prefix_append_right_inj]
  by_cases hpre : above <+: names <;> simp [hpre]

theorem Invariant.subscribe (ha : h.Accepts) (hr : Rooted h.builder root)
    (hm : Invariant h root first gaps held queued ⟨fs, ws, ps, stage⟩)
    (hp : Present h root fs above)
    (hknows : Knows h root fs (fun p => held p ∨ p = root ++ above) stage')
    (hhandled : ∀ names, Met h.builder fs root names →
      (Handled root ps stage held queued names ↔ names = above ∨
        Handled root ps stage' held queued names)) :
    Invariant h root first gaps (fun p => held p ∨ p = root ++ above) queued
      ⟨fs, h.subscribe fs ws (.ofPlace (root ++ above)), ps, stage'⟩ := by
  refine hm.of_step (watches_subscribe ha hm.watches
    (hp.exists_of_directory hr hm.standing hp.below hp.directory)) (fun p hheld => ?_)
    (fun p hp => hp) hknows ((h.jobs_subscribe _ _ _).trans hm.jobs) (fun rel hrel => .inl hrel)
      fun names hnames => ?_
  · cases hheld with
    | inl hbefore => exact hm.seen p hbefore
    | inr heq =>
      rw [heq]
      exact hp.seen
  · rw [hhandled names hnames, Handled, Handled, List.append_cancel_left_eq]
    tauto

theorem Invariant.enter (ha : h.Accepts) (hr : Rooted h.builder root)
    (hm : Invariant h root first gaps held queued ⟨fs, ws, ps, .found path rel⟩) :
    ∃ held', Invariant h root first gaps held' queued
      ⟨fs, h.subscribe fs ws path, ps, .opened rel⟩ := by
  obtain ⟨above, rfl, rfl, hp⟩ := hm.knows
  refine ⟨_, hm.subscribe ha hr hp ⟨above, rfl, .inr rfl, hp⟩ fun names hnames => ?_⟩
  rw [Handled, Handled, atHand_found hp.valid hp.below, atHand_opened hp.valid hp.below]
  have hself : names = above → above <+: names := fun heq => heq ▸ List.prefix_refl _
  simp only [left_found, left_opened]
  tauto

theorem Invariant.list (hr : Rooted h.builder root)
    (hm : Invariant h root first gaps held queued ⟨fs, ws, ps, .opened rel⟩) :
    Invariant h root first gaps held queued ⟨fs, (h.builder.collectIn fs rel).2.foldl .log ws, ps,
      .listed (h.builder.collectIn fs rel).1⟩ := by
  obtain ⟨above, rfl, hheld, hp⟩ := hm.knows
  have hmem {e : SourceEntry} : e ∈ (h.builder.collectIn fs (.ofNames above)).1 ↔ _ :=
    mem_collectIn_iff hr hm.standing hp.seen hp.toOpen
  have hlog := WatchState.foldl_log ws (h.builder.collectIn fs (.ofNames above)).2
  refine hm.of_step (hm.watches.of_dirs hlog.1) hm.seen (fun p hp => hp) (fun e he => ?_)
    (hlog.2.trans hm.jobs) (fun rel hrel => .inl hrel) fun names hnames => ?_
  · obtain ⟨more, hmore, hmet, hpath, hkind⟩ := hmem.1 he
    exact ⟨above ++ more, hpath, hmet, by simp [hmore], hkind⟩
  · have hleft : Left (.listed (h.builder.collectIn fs (.ofNames above)).1) names ↔
        above <+: names ∧ names ≠ above := by
      constructor
      · intro hleft
        obtain ⟨kind, hin⟩ := hleft
        obtain ⟨more, hmore, hmet, hpath, -⟩ := hmem.1 hin
        obtain rfl := (ofNames_eq_iff hnames.valid hmet.valid (by simp [hmore])).1 hpath
        exact ⟨List.prefix_append _ _, by simpa using hmore⟩
      · intro hbelow
        obtain ⟨⟨more, rfl⟩, hne⟩ := hbelow
        have hmore : more ≠ [] := by simpa using hne
        obtain ⟨kind, hkind⟩ := exists_kindAt? hm.standing (by simp [hmore]) hnames
        exact ⟨kind, hmem.2 ⟨more, hmore, hnames, rfl, hkind⟩⟩
    rw [Handled, Handled, hleft, atHand_opened hp.valid hp.below]
    have hself : names = above → held (root ++ names) := fun heq => heq ▸ hheld
    have hpre : names = above → above <+: names := fun heq => heq ▸ List.prefix_refl _
    simp only [left_opened, atHand_listed]
    tauto

theorem Invariant.take (ha : h.Accepts) (hr : Rooted h.builder root)
    (hm : Invariant h root first gaps held queued ⟨fs, ws, ps, .listed (e :: entries)⟩) :
    ∃ held' queued', Invariant h root first gaps held' queued'
      ((⟨fs, ws, ps, .listed (e :: entries)⟩ : HandlerState).step h) := by
  obtain ⟨above, hpath, hl⟩ := hm.knows e List.mem_cons_self
  have hrest (held : Place → Prop) : Knows h root fs held (.listed entries) :=
    fun e he => hm.knows e (List.mem_cons_of_mem _ he)
  obtain ⟨path, kind⟩ := e
  cases hpath
  have hhandled (names : List Text) (hnames : Met h.builder fs root names) :
      Handled root ps (.listed (⟨.ofNames above, kind⟩ :: entries)) held queued names ↔
        names = above ∨ Handled root ps (.listed entries) held queued names := by
    rw [Handled, Handled, left_cons hnames.valid hl.valid hl.below]
    tauto
  cases kind with
  | directory =>
    have hnext := hm.subscribe ha hr (hl.present hm.standing) (hrest _) hhandled
    rw [← hr.join hl.below hl.valid] at hnext
    exact ⟨_, _, hnext⟩
  | file =>
    obtain ⟨-, content, t, hfile⟩ := (hm.standing.kindAt?_file_iff hl.below hl.valid).1 hl.kindAt
    exact ⟨_, _, hm.send ha hl.below hl.toMet hfile (fun p hp => hp) (hrest _) hhandled⟩

theorem Invariant.close (hm : Invariant h root first gaps held queued ⟨fs, ws, ps, .listed []⟩) :
    Invariant h root first gaps held queued ⟨fs, ws, ps, .idle⟩ :=
  hm.of_step hm.watches hm.seen (fun _ hp => hp) trivial hm.jobs (fun _ hrel => .inl hrel)
    fun names _ => by simp [Handled]

theorem Invariant.meet (ha : h.Accepts) (hr : Rooted h.builder root)
    (hm : Invariant h root first gaps held queued ⟨fs, ws, path :: ps, .idle⟩) :
    ∃ held' queued', Invariant h root first gaps held' queued'
      (meet h ⟨fs, ws, ps, .idle⟩ path) := by
  obtain ⟨dir, name, n, rfl, ⟨dirs, rfl, hdirs, -⟩, hn⟩ := hm.waiting path List.mem_cons_self
  have hst := hm.standing
  have hname : ValidName name := hst.wellFormed.validNames hn name (by simp)
  rw [List.append_assoc] at hm hn ⊢
  have hne : dirs ++ [name] ≠ [] := by simp
  have hvalid : ValidNames (dirs ++ [name]) :=
    hdirs.valid.append (by simpa [ValidNames] using hname)
  have hpath := hr.descend hvalid
  rw [HandlerState.meet]
  -- What was reported does not matter here, only what the path leads to now.
  cases hvisible : h.visible? (.ofPlace (root ++ (dirs ++ [name]))) with
  | none =>
    refine ⟨held, queued, hm.pass hr hvalid (fun hmet => ?_) hm.watches (fun p hp => hp)
      (fun p hp _ => hp) rfl⟩
    rw [← hpath, ChangeHandler.visible?_descend hr.isAbsolute hne hvalid,
      hmet.shown _ hne (List.prefix_refl _)] at hvisible
    cases hvisible
  | some rel =>
    rw [← hpath] at hvisible
    obtain ⟨rfl, hopen⟩ := ChangeHandler.visible?_descend_concat hr.isAbsolute hdirs.toOpen hname
      hvisible
    have hdirectory := hst.isDirectory_iff hne hvalid
    have hfile := hst.isFile_iff hne hvalid
    rw [hpath] at hdirectory hfile
    simp only
    split
    next hdir =>
      obtain ⟨hadmitted, hat⟩ := hdirectory.1 hdir
      exact ⟨_, _, hm.find hr ⟨⟨hopen, hadmitted, _, hn⟩, hne, hat⟩ _⟩
    next hnoDir =>
      split
      next hisFile =>
        obtain ⟨hadmitted, content, t, hat⟩ := hfile.1 hisFile
        refine ⟨_, _, hm.send ha hne ⟨hopen, hadmitted, _, hn⟩ hat
          (fun p hp => List.mem_cons_of_mem _ hp) trivial
          fun names hnames => ?_⟩
        obtain ⟨m, hm'⟩ := hnames.there
        have hself : root ++ (dirs ++ [name]) <+: root ++ names ↔ names = dirs ++ [name] := by
          constructor
          · intro hpre
            exact List.append_cancel_left (hst.wellFormed.eq_of_file_above hat hm' hpre)
          · rintro rfl
            exact List.prefix_refl _
        rw [Handled, Handled, waits_cons (hr.valid.append hvalid) (hr.valid.append hnames.valid),
          hself]
        tauto
      next hnoFile =>
        refine ⟨_, _, hm.pass hr hvalid (fun hmet => ?_)
          (hm.watches.forget (fun p hp => (hm.seen p hp).valid hr)
          (hr.valid.append hvalid)) (fun p hp => hp.1) (fun p hp hout => ⟨hp, hout⟩)
            (WatchState.jobs_forget _ _)⟩
        cases hmet.directory_or_file hst with
        | inl hdir => exact hnoDir (hdirectory.2 ⟨hmet.admitted, hdir⟩)
        | inr hisFile => exact hnoFile (hfile.2 ⟨hmet.admitted, hisFile⟩)

theorem Invariant.step (ha : h.Accepts) (hr : Rooted h.builder root)
    (hm : Invariant h root first gaps held queued a) :
    ∃ held' queued', Invariant h root first gaps held' queued' (a.step h) := by
  obtain ⟨fs, ws, ps, stage⟩ := a
  match stage, ps with
  | .idle, [] => exact ⟨_, _, hm⟩
  | .idle, _ :: _ => exact hm.meet ha hr
  | .found path rel, ps => exact (hm.enter ha hr).imp fun _ hnext => ⟨_, hnext⟩
  | .opened rel, ps => exact ⟨_, _, hm.list hr⟩
  | .listed [], ps => exact ⟨_, _, hm.close⟩
  | .listed (e :: entries), ps => exact hm.take ha hr

end HandlerState
end StaticSite
