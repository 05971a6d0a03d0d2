import StaticSite.Proofs.Order
import StaticSite.Proofs.Renewals

/-! The subscriptions follow the tree. Of each change the handler is told the paths whose directory
it is subscribed to, and those are enough: the subscriptions are always those that the walk would
have now, and what is queued is what the change has brought. -/
namespace StaticSite

open FileSystem Builder

inductive Turn
  | makeTree (q : Place)
  | write (q : Place)
  | remove (q : Place)
  | rename (old new : Place)
  deriving DecidableEq, Repr

namespace Turn

variable {turn : Turn} {fs fs' : FileSystem} {p q old new root : Place}

def Makes (fs fs' : FileSystem) : Turn → Prop
  | makeTree q =>
    fs.at? q = none ∧ (∃ t, fs'.at? q = some (.directory t)) ∧ ∀ p, ¬q <+: p → fs'.at? p = fs.at? p
  | write q =>
    (∀ t, fs.at? q ≠ some (.directory t)) ∧ (∃ content t, fs'.at? q = some (.file content t)) ∧
      ∀ p, ¬q <+: p → fs'.at? p = fs.at? p
  | remove q =>
    (∃ n, fs.at? q = some n) ∧ (∀ p, q <+: p → fs'.at? p = none) ∧
      ∀ p, ¬q <+: p → fs'.at? p = fs.at? p
  | rename old new => (∃ n, fs.at? old = some n) ∧ fs.at? new = none ∧ ¬old <+: new ∧
      (∀ p, old <+: p → fs'.at? p = none) ∧
      (∀ names, fs'.at? (new ++ names) = fs.at? (old ++ names)) ∧
        ∀ p, ¬old <+: p → ¬new <+: p → fs'.at? p = fs.at? p

/-- The places that a change is told of by. -/
def places : Turn → List Place
  | makeTree q => [q]
  | write q => [q]
  | remove q => [q]
  | rename old new => [old, new]

def arrivals : Turn → List Place
  | makeTree q => [q]
  | write q => [q]
  | remove _ => []
  | rename _ new => [new]

def kind (fs : FileSystem) : Turn → EventKind
  | makeTree _ => .create
  | write q => if (fs.at? q).isSome then .modify else .create
  | remove _ => .remove
  | rename _ _ => .modify

def event (fs : FileSystem) (ws : WatchState) (turn : Turn) : Event :=
  ⟨turn.kind fs, (turn.places.map .ofPlace).filter (Change.isReported ws)⟩

end Turn

namespace ChangeHandler

variable {h : ChangeHandler} {fs fs' : FileSystem} {ws : WatchState} {root p q old new : Place}
  {turn : Turn}

theorem exists_concat_of_ne_nil (hne : q ≠ []) : ∃ r name, q = r ++ [name] ∧ ¬q <+: r := by
  refine ⟨q.dropLast, q.getLast hne, (List.dropLast_concat_getLast hne).symm, fun hpre => ?_⟩
  have hlen := hpre.length_le
  rw [List.length_dropLast] at hlen
  have := List.length_pos_iff.2 hne
  omega

theorem renewed_iff_seen (hsame : ∀ p, ¬q <+: p → fs'.at? p = fs.at? p) (p : Place) :
    Renewed h fs' root q (Seen h.builder fs root) p ↔ Seen h.builder fs' root p := by
  constructor
  · intro hp
    cases hp with
    | inl hout => exact hout.1.congr (hsame p hout.2)
    | inr hbelow => exact hbelow.1
  · intro hp
    by_cases hpre : q <+: p
    · exact .inr ⟨hp, hpre⟩
    · exact .inl ⟨hp.congr (hsame p hpre).symm, hpre⟩

theorem Accepts.handleAll_one (created : Bool) (ha : h.Accepts) (hr : Rooted h.builder root)
    (hst : Standing h.builder root fs) (hst' : Standing h.builder root fs')
    (hw : ws.Watches (Seen h.builder fs root)) (hq : ValidNames q) (hne : q ≠ [])
    (hroot : ¬q <+: root) (hsame : ∀ p, ¬q <+: p → fs'.at? p = fs.at? p)
    (hnew : (∃ t, fs'.at? q = some (.directory t)) → created = true)
    (hfile : (∃ content t, fs'.at? q = some (.file content t)) →
      ∀ t, fs.at? q ≠ some (.directory t)) :
    (h.handleAll fs' created ws ([q].map .ofPlace |>.filter (Change.isReported ws))).2 = none ∧
      (h.handleAll fs' created ws ([q].map .ofPlace |>.filter (Change.isReported ws))).1.Watches
        (Seen h.builder fs' root) ∧
      ws.Queues (h.handleAll fs' created ws ([q].map .ofPlace |>.filter (Change.isReported ws))).1
        (FileUnder h.builder fs' q) := by
  obtain ⟨r, name, rfl, hr'⟩ := exists_concat_of_ne_nil hne
  -- With a directory seen at or below the place, it was a directory itself.
  have hleaf (hnow : ∃ content t, fs'.at? (r ++ [name]) = some (.file content t)) (p : Place)
      (hp : Seen h.builder fs root p) : ¬r ++ [name] <+: p := by
    intro hpre
    obtain ⟨-, -, -, t, ht⟩ := hp
    obtain ⟨more, rfl⟩ := hpre
    by_cases hmore : more = []
    · rw [hmore, List.append_nil] at ht
      exact hfile hnow t ht
    · obtain ⟨u, hu⟩ := hst.wellFormed.directory_above hmore ht
      exact hfile hnow u hu
  obtain ⟨hwatches, hqueues⟩ := ha.visit_renewed created hr hst' hst.wellFormed hw (fun _ hp => hp)
    hw hq hroot (fun _ _ => hsame r hr') (fun hdir => .inl (hnew hdir)) hleaf
  rw [ha.handleAll_filter]
  exact ⟨rfl, hwatches.congr (renewed_iff_seen hsame), hqueues⟩

theorem Accepts.handleAll_rename (ha : h.Accepts) (hr : Rooted h.builder root)
    (hst : Standing h.builder root fs) (hst' : Standing h.builder root fs')
    (hw : ws.Watches (Seen h.builder fs root)) (hmakes : (Turn.rename old new).Makes fs fs') :
    (h.handleAll fs' false ws ([old, new].map .ofPlace |>.filter (Change.isReported ws))).2 = none ∧
      (h.handleAll fs' false ws ([old, new].map .ofPlace
        |>.filter (Change.isReported ws))).1.Watches
        (Seen h.builder fs' root) ∧
      ws.Queues (h.handleAll fs' false ws
        ([old, new].map .ofPlace |>.filter (Change.isReported ws))).1
        (FileUnder h.builder fs' new) := by
  obtain ⟨⟨n, hold⟩, hnone, hapart, hgone, hmoved, hsame⟩ := hmakes
  have hnew : fs'.at? new = some n := by simpa [hold] using hmoved []
  have hgone' := hgone old (List.prefix_refl _)
  have hne : old ≠ [] := by
    rintro rfl
    rw [at?_nil] at hgone'
    cases hgone'
  have hne' : new ≠ [] := by
    rintro rfl
    rw [at?_nil] at hnone
    cases hnone
  obtain ⟨r, name, rfl, hr'⟩ := exists_concat_of_ne_nil hne
  obtain ⟨r', name', rfl, hr''⟩ := exists_concat_of_ne_nil hne'
  have hqold := hst.wellFormed.validNames hold
  have hqnew := hst'.wellFormed.validNames hnew
  have hseenOld (p : Place) (hp : Seen h.builder fs' root p) : ¬r ++ [name] <+: p := by
    intro hpre
    obtain ⟨-, -, -, t, ht⟩ := hp
    rw [hgone p hpre] at ht
    cases ht
  have hseenNew (p : Place) (hp : Seen h.builder fs root p) : ¬r' ++ [name'] <+: p := by
    intro hpre
    obtain ⟨-, -, -, t, ht⟩ := hp
    obtain ⟨more, rfl⟩ := hpre
    obtain ⟨m, hm⟩ := hst.wellFormed.exists_at?_of_append ht
    rw [hnone] at hm
    cases hm
  -- Where something was there is nothing now, so only subscriptions end.
  obtain ⟨hwatches, hqueues⟩ := ha.visit_renewed false hr hst' hst.wellFormed hw (fun _ hp => hp) hw
    hqold (hst'.not_above_of_none hgone') (fun m hm => absurd hm (by simp [hgone']))
      (fun hdir => absurd hdir (by simp [hgone']))
    (fun hdir => absurd hdir (by simp [hgone']))
  have hkept (p : Place) (hp : Renewed h fs' root (r ++ [name]) (Seen h.builder fs root) p) :
      Seen h.builder fs root p ∧ ¬r ++ [name] <+: p := by
    cases hp with
    | inl hout => exact hout
    | inr hbelow => exact absurd hbelow.2 (hseenOld p hbelow.1)
  have hparent : fs'.at? r' = fs.at? r' := by
    refine hsame r' (fun hpre => ?_) hr''
    exact hapart (hpre.trans (List.prefix_append _ _))
  obtain ⟨hwatches', hqueues'⟩ := ha.visit_renewed false hr hst' hst.wellFormed hw
    (fun p hp => (hkept p hp).1) hwatches hqnew (hst.not_above_of_none hnone) (fun _ _ => hparent)
    (fun _ => .inr fun hp => hseenNew _ (hkept _ hp).1 (List.prefix_refl _))
    (fun _ p hp => hseenNew p (hkept p hp).1)
  rw [ha.handleAll_filter]
  refine ⟨rfl, hwatches'.congr fun p => ⟨fun hp => ?_, fun hp => ?_⟩,
    hqueues.trans hqueues' fun rel hrel => ?_⟩
  · cases hp with
    | inl hout =>
      obtain ⟨hseen, hout'⟩ := hkept p hout.1
      exact hseen.congr (hsame p hout' hout.2)
    | inr hbelow => exact hbelow.1
  · by_cases hpre : r' ++ [name'] <+: p
    · exact .inr ⟨hp, hpre⟩
    · exact .inl ⟨.inl ⟨hp.congr (hsame p (hseenOld p hp) hpre).symm, hseenOld p hp⟩, hpre⟩
  · obtain ⟨names, -, hpre, -, content, t, hat⟩ := (fileUnder_iff hr hst' hqold).1 hrel
    rw [hgone _ hpre] at hat
    cases hat

theorem Accepts.handleEvent_turn (ha : h.Accepts) (hr : Rooted h.builder root)
    (hst : Standing h.builder root fs) (hst' : Standing h.builder root fs')
    (hw : ws.Watches (Seen h.builder fs root)) (hmakes : turn.Makes fs fs') :
    (h.handleEvent fs' ws (turn.event fs ws)).2 = none ∧
      (h.handleEvent fs' ws (turn.event fs ws)).1.Watches (Seen h.builder fs' root) ∧
      ws.Queues (h.handleEvent fs' ws (turn.event fs ws)).1
        fun rel => ∃ q ∈ turn.arrivals, FileUnder h.builder fs' q rel := by
  cases turn with
  | makeTree q =>
    obtain ⟨hnone, ⟨t, ht⟩, hsame⟩ := hmakes
    have hne : q ≠ [] := by
      rintro rfl
      rw [at?_nil] at hnone
      cases hnone
    obtain ⟨hresult, hwatches, hqueues⟩ := ha.handleAll_one true hr hst hst' hw
      (hst'.wellFormed.validNames ht) hne (hst.not_above_of_none hnone) hsame (fun _ => rfl)
      (fun hfile t => by simp [hnone])
    exact ⟨hresult, hwatches, hqueues.congr fun rel => by simp [Turn.arrivals]⟩
  | write q =>
    obtain ⟨hnot, ⟨content, t, ht⟩, hsame⟩ := hmakes
    have hne : q ≠ [] := by
      rintro rfl
      exact hnot _ (at?_nil fs)
    obtain ⟨hresult, hwatches, hqueues⟩ := ha.handleAll_one ((Turn.write q).kind fs = .create) hr
      hst hst' hw (hst'.wellFormed.validNames ht) hne (hst'.not_above_of_file ht) hsame
        (fun hdir => absurd hdir (by simp [ht]))
      (fun _ => hnot)
    exact ⟨hresult, hwatches, hqueues.congr fun rel => by simp [Turn.arrivals]⟩
  | remove q =>
    obtain ⟨⟨n, hn⟩, hgone, hsame⟩ := hmakes
    have hgone' := hgone q (List.prefix_refl _)
    have hne : q ≠ [] := by
      rintro rfl
      rw [at?_nil] at hgone'
      cases hgone'
    obtain ⟨hresult, hwatches, hqueues⟩ := ha.handleAll_one false hr hst hst' hw
      (hst.wellFormed.validNames hn) hne (hst'.not_above_of_none hgone') hsame
      (fun hdir => absurd hdir (by simp [hgone'])) (fun hfile => absurd hfile (by simp [hgone']))
    refine ⟨hresult, hwatches, hqueues.congr fun rel => ?_⟩
    simp only [Turn.arrivals, List.not_mem_nil, false_and, exists_false, iff_false]
    intro hrel
    obtain ⟨names, -, hpre, -, content, t, hat⟩ :=
      (fileUnder_iff hr hst' (hst.wellFormed.validNames hn)).1 hrel
    rw [hgone _ hpre] at hat
    cases hat
  | rename old new =>
    obtain ⟨hresult, hwatches, hqueues⟩ := ha.handleAll_rename hr hst hst' hw hmakes
    exact ⟨hresult, hwatches, hqueues.congr fun rel => by simp [Turn.arrivals]⟩

/-- The states that a handler comes to over the files as they are. -/
inductive Tracked (h : ChangeHandler) : FileSystem → WatchState → Prop
  | start (fs : FileSystem) (wellFormed : fs.WellFormed) (linkFree : fs.LinkFree)
      (source : fs.isDirectory h.builder.source) : Tracked h fs (h.subscribeTree fs .start).1
  | turn {fs : FileSystem} {ws : WatchState} (before : Tracked h fs ws) (turn : Turn)
      (fs' : FileSystem)
      (makes : turn.Makes fs fs') (wellFormed : fs'.WellFormed) (linkFree : fs'.LinkFree)
      (source : fs'.isDirectory h.builder.source) :
      Tracked h fs' (h.handleEvent fs' ws (turn.event fs ws)).1

theorem Accepts.tracked (ha : h.Accepts) (hr : Rooted h.builder h.builder.source.place)
    (ht : Tracked h fs ws) :
    Standing h.builder h.builder.source.place fs ∧
    ws.Watches (Seen h.builder fs h.builder.source.place) := by
  induction ht with
  | start fs hwf hlf hsource =>
    have hst := standing_of_isDirectory hwf hlf hr.isAbsolute hsource
    exact ⟨hst, (ha.subscribeTree hr hst).2⟩
  | turn before turn fs' hmakes hwf hlf hsource ih =>
    have hst' := standing_of_isDirectory hwf hlf hr.isAbsolute hsource
    exact ⟨hst', (ha.handleEvent_turn hr ih.1 hst' ih.2 hmakes).2.1⟩

/-- The subscriptions are always those to the source and to the directories that the walk lists, and
a change queues what the walk lists of the files that it has brought, each once. -/
theorem watches_tree {c : Config} {cli : CommandLine} {start : FileSystem}
    (hstart : start.WellFormed) (hload : Config.load start cli = .ok c)
    (hb : h.builder = .ofConfig c) (ha : h.Accepts) (ht : Tracked h fs ws) :
    (∀ d, ws.contains d ↔ d.components = c.source.components ∨
      ∃ e ∈ ((ofConfig c).collect fs).1, e.kind = .directory ∧
        d.components = (c.source.join e.path).components) ∧
    ∀ (turn : Turn) (fs' : FileSystem), turn.Makes fs fs' → fs'.WellFormed → fs'.LinkFree →
      fs'.isDirectory c.source →
      (h.handleEvent fs' ws (turn.event fs ws)).2 = none ∧
      ∃ queued, (h.handleEvent fs' ws (turn.event fs ws)).1.jobs = ws.jobs ++ queued ∧
        queued.Nodup ∧
        ∀ rel, rel ∈ queued ↔ rel ∈ files ((ofConfig c).collect fs').1 ∧
          ∃ q ∈ turn.arrivals, (c.source.join rel).startsWith (.ofPlace q) := by
  have hr : Rooted (ofConfig c) c.source.place := .of_load hstart hload
  have hr' : Rooted h.builder h.builder.source.place := by rwa [hb]
  obtain ⟨hst, hw⟩ := ha.tracked hr' ht
  constructor
  · intro d
    rw [hb] at hst hw
    rw [hw d]
    refine Iff.trans ?_ (or_congr_right (exists_directory_collect_iff hr hst).symm)
    constructor
    · intro hcase
      obtain ⟨p, hp, hd⟩ := hcase
      by_cases htop : p = c.source.place
      · rw [htop, ← hr.source] at hd
        exact .inl hd
      · exact .inr ⟨p, ⟨hp, htop⟩, hd⟩
    · intro hcase
      cases hcase with
      | inl hd => exact ⟨c.source.place, seen_root hst, by rw [← hr.source]; exact hd⟩
      | inr hbelow => exact hbelow.imp fun p hp => ⟨hp.1.1, hp.2⟩
  · intro turn fs' hmakes hwf hlf hsource
    have hst' : Standing h.builder h.builder.source.place fs' := by
      rw [hb]
      exact standing_of_isDirectory hwf hlf hr.isAbsolute hsource
    obtain ⟨hresult, -, queued, hjobs, hnodup, hdue⟩ := ha.handleEvent_turn hr' hst hst' hw hmakes
    refine ⟨hresult, queued, hjobs, hnodup, fun rel => (hdue rel).trans ?_⟩
    rw [hb]
    constructor
    · intro hcase
      obtain ⟨q, hq, hrel, hunder⟩ := hcase
      exact ⟨hrel, q, hq, hunder⟩
    · intro hcase
      obtain ⟨hrel, q, hq, hunder⟩ := hcase
      exact ⟨q, hq, hrel, hunder⟩

def notesSiteGrown : FileSystem :=
  (notesSiteMade.put ["w".toList, "d".toList] (.directory 6)).put
    ["w".toList, "d".toList, "x".toList] (.file [120] 7)

def notesSiteHandler : ChangeHandler := ⟨ofConfig notesSiteConfig, fun _ _ => false, false⟩

theorem notesSiteGrown_makes :
    (Turn.makeTree ["w".toList, "d".toList]).Makes notesSiteMade notesSiteGrown := by
  refine ⟨by decide, ⟨6, by decide⟩, fun p hp => ?_⟩
  have hne {q : Place} (hq : ["w".toList, "d".toList] <+: q) : p ≠ q := by
    rintro rfl
    exact hp hq
  rw [notesSiteGrown, at?_put_of_ne _ _ (hne (by decide)), at?_put_of_ne _ _ (hne (by decide))]

theorem notesSiteGrown_listed :
    .ofString "d/x" ∈ files ((ofConfig notesSiteConfig).collect notesSiteGrown).1 := by
  have hleads : notesSiteGrown.Leads (ofConfig notesSiteConfig).source ["w".toList] :=
    ⟨by decide, 0, by decide⟩
  have hshown : (ofConfig notesSiteConfig).policy.excludesPath (.ofNames ["d".toList]) = false ∧
      (ofConfig notesSiteConfig).policy.excludesPath (.ofNames ["d".toList, "x".toList]) =
      false := by
    constructor <;> cbv
  refine (mem_files_iff (by decide) (by decide) hleads).2 ⟨["d".toList, "x".toList], by decide,
    by simp, by decide, by cbv, ⟨by cbv, by decide⟩, ⟨[120], 7, by decide⟩, fun a ha hpre => ?_⟩
  cases List.prefix_concat_iff.1 (show a <+: ["d".toList] ++ ["x".toList] from hpre) with
  | inl heq =>
    rw [heq]
    exact hshown.2
  | inr hpre =>
    cases List.prefix_concat_iff.1 (show a <+: [] ++ ["d".toList] from hpre) with
    | inl heq =>
      rw [heq]
      exact hshown.1
    | inr hnil => exact absurd (List.prefix_nil.1 hnil) ha

/-- The file in the new directory is queued, and once. -/
theorem notesSite_grows :
    ∃ queued, (notesSiteHandler.handleEvent notesSiteGrown
      (notesSiteHandler.subscribeTree notesSiteMade .start).1
        ((Turn.makeTree ["w".toList, "d".toList]).event notesSiteMade
          (notesSiteHandler.subscribeTree notesSiteMade .start).1)).1.jobs =
      (notesSiteHandler.subscribeTree notesSiteMade .start).1.jobs ++ queued ∧
      queued.count (.ofString "d/x") = 1 := by
  obtain ⟨-, queued, hjobs, hnodup, hdue⟩ :=
    (watches_tree (h := notesSiteHandler) (by decide) notesSite_load rfl
    ⟨fun _ _ => rfl, rfl⟩ (.start notesSiteMade (by decide) (by decide) (by cbv))).2
      _ _ notesSiteGrown_makes (by decide)
      (by decide) (by cbv)
  refine ⟨queued, hjobs, List.count_eq_one_of_mem hnodup ((hdue _).2 ⟨notesSiteGrown_listed, ?_⟩)⟩
  exact ⟨["w".toList, "d".toList], by simp [Turn.arrivals], by cbv⟩

end ChangeHandler
end StaticSite
