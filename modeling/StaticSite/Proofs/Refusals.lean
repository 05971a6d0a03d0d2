import Mathlib
import StaticSite.Proofs.LiveBuilds
import StaticSite.Proofs.Nesting
import StaticSite.Proofs.Stopping

/-! Refused subscriptions against the files that are queued. A directory that is not subscribed to
is taken for a new one, so of two handlers the one with fewer subscriptions queues more. A refusal
leaves fewer of them as long as a directory is listed with all that is listed from it; that fails at
links alone. -/
namespace StaticSite

open FileSystem

namespace Path

theorem startsWith_trans {p q r : Path} (hpq : p.startsWith q) (hqr : q.startsWith r) :
    p.startsWith r := by
  rw [startsWith, List.isPrefixOf_iff_prefix] at hpq hqr ⊢
  exact hqr.trans hpq

theorem startsWith_of_components {p q : Path} (h : q.components = p.components) :
    p.startsWith q := by
  rw [startsWith, List.isPrefixOf_iff_prefix, h]

end Path

namespace ChangeHandler

variable {h : ChangeHandler} {fs : FileSystem} {s a r : WatchState} {created queueFiles : Bool}
  {d dir p rel : Path} {entries : List SourceEntry}

/-- The handler with a watcher that takes every directory that is there. -/
def withoutRefusals (h : ChangeHandler) : ChangeHandler := { h with refuses := fun _ _ => false }

theorem visible?_withoutRefusals (h : ChangeHandler) (p : Path) :
    h.withoutRefusals.visible? p = h.visible? p := rfl

theorem accepts_withoutRefusals (hworking : h.workerStopped = false) : h.withoutRefusals.Accepts :=
  ⟨fun _ _ => rfl, hworking⟩

/-! ### What refusals leave of the subscriptions -/

theorem subscribe_bounds (h : ChangeHandler) (fs : FileSystem) (s : WatchState) (dir d : Path) :
    (s.contains d → (h.subscribe fs s dir).contains d) ∧
      ((h.subscribe fs s dir).contains d → s.contains d ∨ fs.exists_ dir ∧
        dir.components = d.components) := by
  rw [subscribe, add]
  by_cases hin : s.contains dir = true
  · rw [if_pos hin]
    exact ⟨id, .inl⟩
  · rw [if_neg hin]
    by_cases hrefused : (h.refuses s.attempts dir || !fs.exists_ dir) = true
    · rw [if_pos hrefused]
      exact ⟨id, .inl⟩
    · rw [if_neg hrefused]
      rw [Bool.or_eq_true, not_or, Bool.not_eq_true', Bool.not_eq_false] at hrefused
      simp only [WatchState.contains, List.any_append, Bool.or_eq_true]
      exact ⟨.inl, fun hor => hor.imp_right fun hnew => ⟨hrefused.2, by simpa using hnew⟩⟩

theorem subscribeAll_bounds (h : ChangeHandler) (fs : FileSystem) (queueFiles : Bool)
    (s : WatchState) (entries : List SourceEntry) (d : Path) :
    (s.contains d → (h.subscribeAll fs queueFiles s entries).1.contains d) ∧
      ((h.subscribeAll fs queueFiles s entries).1.contains d → s.contains d ∨
        ∃ e ∈ entries, e.kind = .directory ∧
        fs.exists_ (h.builder.source.join e.path) ∧
        (h.builder.source.join e.path).components = d.components) := by
  induction entries generalizing s with
  | nil => exact ⟨id, .inl⟩
  | cons e rest ih =>
    obtain ⟨rel, kind⟩ := e
    have hrest {s' : WatchState} (hsame : s'.dirs = s.dirs) :
        (s.contains d → (h.subscribeAll fs queueFiles s' rest).1.contains d) ∧
          ((h.subscribeAll fs queueFiles s' rest).1.contains d →
            s.contains d ∨ ∃ e ∈ (⟨rel, .file⟩ : SourceEntry) :: rest, e.kind = .directory ∧
              fs.exists_ (h.builder.source.join e.path) ∧
              (h.builder.source.join e.path).components = d.components) := by
      have hboth := ih s'
      rw [WatchState.contains_congr hsame] at hboth
      exact ⟨hboth.1, fun hd => (hboth.2 hd).imp_right fun hex => hex.imp fun _ he =>
        ⟨List.mem_cons_of_mem _ he.1, he.2⟩⟩
    cases kind with
    | directory =>
      rw [subscribeAll_directory]
      obtain ⟨hkept, hnew⟩ := h.subscribe_bounds fs s (h.builder.source.join rel) d
      refine ⟨fun hd => (ih _).1 (hkept hd), fun hd => ?_⟩
      cases (ih _).2 hd with
      | inl hbefore =>
        exact (hnew hbefore).imp_right fun hthere => ⟨_, List.mem_cons_self, rfl, hthere⟩
      | inr hlater => exact .inr (hlater.imp fun _ he => ⟨List.mem_cons_of_mem _ he.1, he.2⟩)
    | file =>
      cases queueFiles with
      | false => exact hrest rfl
      | true =>
        rw [subscribeAll_file]
        split
        · exact ⟨id, .inl⟩
        · exact hrest rfl

theorem subscribeNew_bounds (hvisible : h.visible? dir = some rel) (d : Path) :
    (s.contains d → d.startsWith dir = false → (h.subscribeNew fs s dir rel).1.contains d) ∧
      ((h.subscribeNew fs s dir rel).1.contains d →
        (s.contains d ∧ d.startsWith dir = false) ∨ dir.components = d.components ∨
        h.Lists fs dir d) := by
  rw [subscribeNew]
  have hlogged :
      ((s.forget dir).log (Log.line "watch"
        ("watching new directory ".toList ++ rel.text))).contains d =
      (s.forget dir).contains d := WatchState.contains_congr (WatchState.dirs_log _ _) d
  obtain ⟨hkept, hnew⟩ := h.subscribe_bounds fs
    ((s.forget dir).log (Log.line "watch" ("watching new directory ".toList ++ rel.text))) dir d
  obtain ⟨hkept', hnew'⟩ := h.subscribeAll_bounds fs true
    ((h.builder.collectIn fs rel).2.foldl .log (h.subscribe fs
      ((s.forget dir).log (Log.line "watch" ("watching new directory ".toList ++ rel.text))) dir))
    (h.builder.collectIn fs rel).1 d
  rw [WatchState.contains_congr (WatchState.foldl_log _ _).1] at hkept' hnew'
  rw [hlogged, WatchState.contains_forget] at hkept hnew
  refine ⟨fun hd hout => hkept' (hkept ⟨hd, hout⟩), fun hd => ?_⟩
  cases hnew' hd with
  | inl hbefore => exact (hnew hbefore).imp_right fun hthere => .inl hthere.2
  | inr hlisted => exact .inr (.inr ⟨rel, hvisible, hlisted⟩)

theorem Accepts.subscribeNew_iff (ha : h.Accepts) (hvisible : h.visible? dir = some rel)
    (hdir : fs.isDirectory dir) (d : Path) :
    (h.subscribeNew fs s dir rel).1.contains d ↔
      (s.contains d ∧ d.startsWith dir = false) ∨ dir.components = d.components ∨
      h.Lists fs dir d := by
  obtain ⟨place, t, hstat⟩ := isDirectory_iff.1 hdir
  have hthere : fs.exists_ dir = true := exists_iff.2 ⟨place, _, hstat⟩
  have hlists : h.Lists fs dir d ↔ ∃ e ∈ (h.builder.collectIn fs rel).1, e.kind = .directory ∧
      fs.exists_ (h.builder.source.join e.path) ∧
      (h.builder.source.join e.path).components = d.components := by
    simp [Lists, hvisible]
  rw [(ha.subscribeNew d).2, hlists, hthere, or_assoc]
  simp

/-! ### Two handlers -/

def due (h : ChangeHandler) (fs : FileSystem) (created : Bool) (s : WatchState) (p : Path) :
    List Path :=
  match h.visible? p with
  | none => []
  | some rel =>
    if fs.isDirectory p then
      if created || !s.contains p then h.queuedOf true (h.builder.collectIn fs rel).1 else []
    else if fs.isFile p then (if h.workerStopped then [] else [rel])
    else []

theorem jobs_handle (h : ChangeHandler) (fs : FileSystem) (created : Bool) (s : WatchState)
    (p : Path) :
    (h.handle fs created s p).1.jobs = s.jobs ++ h.due fs created s p := by
  rw [handle, due]
  cases h.visible? p with
  | none => simp
  | some rel =>
    dsimp only
    split
    · split
      · exact h.jobs_subscribeNew fs s p rel
      · simp
    · split
      · exact (h.submit_spec s rel).2.1
      · simp

theorem due_sublist (h : ChangeHandler) (fs : FileSystem) (created : Bool)
    (hle : r.contains p → a.contains p) :
    (h.withoutRefusals.due fs created a p).Sublist (h.due fs created r p) := by
  rw [due, due, visible?_withoutRefusals]
  split
  · exact .refl _
  · split
    · cases hr : r.contains p with
      | true =>
        rw [hle hr]
        exact .refl _
      | false =>
        rw [Bool.not_false, Bool.or_true, if_pos rfl]
        split
        · exact .refl _
        · exact List.nil_sublist _
    · exact .refl _

/-- That a handler that is refused nothing holds what another one holds, and with a directory that
the other one does not hold all that is listed from there. -/
structure Covers (h : ChangeHandler) (fs : FileSystem) (a r : WatchState) : Prop where
  within : ∀ d, r.contains d → a.contains d
  full : ∀ p q d, h.Direct fs p → a.contains p → r.contains p = false → h.Direct fs q →
    a.contains q → q.startsWith p →
    h.Lists fs q d → a.contains d

theorem Covers.refl (h : ChangeHandler) (fs : FileSystem) (s : WatchState) : Covers h fs s s := by
  refine ⟨fun _ hd => hd, fun p q d _ hp hout => ?_⟩
  rw [hp] at hout
  cases hout

theorem Covers.of_dirs {a' r' : WatchState} (hc : Covers h fs a r) (ha : a'.dirs = a.dirs)
    (hr : r'.dirs = r.dirs) :
    Covers h fs a' r' := by
  obtain ⟨hwithin, hfull⟩ := hc
  refine ⟨fun d => ?_, fun p q d => ?_⟩
  · rw [WatchState.contains_congr ha, WatchState.contains_congr hr]
    exact hwithin d
  · rw [WatchState.contains_congr ha, WatchState.contains_congr ha, WatchState.contains_congr ha,
      WatchState.contains_congr hr]
    exact hfull p q d

theorem Covers.subscribeNew (hc : Covers h fs a r) (hworking : h.workerStopped = false)
    (hwf : fs.WellFormed) (hs : h.builder.source.isAbsolute) (hp : h.Direct fs p)
    (hvisible : h.visible? p = some rel) (hdir : fs.isDirectory p) :
    Covers h fs (h.withoutRefusals.subscribeNew fs a p rel).1 (h.subscribeNew fs r p rel).1 := by
  have hheld (d : Path) : (h.withoutRefusals.subscribeNew fs a p rel).1.contains d ↔
      (a.contains d ∧ d.startsWith p = false) ∨ p.components = d.components ∨ h.Lists fs p d :=
    (accepts_withoutRefusals hworking).subscribeNew_iff hvisible hdir d
  refine ⟨fun d hd => (hheld d).2 ?_, fun above q d habove hin hout hq hqin hqbelow hlists =>
    (hheld d).2 ?_⟩
  · exact ((subscribeNew_bounds hvisible d).2 hd).imp_left fun hbefore =>
      ⟨hc.within d hbefore.1, hbefore.2⟩
  · by_cases hqp : q.startsWith p
    · -- the directory is at or below the new one, so the walk from the new one lists it
      refine .inr (.inr ?_)
      cases (hheld q).1 hqin with
      | inl hkept => simp [hqp] at hkept
      | inr hnew =>
        cases hnew with
        | inl hsame =>
          obtain ⟨names, -, hnames, rfl⟩ := hp.named
          obtain ⟨names', -, hnames', rfl⟩ := hq.named
          obtain rfl := descend_inj hs hnames hnames' hsame
          exact hlists
        | inr hlisted => exact hlisted.trans hwf hs hp hq hlists
    · have habove' : above.startsWith p = false := by
        rw [Bool.eq_false_iff]
        exact fun hbelow => hqp (Path.startsWith_trans hqbelow hbelow)
      have hkept : a.contains above := by
        cases (hheld above).1 hin with
        | inl hkept => exact hkept.1
        | inr hnew =>
          have hbelow : above.startsWith p :=
            hnew.elim Path.startsWith_of_components fun hlisted => hlisted.startsWith hwf hs hp
          simp [hbelow] at habove'
      have hlost : r.contains above = false := by
        rw [Bool.eq_false_iff]
        exact fun hr => by simp [(subscribeNew_bounds hvisible above).1 hr habove'] at hout
      have hqkept : a.contains q := by
        cases (hheld q).1 hqin with
        | inl hkept => exact hkept.1
        | inr hnew =>
          exact absurd (hnew.elim Path.startsWith_of_components fun hlisted =>
            hlisted.startsWith hwf hs hp) hqp
      have hd := hc.full above q d habove hkept hlost hq hqkept hqbelow hlists
      by_cases hdp : d.startsWith p
      · exact .inr (hlists.between hwf hs hq hp (by simp [hvisible]) hdp (by simpa using hqp)).2
      · exact .inl ⟨hd, by simpa using hdp⟩

theorem Covers.subscribeNew_right (hc : Covers h fs a r) (hp : h.Direct fs p)
    (hvisible : h.visible? p = some rel) (hin : a.contains p) (hout : r.contains p = false) :
    Covers h fs a (h.subscribeNew fs r p rel).1 := by
  refine ⟨fun d hd => ?_, fun above q d habove hain haout hq hqin hqbelow hlists => ?_⟩
  · cases (subscribeNew_bounds hvisible d).2 hd with
    | inl hkept => exact hc.within d hkept.1
    | inr hnew =>
      cases hnew with
      | inl hsame => rwa [WatchState.contains, ← hsame, ← WatchState.contains]
      | inr hlisted =>
        exact hc.full p p d hp hin hout hp hin (Path.startsWith_of_components rfl) hlisted
  · cases hr : r.contains above with
    | false => exact hc.full above q d habove hain hr hq hqin hqbelow hlists
    | true =>
      -- it was lost with what is below the new directory
      have hbelow : above.startsWith p := by
        by_contra hnot
        simp [(subscribeNew_bounds hvisible above).1 hr (by simpa using hnot)] at haout
      exact hc.full p q d hp hin hout hq hqin (Path.startsWith_trans hqbelow hbelow) hlists

theorem Covers.forget (hc : Covers h fs a r) (hwf : fs.WellFormed)
    (hs : h.builder.source.isAbsolute) (hp : h.Direct fs p) (hvisible : (h.visible? p).isSome)
    (hnone : fs.isDirectory p = false) : Covers h fs (a.forget p) (r.forget p) := by
  refine ⟨fun d hd => ?_, fun above q d habove hin hout hq hqin hqbelow hlists => ?_⟩
  · obtain ⟨hkept, hnot⟩ := WatchState.contains_forget.1 hd
    exact WatchState.contains_forget.2 ⟨hc.within d hkept, hnot⟩
  · obtain ⟨hain, habove'⟩ := WatchState.contains_forget.1 hin
    obtain ⟨hqin, hqp⟩ := WatchState.contains_forget.1 hqin
    have hlost : r.contains above = false := by
      rw [Bool.eq_false_iff]
      exact fun hr => by simp [WatchState.contains_forget.2 ⟨hr, habove'⟩] at hout
    refine WatchState.contains_forget.2 ⟨hc.full above q d habove hain hlost hq hqin hqbelow hlists,
      ?_⟩
    by_contra hdp
    have hdirectory := (hlists.between hwf hs hq hp hvisible (by simpa using hdp) hqp).1
    simp [hnone] at hdirectory

theorem Covers.handle (hc : Covers h fs a r) (hworking : h.workerStopped = false)
    (hwf : fs.WellFormed) (hs : h.builder.source.isAbsolute) (created : Bool)
    (hp : (h.visible? p).isSome → h.Direct fs p) :
    Covers h fs (h.withoutRefusals.handle fs created a p).1 (h.handle fs created r p).1 := by
  rw [ChangeHandler.handle, ChangeHandler.handle, visible?_withoutRefusals]
  cases hvisible : h.visible? p with
  | none => exact hc
  | some rel =>
    have hdirect := hp (by simp [hvisible])
    dsimp only
    cases hdir : fs.isDirectory p with
    | false =>
      rw [if_neg Bool.false_ne_true, if_neg Bool.false_ne_true]
      cases fs.isFile p with
      | true => exact hc.of_dirs (h.withoutRefusals.submit_spec a rel).1 (h.submit_spec r rel).1
      | false => exact hc.forget hwf hs hdirect (by simp [hvisible]) hdir
    | true =>
      rw [if_pos rfl, if_pos rfl]
      cases created with
      | true => exact hc.subscribeNew hworking hwf hs hdirect hvisible hdir
      | false =>
        cases hr : r.contains p with
        | true =>
          rw [hc.within p hr]
          exact hc
        | false =>
          cases hain : a.contains p with
          | true => exact hc.subscribeNew_right hdirect hvisible hain hr
          | false => exact hc.subscribeNew hworking hwf hs hdirect hvisible hdir

theorem within_handle (hworking : h.workerStopped = false) (fs : FileSystem) (created : Bool)
    (s : WatchState) (p d : Path) (hd : (h.handle fs created s p).1.contains d) :
    (h.withoutRefusals.handle fs created s p).1.contains d := by
  rw [ChangeHandler.handle] at hd ⊢
  rw [visible?_withoutRefusals]
  cases hvisible : h.visible? p with
  | none => rwa [hvisible] at hd
  | some rel =>
    rw [hvisible] at hd
    dsimp only at hd ⊢
    split at hd
    next hdir =>
      rw [if_pos hdir]
      split at hd
      next hnew =>
        rw [if_pos hnew]
        exact ((accepts_withoutRefusals hworking).subscribeNew_iff hvisible hdir d).2
          ((subscribeNew_bounds hvisible d).2 hd)
      next hold => rwa [if_neg hold]
    next hnoDir =>
      rw [if_neg hnoDir]
      split at hd
      next hfile =>
        rw [if_pos hfile, WatchState.contains_congr (h.withoutRefusals.submit_spec s rel).1]
        rwa [WatchState.contains_congr (h.submit_spec s rel).1] at hd
      next hnone => rwa [if_neg hnone]

/-! ### Events -/

def dueAll (h : ChangeHandler) (fs : FileSystem) (created : Bool) :
    WatchState → List Path → List Path
  | _, [] => []
  | s, p :: ps => h.due fs created s p ++ h.dueAll fs created (h.handle fs created s p).1 ps

theorem handleAll_working (hworking : h.workerStopped = false) (fs : FileSystem) (created : Bool)
    (s : WatchState) (ps : List Path) :
    (h.handleAll fs created s ps).2 = none ∧
    (h.handleAll fs created s ps).1.jobs = s.jobs ++ h.dueAll fs created s ps := by
  induction ps generalizing s with
  | nil => exact ⟨rfl, by simp [handleAll, dueAll]⟩
  | cons p ps ih =>
    have hworks := (h.follows_handle fs created s p).works
    rw [h.withWorker_of_working hworking] at hworks
    rw [h.handleAll_cons fs created (Prod.ext rfl hworks), dueAll, ← List.append_assoc,
      ← h.jobs_handle]
    exact ih _

theorem Covers.dueAll_sublist (hc : Covers h fs a r) (hworking : h.workerStopped = false)
    (hwf : fs.WellFormed) (hs : h.builder.source.isAbsolute) (created : Bool) {ps : List Path}
    (hps : ∀ p ∈ ps, (h.visible? p).isSome → h.Direct fs p) :
    (h.withoutRefusals.dueAll fs created a ps).Sublist (h.dueAll fs created r ps) := by
  induction ps generalizing a r with
  | nil => exact .refl _
  | cons p ps ih =>
    have hnext := hc.handle hworking hwf hs created (hps p List.mem_cons_self)
    exact (h.due_sublist fs created (hc.within p)).append (ih hnext fun q hq =>
      hps q (List.mem_cons_of_mem _ hq))

theorem dueAll_sublist_of_length_le (hworking : h.workerStopped = false) (fs : FileSystem)
    (created : Bool) (s : WatchState) {ps : List Path} (hps : ps.length ≤ 2) :
    (h.withoutRefusals.dueAll fs created s ps).Sublist (h.dueAll fs created s ps) := by
  match ps with
  | [] => exact .refl _
  | [p] => exact (h.due_sublist fs created id).append (.refl _)
  | [p, q] =>
    exact (h.due_sublist fs created id).append
      ((h.due_sublist fs created (within_handle hworking fs created s p q)).append (.refl _))

theorem subscribeBelow_unasked (h : ChangeHandler) (fs : FileSystem) (s : WatchState) (rel : Path) :
    (h.subscribeBelow fs s rel false).2 = none := by
  rw [subscribeBelow]
  dsimp only
  have hf := h.follows_subscribeAll fs false ((h.builder.collectIn fs rel).2.foldl .log s)
    (h.builder.collectIn fs rel).1
  rw [hf.same (.inr ?_), hf.works]
  rw [jobs_subscribeAll]
  simp [queuedOf]

theorem subscribeTree_fails_iff (h : ChangeHandler) (fs : FileSystem) :
    (h.subscribeTree fs .start).2.isSome ↔ h.refuses 0 h.builder.source ∨
    fs.exists_ h.builder.source = false := by
  have hnew : WatchState.start.contains h.builder.source = false := rfl
  have hfirst : WatchState.start.attempts = 0 := rfl
  rw [subscribeTree, add, hnew, hfirst, if_neg Bool.false_ne_true]
  by_cases hrefused : (h.refuses 0 h.builder.source || !fs.exists_ h.builder.source) = true
  · rw [if_pos hrefused]
    simpa using hrefused
  · rw [if_neg hrefused]
    dsimp only
    rw [h.subscribeBelow_unasked]
    simpa using hrefused

/-- Refusals and rebuilds. With a worker that takes jobs, an event is always handled in full, and
whatever is refused, it queues what it would queue with nothing refused: just that if it names one
path; that in this order, maybe with more in between, if it names two, or if the paths that it names
go down from the source by names and are no links. A stopped worker fails an event exactly if there
is a file to be queued for it, when the paths up to the one concerned have been handled in full. And
a tree is not subscribed to at first exactly if its root is not. -/
theorem refusals_cost_nothing (h : ChangeHandler) (fs : FileSystem) (s : WatchState) (e : Event) :
    (h.workerStopped = false → (h.handleEvent fs s e).2 = none ∧
      ∃ due queued, (h.withoutRefusals.handleEvent fs s e).1.jobs = s.jobs ++ due ∧
        (h.handleEvent fs s e).1.jobs = s.jobs ++ queued ∧
        (e.paths.length ≤ 1 → queued = due) ∧
        (e.paths.length ≤ 2 ∨ fs.WellFormed ∧ h.builder.source.isAbsolute ∧
          (∀ p ∈ e.paths, (h.visible? p).isSome → h.Direct fs p) → due.Sublist queued)) ∧
    ((h.handleEvent fs s e).2.isSome ↔ h.workerStopped ∧
      (h.withWorker.handleEvent fs s e).1.jobs ≠ s.jobs) ∧
    (∀ failed error, h.handleEvent fs s e = (failed, some error) → error = .workerStopped ∧
      ∃ before p after mid, e.paths = before ++ p :: after ∧
        h.handleAll fs (e.kind = .create) s before = (mid, none) ∧
        h.withWorker.handleAll fs (e.kind = .create) s before = (mid, none) ∧ mid.jobs = s.jobs ∧
        (h.withWorker.handle fs (e.kind = .create) mid p).1.jobs ≠ s.jobs ∧
        h.handle fs (e.kind = .create) mid p = (failed, some error)) ∧
    ((h.subscribeTree fs .start).2.isSome ↔ h.refuses 0 h.builder.source ∨
      fs.exists_ h.builder.source = false) := by
  have hf := h.follows_handleAll fs (e.kind = .create) s e.paths
  refine ⟨fun hworking => ?_, ⟨fun hfails => ?_, fun hstops => ?_⟩, fun failed error hfailed => ?_,
    ?_⟩
  · obtain ⟨hresult, hqueued⟩ := handleAll_working hworking fs (e.kind = .create) s e.paths
    obtain ⟨-, hdue⟩ := handleAll_working (h := h.withoutRefusals) hworking fs (e.kind = .create) s
      e.paths
    refine ⟨hresult, _, _, hdue, hqueued, fun hone => ?_, fun hcase => ?_⟩
    · match e.paths, hone with
      | [], _ => rfl
      | [p], _ => rfl
    · cases hcase with
      | inl htwo => exact dueAll_sublist_of_length_le hworking fs _ s htwo
      | inr hdirect =>
        exact (Covers.refl h fs s).dueAll_sublist hworking hdirect.1 hdirect.2.1 _ hdirect.2.2
  · by_contra hnot
    rw [not_and_or, Bool.not_eq_true, not_not] at hnot
    rw [handleEvent, hf.same hnot, hf.works] at hfails
    cases hfails
  · rw [handleEvent, (hf.stops hstops.1 hstops.2).1]
    rfl
  · rw [handleEvent] at hfailed
    obtain ⟨before, p, after, mid, hpaths, hdone, hdone', hjobs, hdue, hat, herror⟩ :=
      h.exists_failed fs (e.kind = .create) s e.paths (by simp [hfailed])
    rw [hfailed] at hat
    rw [← hat] at herror
    exact ⟨by simpa using herror, before, p, after, mid, hpaths, hdone, hdone', hjobs, hdue,
      hat.symm⟩
  · exact h.subscribeTree_fails_iff fs

def strungSite : FileSystem where
  nodes := [(["s".toList], .directory 0), (["s".toList, "d".toList], .directory 0),
    (["s".toList, "d".toList, "l".toList], .link "/f".toList), (["f".toList], .directory 0),
    (["f".toList, "x".toList], .link "/g".toList), (["g".toList], .directory 0),
    (["g".toList, "y".toList], .file [121] 1)]
  here := ["s".toList]
  clock := 5

def strungSiteHandler : ChangeHandler :=
  ⟨.ofConfig linkedSiteConfig, fun _ dir => decide (dir = .ofString "/s/d/l"), false⟩

def strungSiteEvent : Event :=
  ⟨.modify, [.ofString "/s/d", .ofString "/s/d/l", .ofString "/s/d/l/x"]⟩

theorem strungSite_collect :
    strungSiteHandler.builder.collectIn strungSite (.ofString "d") =
      ([⟨.ofString "d/l", .directory⟩], []) ∧
      strungSiteHandler.builder.collectIn strungSite (.ofString "d/l") =
        ([⟨.ofString "d/l/x", .directory⟩], []) ∧
      strungSiteHandler.builder.collectIn strungSite (.ofString "d/l/x") =
        ([⟨.ofString "d/l/x/y", .file⟩], []) := by
  refine ⟨?_, ?_, ?_⟩
  · exact Builder.collectIn_single ["s".toList, "d".toList] "l".toList (.link "/f".toList)
      (by cbv) (by cbv) (by cbv) rfl (by cbv) (by cbv)
  · exact Builder.collectIn_single ["f".toList] "x".toList (.link "/g".toList)
      (by cbv) (by cbv) (by cbv) rfl (by cbv) (by cbv)
  · exact Builder.collectIn_single ["g".toList] "y".toList (.file [121] 1)
      (by cbv) (by cbv) (by cbv) rfl (by cbv) (by cbv)

theorem handle_listed (hworking : h.workerStopped = false) (hvisible : h.visible? p = some rel)
    (hdir : fs.isDirectory p = true) (hnew : s.contains p = false)
    (hcollect : h.builder.collectIn fs rel = (entries, [])) :
    h.handle fs false s p = h.subscribeAll fs true (h.subscribe fs
        ((s.forget p).log (Log.line "watch" ("watching new directory ".toList ++ rel.text))) p)
        entries ∧
      h.due fs false s p = Builder.files entries := by
  rw [handle, due, hvisible]
  dsimp only
  rw [if_pos hdir, if_pos hdir, hnew, if_pos (by rfl), if_pos (by rfl), subscribeNew,
    subscribeBelow, hcollect, queuedOf, hworking]
  exact ⟨rfl, rfl⟩

theorem handle_held (hvisible : h.visible? p = some rel) (hdir : fs.isDirectory p = true)
    (hheld : s.contains p = true) :
    h.handle fs false s p = (s, none) ∧ h.due fs false s p = [] := by
  rw [handle, due, hvisible]
  dsimp only
  rw [if_pos hdir, if_pos hdir, hheld, if_neg (by simp), if_neg (by simp)]
  exact ⟨rfl, rfl⟩

theorem strungSite_visible :
    (strungSiteHandler.visible? (.ofString "/s/d") = some (.ofString "d") ∧
      strungSite.isDirectory (.ofString "/s/d")) ∧
      (strungSiteHandler.visible? (.ofString "/s/d/l") = some (.ofString "d/l") ∧
        strungSite.isDirectory (.ofString "/s/d/l")) ∧
      strungSiteHandler.visible? (.ofString "/s/d/l/x") = some (.ofString "d/l/x") ∧
        strungSite.isDirectory (.ofString "/s/d/l/x") := by
  refine ⟨⟨?_, ?_⟩, ⟨?_, ?_⟩, ?_, ?_⟩ <;> cbv

/-- An event for the link that is further in. -/
theorem strungSite_queued :
    (strungSiteHandler.handleEvent strungSite .start ⟨.modify, [.ofString "/s/d/l/x"]⟩).2 = none ∧
      (strungSiteHandler.handleEvent strungSite .start ⟨.modify, [.ofString "/s/d/l/x"]⟩).1.jobs =
        [.ofString "d/l/x/y"] := by
  obtain ⟨-, -, hx⟩ := strungSite_collect
  obtain ⟨-, -, hvx, hdx⟩ := strungSite_visible
  obtain ⟨hresult, due, queued, hdue, hqueued, hsame, -⟩ :=
    (refusals_cost_nothing strungSiteHandler strungSite .start ⟨.modify, [.ofString "/s/d/l/x"]⟩).1
      rfl
  refine ⟨hresult, ?_⟩
  rw [hqueued, hsame (by decide), ← hdue, handleEvent,
    (handleAll_working (h := strungSiteHandler.withoutRefusals) rfl strungSite _ .start _).2,
    dueAll, dueAll, List.append_nil]
  rw [← visible?_withoutRefusals] at hvx
  exact (handle_listed (h := strungSiteHandler.withoutRefusals) (s := .start) rfl hvx hdx rfl hx).2

theorem strungSite_due :
    (strungSiteHandler.withoutRefusals.handleEvent strungSite .start strungSiteEvent).1.jobs =
      [.ofString "d/l/x/y"] := by
  obtain ⟨hd, -, hx⟩ := strungSite_collect
  obtain ⟨⟨hvd, hdd⟩, ⟨hvl, hdl⟩, hvx, hdx⟩ := strungSite_visible
  rw [← visible?_withoutRefusals] at hvd hvl hvx
  obtain ⟨hfirst, hnone⟩ := handle_listed (h := strungSiteHandler.withoutRefusals) (s := .start) rfl
    hvd hdd rfl hd
  have hdirs :
      (strungSiteHandler.withoutRefusals.handle strungSite false .start (.ofString "/s/d")).1.dirs =
      [.ofString "/s/d", .ofString "/s/d/l"] := by
    rw [hfirst, subscribeAll_directory]
    cbv
  rw [handleEvent,
    (handleAll_working (h := strungSiteHandler.withoutRefusals) rfl strungSite _ .start _).2]
  change [] ++ strungSiteHandler.withoutRefusals.dueAll strungSite false .start _ = _
  rw [strungSiteEvent, dueAll, hnone, dueAll]
  generalize (strungSiteHandler.withoutRefusals.handle strungSite false .start
    (.ofString "/s/d")).1 = s at hdirs ⊢
  obtain ⟨hsecond, hnone'⟩ := handle_held (h := strungSiteHandler.withoutRefusals) (s := s) hvl hdl
    (by rw [WatchState.contains, hdirs]; cbv)
  rw [hsecond, hnone', dueAll, dueAll,
    (handle_listed (h := strungSiteHandler.withoutRefusals) rfl hvx hdx
    (by rw [WatchState.contains, hdirs]; cbv) hx).2]
  rfl

theorem strungSite_refused :
    (strungSiteHandler.handleEvent strungSite .start strungSiteEvent).1.jobs = [] := by
  obtain ⟨hd, hl, -⟩ := strungSite_collect
  obtain ⟨⟨hvd, hdd⟩, ⟨hvl, hdl⟩, hvx, hdx⟩ := strungSite_visible
  obtain ⟨hfirst, hnone⟩ := handle_listed (h := strungSiteHandler) (s := .start) rfl hvd hdd rfl hd
  have hdirs : (strungSiteHandler.handle strungSite false .start (.ofString "/s/d")).1.dirs =
      [.ofString "/s/d"] := by
    rw [hfirst, subscribeAll_directory]
    cbv
  rw [handleEvent, (handleAll_working (h := strungSiteHandler) rfl strungSite _ .start _).2]
  change [] ++ strungSiteHandler.dueAll strungSite false .start _ = _
  rw [strungSiteEvent, dueAll, hnone, dueAll]
  generalize (strungSiteHandler.handle strungSite false .start (.ofString "/s/d")).1 = s at hdirs ⊢
  obtain ⟨dirs, attempts, effects⟩ := s
  obtain rfl : dirs = [.ofString "/s/d"] := hdirs
  obtain ⟨hsecond, hnone'⟩ := handle_listed (h := strungSiteHandler)
    (s := ⟨[.ofString "/s/d"], attempts, effects⟩) rfl hvl hdl
    (by cbv) hl
  have hdirs' : (strungSiteHandler.handle strungSite false ⟨[.ofString "/s/d"], attempts, effects⟩
      (.ofString "/s/d/l")).1.dirs = [.ofString "/s/d", .ofString "/s/d/l/x"] := by
    rw [hsecond, subscribeAll_directory]
    cbv
  rw [hnone', dueAll, dueAll, (handle_held (h := strungSiteHandler) hvx hdx
    (by rw [WatchState.contains, hdirs']; cbv)).2]
  rfl

/-- A refusal may cost a rebuild: what is queued with nothing refused need not be queued. -/
theorem not_always_queued_when_refused :
    ¬∀ (h : ChangeHandler) (fs : FileSystem) (s : WatchState) (e : Event), fs.WellFormed →
      h.workerStopped = false →
      ∃ due queued, (h.withoutRefusals.handleEvent fs s e).1.jobs = s.jobs ++ due ∧
        (h.handleEvent fs s e).1.jobs = s.jobs ++ queued ∧ due.Sublist queued := by
  intro hall
  obtain ⟨due, queued, hdue, hqueued, hsublist⟩ :=
    hall strungSiteHandler strungSite .start strungSiteEvent (by decide) rfl
  rw [strungSite_due, show WatchState.start.jobs = [] from rfl, List.nil_append] at hdue
  rw [strungSite_refused, show WatchState.start.jobs = [] from rfl, List.nil_append] at hqueued
  rw [← hdue, ← hqueued] at hsublist
  cases hsublist

end ChangeHandler
end StaticSite
