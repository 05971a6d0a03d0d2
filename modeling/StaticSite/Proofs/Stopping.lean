import StaticSite.Proofs.Subscriptions

/-! A worker that has stopped. Handling goes as with a worker that takes jobs until the first file
is to be queued, and ends there; nothing else ends it. -/
namespace StaticSite

namespace ChangeHandler

variable {h : ChangeHandler} {fs : FileSystem} {s s' : WatchState} {created queueFiles : Bool}
  {next working : WatchState × Option WatchError}

/-- The handler with a worker that takes jobs. -/
def withWorker (h : ChangeHandler) : ChangeHandler := { h with workerStopped := false }

theorem withWorker_of_working (h : ChangeHandler) (hworking : h.workerStopped = false) :
    h.withWorker = h := by
  obtain ⟨builder, refuses, stopped⟩ := h
  obtain rfl : stopped = false := hworking
  rfl

theorem queuedOf_withWorker (h : ChangeHandler) (entries : List SourceEntry) :
    h.withWorker.queuedOf true entries = Builder.files entries := by
  simp [queuedOf, withWorker]

/-- How what is done after a state compares to what is done with a worker that takes jobs. That only
adds jobs and never fails; and it is the same unless the worker has stopped and there are jobs, and
then what is done fails without any. -/
structure Follows (h : ChangeHandler) (s : WatchState)
    (next working : WatchState × Option WatchError) : Prop where
  works : working.2 = none
  adds : ∃ queued, working.1.jobs = s.jobs ++ queued
  same : h.workerStopped = false ∨ working.1.jobs = s.jobs → next = working
  stops : h.workerStopped → working.1.jobs ≠ s.jobs → next.2 = some .workerStopped ∧
    next.1.jobs = s.jobs

theorem Follows.of_nothing (hjobs : s'.jobs = s.jobs) : Follows h s (s', none) (s', none) :=
  ⟨rfl, ⟨[], by simpa using hjobs⟩, fun _ => rfl, fun _ hne => absurd hjobs hne⟩

theorem Follows.of_jobs (hf : Follows h s' next working) (hjobs : s'.jobs = s.jobs) :
    Follows h s next working := by
  obtain ⟨hworks, hadds, hsame, hstops⟩ := hf
  rw [hjobs] at hadds hsame hstops
  exact ⟨hworks, hadds, hsame, hstops⟩

/-- The first file to be queued is where a stopped worker shows. -/
theorem Follows.of_file (rel : Path) (more : List Path) (hworks : working.2 = none)
    (hjobs : working.1.jobs = s.jobs ++ rel :: more)
    (hnext : h.workerStopped = false → next = working)
    (hstopped : h.workerStopped → next = (s, some .workerStopped)) : Follows h s next working := by
  have hne : working.1.jobs ≠ s.jobs := by simp [hjobs]
  refine ⟨hworks, ⟨_, hjobs⟩, fun hor => ?_, fun hstop _ => ?_⟩
  · exact hnext (hor.resolve_right hne)
  · rw [hstopped hstop]
    exact ⟨rfl, rfl⟩

theorem follows_submit (h : ChangeHandler) (s : WatchState) (rel : Path) :
    Follows h s (h.submit s rel) (h.withWorker.submit s rel) := by
  refine .of_file rel [] rfl (WatchState.jobs_emit_queued s rel) (fun hworking => ?_)
    fun hstopped => ?_
  · rw [h.withWorker_of_working hworking]
  · rw [submit, if_pos hstopped]

theorem follows_subscribeAll (h : ChangeHandler) (fs : FileSystem) (queueFiles : Bool)
    (s : WatchState) (entries : List SourceEntry) :
    Follows h s (h.subscribeAll fs queueFiles s entries)
    (h.withWorker.subscribeAll fs queueFiles s entries) := by
  induction entries generalizing s with
  | nil => exact .of_nothing rfl
  | cons e rest ih =>
    obtain ⟨rel, kind⟩ := e
    cases kind with
    | directory =>
      rw [subscribeAll_directory, subscribeAll_directory]
      exact (ih _).of_jobs (h.jobs_subscribe fs s _)
    | file =>
      cases queueFiles with
      | false => exact ih s
      | true =>
        have hworker : h.withWorker.subscribeAll fs true s (⟨rel, .file⟩ :: rest) =
            h.withWorker.subscribeAll fs true (s.emit (.queued rel)) rest := rfl
        have hjobs : (h.withWorker.subscribeAll fs true s (⟨rel, .file⟩ :: rest)).1.jobs =
            s.jobs ++ rel :: Builder.files rest := by
          rw [jobs_subscribeAll, queuedOf_withWorker]
          rfl
        refine .of_file rel _ ?_ hjobs (fun hworking => by rw [h.withWorker_of_working hworking])
          fun hstopped => ?_
        · rw [hworker]
          exact (ih _).works
        · rw [subscribeAll_file, if_pos hstopped]

theorem follows_subscribeNew (h : ChangeHandler) (fs : FileSystem) (s : WatchState)
    (dir rel : Path) :
    Follows h s (h.subscribeNew fs s dir rel) (h.withWorker.subscribeNew fs s dir rel) := by
  refine (h.follows_subscribeAll fs true _ (h.builder.collectIn fs rel).1).of_jobs ?_
  rw [(WatchState.foldl_log _ _).2, jobs_subscribe, WatchState.jobs_log, WatchState.jobs_forget]

theorem follows_handle (h : ChangeHandler) (fs : FileSystem) (created : Bool) (s : WatchState)
    (p : Path) :
    Follows h s (h.handle fs created s p) (h.withWorker.handle fs created s p) := by
  have hvisible : h.withWorker.visible? p = h.visible? p := rfl
  rw [handle, handle, hvisible]
  split
  · exact .of_nothing rfl
  · split
    · split
      · exact h.follows_subscribeNew fs s p _
      · exact .of_nothing rfl
    · split
      · exact h.follows_submit s _
      · exact .of_nothing (WatchState.jobs_forget s p)

theorem handleAll_cons (h : ChangeHandler) (fs : FileSystem) (created : Bool) {s : WatchState}
    {p : Path} (hone : h.handle fs created s p = (s', none)) (ps : List Path) :
    h.handleAll fs created s (p :: ps) = h.handleAll fs created s' ps := by
  rw [handleAll, hone]

theorem handleAll_cons_error {e : WatchError} (h : ChangeHandler) (fs : FileSystem) (created : Bool)
    {s : WatchState} {p : Path} (hone : h.handle fs created s p = (s', some e)) (ps : List Path) :
    h.handleAll fs created s (p :: ps) = (s', some e) := by
  rw [handleAll, hone]

theorem follows_handleAll (h : ChangeHandler) (fs : FileSystem) (created : Bool) (s : WatchState)
    (ps : List Path) :
    Follows h s (h.handleAll fs created s ps) (h.withWorker.handleAll fs created s ps) := by
  induction ps generalizing s with
  | nil => exact .of_nothing rfl
  | cons p ps ih =>
    have hone := h.follows_handle fs created s p
    obtain ⟨mid, hmid⟩ : ∃ mid, h.withWorker.handle fs created s p = (mid, none) :=
      ⟨_, Prod.ext rfl hone.works⟩
    obtain ⟨queued, hqueued⟩ := hone.adds
    obtain ⟨more, hmore⟩ := (ih mid).adds
    rw [hmid] at hqueued hone
    rw [h.withWorker.handleAll_cons fs created hmid]
    by_cases hnone : queued = []
    · -- nothing is queued for the path, so it is handled alike
      rw [hnone, List.append_nil] at hqueued
      rw [h.handleAll_cons fs created (hone.same (.inr hqueued))]
      exact (ih mid).of_jobs hqueued
    · have hjobs : (h.withWorker.handleAll fs created mid ps).1.jobs = s.jobs ++
          (queued ++ more) := by
        rw [hmore, hqueued, List.append_assoc]
      refine ⟨(ih mid).works, ⟨_, hjobs⟩, fun hor => ?_, fun hstopped _ => ?_⟩
      · have hworking : h.workerStopped = false := hor.resolve_right fun heq => by
          simp [hjobs, hnone] at heq
        rw [h.handleAll_cons fs created (hone.same (.inl hworking))]
        exact (ih mid).same (.inl hworking)
      · obtain ⟨hfails, hkept⟩ := hone.stops hstopped (by simp [hqueued, hnone])
        rw [h.handleAll_cons_error fs created (Prod.ext rfl hfails)]
        exact ⟨rfl, hkept⟩

/-- An event that fails has been handled in full up to one of its paths, with nothing to be queued
until there, and failed at this path, for which there is something to be queued. -/
theorem exists_failed (h : ChangeHandler) (fs : FileSystem) (created : Bool) (s : WatchState)
    (ps : List Path) (hfails : (h.handleAll fs created s ps).2.isSome) :
    ∃ before p after mid, ps = before ++ p :: after ∧
      h.handleAll fs created s before = (mid, none) ∧
      h.withWorker.handleAll fs created s before = (mid, none) ∧ mid.jobs = s.jobs ∧
      (h.withWorker.handle fs created mid p).1.jobs ≠ s.jobs ∧
      h.handleAll fs created s ps = h.handle fs created mid p ∧
      (h.handle fs created mid p).2 = some .workerStopped := by
  induction ps generalizing s with
  | nil => simp [handleAll] at hfails
  | cons p ps ih =>
    have hone := h.follows_handle fs created s p
    by_cases hsame : h.workerStopped = false ∨ (h.withWorker.handle fs created s p).1.jobs = s.jobs
    · obtain ⟨mid, hmid⟩ : ∃ mid, h.withWorker.handle fs created s p = (mid, none) :=
        ⟨_, Prod.ext rfl hone.works⟩
      have hmid' := (hone.same hsame).trans hmid
      rw [h.handleAll_cons fs created hmid'] at hfails ⊢
      obtain ⟨before, q, after, last, rfl, hdone, hdone', hjobs, hdue, hat, herror⟩ := ih mid hfails
      -- a worker that takes jobs never fails, so it has stopped
      have hstopped : ¬h.workerStopped = false := by
        intro hworking
        have hworks := (h.follows_handle fs created last q).works
        rw [h.withWorker_of_working hworking, herror] at hworks
        cases hworks
      have hkept : mid.jobs = s.jobs := by
        have := hsame.resolve_left hstopped
        rwa [hmid] at this
      refine ⟨p :: before, q, after, last, rfl, ?_, ?_, hjobs.trans hkept, by rwa [← hkept], hat,
        herror⟩
      · rw [h.handleAll_cons fs created hmid', hdone]
      · rw [h.withWorker.handleAll_cons fs created hmid, hdone']
    · rw [not_or, Bool.not_eq_false] at hsame
      obtain ⟨herror, -⟩ := hone.stops hsame.1 hsame.2
      refine ⟨[], p, ps, s, rfl, rfl, rfl, rfl, hsame.2, ?_, herror⟩
      exact h.handleAll_cons_error fs created (Prod.ext rfl herror) ps
        |>.trans (Prod.ext rfl herror.symm)

end ChangeHandler
end StaticSite
