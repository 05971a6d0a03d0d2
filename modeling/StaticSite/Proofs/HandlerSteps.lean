import StaticSite.Proofs.Tracking

/-! The handler of creations in its single steps, with files and directories made between them. Of
what is made the handler is told if it is subscribed to the directory at that moment. Without
anything made in between, its steps come to what handling the path at once comes to. -/
namespace StaticSite

open FileSystem Builder

/-- Where the handler stands: between two paths; at a directory that it has found, with the
subscriptions there and below ended; at one that it has subscribed to; or at entries listed below it
that it has still to take up. -/
inductive Stage
  | idle
  | found (dir rel : Path)
  | opened (rel : Path)
  | listed (entries : List SourceEntry)
  deriving DecidableEq, Repr

/-- A handler among the files, with the creations that have been reported and that it has not come
to. -/
structure HandlerState where
  files : FileSystem
  watch : WatchState
  waiting : List Path
  stage : Stage

namespace HandlerState

variable {h : ChangeHandler} {a : HandlerState} {fs : FileSystem} {ws : WatchState} {ps : List Path}
  {p : Path} {entries : List SourceEntry}

def AtRest (a : HandlerState) : Prop := a.stage = .idle ∧ a.waiting = []

/-- A path taken up: a directory is found, and anything else is done with. -/
def meet (h : ChangeHandler) (a : HandlerState) (p : Path) : HandlerState :=
  match h.visible? p with
  | none => a
  | some rel =>
    if a.files.isDirectory p then
      { a with
        watch := (a.watch.forget p).log
          (Log.line "watch" ("watching new directory ".toList ++ rel.text))
        stage := .found p rel }
    else if a.files.isFile p then { a with watch := (h.submit a.watch rel).1 }
    else { a with watch := a.watch.forget p }

/-- The next step of a handler whose worker takes jobs. -/
def step (h : ChangeHandler) (a : HandlerState) : HandlerState :=
  match a.stage with
  | .idle =>
    match a.waiting with
    | [] => a
    | p :: ps => meet h { a with waiting := ps } p
  | .found dir rel => { a with watch := h.subscribe a.files a.watch dir, stage := .opened rel }
  | .opened rel =>
    let (entries, lines) := h.builder.collectIn a.files rel
    { a with watch := lines.foldl .log a.watch, stage := .listed entries }
  | .listed [] => { a with stage := .idle }
  | .listed (⟨rel, .directory⟩ :: rest) =>
    { a with
      watch := h.subscribe a.files a.watch (h.builder.source.join rel)
      stage := .listed rest }
  | .listed (⟨rel, .file⟩ :: rest) =>
    { a with watch := (h.submit a.watch rel).1, stage := .listed rest }

def make (a : HandlerState) (dir : Place) (name : Text) (n : Node) : HandlerState :=
  { a with
    files := a.files.put (dir ++ [name]) n
    waiting := a.waiting ++
      if Change.isReported a.watch (.ofPlace (dir ++ [name])) then [.ofPlace (dir ++ [name])]
        else [] }

/-- A step leaves the files as they are, and what has been queued stays queued. -/
theorem step_spec (h : ChangeHandler) (a : HandlerState) :
    (a.step h).files = a.files ∧ ∃ queued, (a.step h).watch.jobs = a.watch.jobs ++ queued := by
  have hsubmit (ws : WatchState) (rel : Path) :
      ∃ queued, (h.submit ws rel).1.jobs = ws.jobs ++ queued :=
    ⟨_, (h.submit_spec ws rel).2.1⟩
  have hsame {ws ws' : WatchState} (hjobs : ws'.jobs = ws.jobs) :
      ∃ queued, ws'.jobs = ws.jobs ++ queued :=
    ⟨[], by rw [hjobs, List.append_nil]⟩
  obtain ⟨fs, ws, ps, stage⟩ := a
  match stage, ps with
  | .idle, [] => exact ⟨rfl, hsame rfl⟩
  | .idle, p :: ps =>
    rw [step]
    dsimp only
    rw [meet]
    split
    next => exact ⟨rfl, hsame rfl⟩
    next rel _ =>
      split
      next => exact ⟨rfl, hsame (by rw [WatchState.jobs_log, WatchState.jobs_forget])⟩
      next =>
        split
        next => exact ⟨rfl, hsubmit ws rel⟩
        next => exact ⟨rfl, hsame (WatchState.jobs_forget _ _)⟩
  | .found dir rel, _ => exact ⟨rfl, hsame (h.jobs_subscribe fs ws dir)⟩
  | .opened rel, _ => exact ⟨rfl, hsame (WatchState.foldl_log ws _).2⟩
  | .listed [], _ => exact ⟨rfl, hsame rfl⟩
  | .listed (⟨rel, .directory⟩ :: _), _ => exact ⟨rfl, hsame (h.jobs_subscribe fs ws _)⟩
  | .listed (⟨rel, .file⟩ :: _), _ => exact ⟨rfl, hsubmit ws rel⟩

/-! ### Steps with nothing made in between -/

theorem steps_listed (ha : h.Accepts) (fs : FileSystem) (ws : WatchState) (ps : List Path)
    (entries : List SourceEntry) :
    ∃ k, (step h)^[k] ⟨fs, ws, ps, .listed entries⟩ = ⟨fs, (h.subscribeAll fs true ws entries).1,
      ps, .idle⟩ := by
  induction entries generalizing ws with
  | nil => exact ⟨1, rfl⟩
  | cons e rest ih =>
    obtain ⟨rel, kind⟩ := e
    cases kind with
    | directory =>
      obtain ⟨k, hk⟩ := ih (h.subscribe fs ws (h.builder.source.join rel))
      exact ⟨k + 1, hk⟩
    | file =>
      obtain ⟨k, hk⟩ := ih (ws.emit (.queued rel))
      refine ⟨k + 1, ?_⟩
      have hsubmit : (h.submit ws rel).1 = ws.emit (.queued rel) := by
        rw [ChangeHandler.submit, ha.working]
        rfl
      rw [Function.iterate_succ_apply, ChangeHandler.subscribeAll_file,
        if_neg (by simp [ha.working]), ← hk, ← hsubmit]
      rfl

theorem steps_opened (ha : h.Accepts) (fs : FileSystem) (ws : WatchState) (ps : List Path)
    (rel : Path) :
    ∃ k, (step h)^[k] ⟨fs, ws, ps, .opened rel⟩ = ⟨fs, (h.subscribeBelow fs ws rel true).1, ps,
      .idle⟩ := by
  obtain ⟨k, hk⟩ := steps_listed ha fs ((h.builder.collectIn fs rel).2.foldl .log ws) ps
    (h.builder.collectIn fs rel).1
  exact ⟨k + 1, hk⟩

theorem steps_found (ha : h.Accepts) (fs : FileSystem) (ws : WatchState) (ps : List Path)
    (dir rel : Path) :
    ∃ k, (step h)^[k] ⟨fs, ws, ps, .found dir rel⟩ =
      ⟨fs, (h.subscribeBelow fs (h.subscribe fs ws dir) rel true).1, ps, .idle⟩ := by
  obtain ⟨k, hk⟩ := steps_opened ha fs (h.subscribe fs ws dir) ps rel
  exact ⟨k + 1, hk⟩

theorem steps_handle (ha : h.Accepts) (fs : FileSystem) (ws : WatchState) (p : Path)
    (ps : List Path) :
    ∃ k, (step h)^[k] ⟨fs, ws, p :: ps, .idle⟩ = ⟨fs, (h.handle fs true ws p).1, ps, .idle⟩ := by
  have hstep : step h ⟨fs, ws, p :: ps, .idle⟩ = meet h ⟨fs, ws, ps, .idle⟩ p := rfl
  rw [ChangeHandler.handle]
  rw [meet] at hstep
  cases hvisible : h.visible? p with
  | none => exact ⟨1, by rw [Function.iterate_one, hstep, hvisible]⟩
  | some rel =>
    simp only [hvisible] at hstep ⊢
    by_cases hdir : fs.isDirectory p = true
    · obtain ⟨k, hk⟩ := steps_found ha fs
        ((ws.forget p).log (Log.line "watch" ("watching new directory ".toList ++ rel.text))) ps p
          rel
      refine ⟨k + 1, ?_⟩
      rw [Function.iterate_succ_apply, hstep]
      simp only [hdir, if_true, Bool.true_or]
      exact hk
    · refine ⟨1, ?_⟩
      rw [Function.iterate_one, hstep]
      simp only [hdir, Bool.false_eq_true, if_false]
      split <;> rfl

theorem exists_atRest (ha : h.Accepts) (a : HandlerState) : ∃ k, ((step h)^[k] a).AtRest := by
  have hidle (fs : FileSystem) (ps : List Path) (ws : WatchState) :
      ∃ k, ((step h)^[k] ⟨fs, ws, ps, .idle⟩).AtRest := by
    induction ps generalizing ws with
    | nil => exact ⟨0, rfl, rfl⟩
    | cons p ps ih =>
      obtain ⟨k, hk⟩ := steps_handle ha fs ws p ps
      obtain ⟨m, hm⟩ := ih (h.handle fs true ws p).1
      exact ⟨m + k, by rwa [Function.iterate_add_apply, hk]⟩
  obtain ⟨fs, ws, ps, stage⟩ := a
  obtain ⟨k, ws', hk⟩ : ∃ k ws', (step h)^[k] ⟨fs, ws, ps, stage⟩ = ⟨fs, ws', ps, .idle⟩ := by
    cases stage with
    | idle => exact ⟨0, ws, rfl⟩
    | found dir rel => exact (steps_found ha fs ws ps dir rel).imp fun k hk => ⟨_, hk⟩
    | opened rel => exact (steps_opened ha fs ws ps rel).imp fun k hk => ⟨_, hk⟩
    | listed entries => exact (steps_listed ha fs ws ps entries).imp fun k hk => ⟨_, hk⟩
  obtain ⟨m, hm⟩ := hidle fs ps ws'
  exact ⟨m + k, by rwa [Function.iterate_add_apply, hk]⟩

end HandlerState
end StaticSite
