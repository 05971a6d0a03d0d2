import StaticSite.Proofs.Completeness
import StaticSite.Proofs.Isolation

/-! The build of one file in the steps in which it meets the files: the times are compared, the
source is read, and the output is written. A page without front matter is read twice, for it is
copied when it is known to have none. Other changes may fall between two steps; a job that none
falls into is the build of the file. -/
namespace StaticSite

open FileSystem

inductive Phase
  | idle
  | decided (decision : Decision)
  | holding (content : Bytes)
  deriving DecidableEq, Repr

def Phase.left : Phase → Nat
  | .idle => 0
  | .holding _ => 1
  | .decided .skip => 1
  | .decided .copy => 2
  | .decided (.render _) => 3

/-- The worker over the files, with the jobs for one file that wait for it. -/
structure Worker where
  files : FileSystem
  waiting : Nat
  phase : Phase

inductive Move
  | edit (content : Bytes)
  | work
  deriving DecidableEq, Repr

namespace Builder

def written (content : Bytes) : Action → Bytes
  | .write page => Text.Utf8.encode page.text
  | _ => content

def store (fs : FileSystem) (output : Path) (content : Bytes) : FileSystem :=
  match ensureParent fs output with
  | (fs, some _) => fs
  | (fs, none) => (fs.write output content none).1

def begin (b : Builder) (fs : FileSystem) (rel : Path) : Phase :=
  if b.policy.excludesPath rel then .idle
  else match b.decide fs rel with
    | .error _ => .idle
    | .ok .skip => .idle
    | .ok decision => .decided decision

def fetch (b : Builder) (fs : FileSystem) (rel : Path) : Decision → Phase
  | .skip => .idle
  | .copy =>
    match fs.read (b.source.join rel) with
    | .error _ => .idle
    | .ok content => .holding content
  | .render conversion =>
    match b.renderFile fs rel conversion with
    | .error _ => .idle
    | .ok .skip => .idle
    | .ok (.write page) => .holding (Text.Utf8.encode page.text)
    | .ok _ => .decided .copy

theorem left_begin (b : Builder) (fs : FileSystem) (rel : Path) : (b.begin fs rel).left ≤ 3 := by
  rw [begin]
  split
  · exact Nat.zero_le 3
  · split
    · exact Nat.zero_le 3
    · exact Nat.zero_le 3
    next decision _ _ => cases decision <;> simp [Phase.left]

theorem left_fetch (b : Builder) (fs : FileSystem) (rel : Path) (decision : Decision) :
    (b.fetch fs rel decision).left < (Phase.decided decision).left := by
  cases decision with
  | skip => exact Nat.zero_lt_one
  | copy =>
    rw [fetch]
    split <;> simp [Phase.left]
  | render conversion =>
    rw [fetch]
    split <;> simp [Phase.left]

end Builder

namespace Worker

def start (fs : FileSystem) : Worker := ⟨fs, 0, .idle⟩

/-- That no job is waiting and none is at work. -/
def AtRest (w : Worker) : Prop := w.waiting = 0 ∧ w.phase = .idle

def edit (b : Builder) (rel : Path) (content : Bytes) (w : Worker) : Worker :=
  ⟨(w.files.write (b.source.join rel) content none).1, w.waiting + 1, w.phase⟩

def work (b : Builder) (rel : Path) (w : Worker) : Worker :=
  match w.phase, w.waiting with
  | .idle, 0 => w
  | .idle, n + 1 => ⟨w.files, n, b.begin w.files rel⟩
  | .decided decision, n => ⟨w.files, n, b.fetch w.files rel decision⟩
  | .holding content, n => ⟨Builder.store w.files (b.destinationFor rel) content, n, .idle⟩

def move (b : Builder) (rel : Path) (w : Worker) : Move → Worker
  | .edit content => w.edit b rel content
  | .work => w.work b rel

def run (b : Builder) (rel : Path) (w : Worker) (moves : List Move) : Worker :=
  moves.foldl (move b rel) w

theorem run_work_succ (b : Builder) (rel : Path) (w : Worker) (k : Nat) :
    w.run b rel (List.replicate (k + 1) .work) =
      (w.work b rel).run b rel (List.replicate k .work) := by
  rw [List.replicate_succ]
  rfl

variable {b : Builder} {rel : Path} {w : Worker}

/-- How many steps the worker takes at most before it is at rest: a job takes four, if its page is
read twice. -/
def left (w : Worker) : Nat := 4 * w.waiting + w.phase.left

/-- Each step brings the worker nearer to its rest. -/
theorem left_work (h : ¬w.AtRest) : (w.work b rel).left < w.left := by
  obtain ⟨files, waiting, phase⟩ := w
  cases phase with
  | idle =>
    cases waiting with
    | zero => exact absurd ⟨rfl, rfl⟩ h
    | succ n =>
      have := b.left_begin files rel
      show 4 * n + (b.begin files rel).left < 4 * (n + 1) + 0
      omega
  | decided decision =>
    have := b.left_fetch files rel decision
    show 4 * waiting + (b.fetch files rel decision).left < 4 * waiting +
      (Phase.decided decision).left
    omega
  | holding content => exact Nat.lt_succ_self _

theorem exists_atRest (b : Builder) (rel : Path) (w : Worker) :
    ∃ k, (w.run b rel (List.replicate k .work)).AtRest := by
  induction hleft : w.left using Nat.strong_induction_on generalizing w with
  | _ n ih =>
    by_cases hrest : w.AtRest
    · exact ⟨0, hrest⟩
    · obtain ⟨k, hk⟩ := ih _ (hleft ▸ left_work hrest) _ rfl
      exact ⟨k + 1, by rwa [run_work_succ]⟩

end Worker

namespace Builder

variable {b : Builder} {fs mid : FileSystem} {rel output : Path} {p q : Place} {content : Bytes}
  {t : Nat} {action : Action} {outcome : Outcome}

theorem store_of_refused {e : BuildError} (h : ensureParent fs output = (mid, some e))
    (content : Bytes) :
    store fs output content = mid := by
  rw [store, h]

theorem store_of_made (h : ensureParent fs output = (mid, none)) (content : Bytes) :
    store fs output content = (mid.write output content none).1 := by
  rw [store, h]

theorem store_of_target (h : ensureParent fs output = (mid, none)) (ht : mid.target output = .ok q)
    (content : Bytes) :
    store fs output content = (mid.put q (.file content mid.clock)).tick := by
  rw [store_of_made h, write_eq_deposit, deposit, ht]

theorem deliver_files {bytes : Place → Bytes} {wrap : IoError → BuildError} {done : Outcome}
    (hsame : ∀ q, (ensureParent fs output).1.target output = .ok q → bytes q = content) :
    (deliver fs output bytes wrap done).1 = store fs output content := by
  rw [deliver]
  cases hmade : ensureParent fs output with
  | mk mid e =>
    cases e with
    | some e => rw [store_of_refused hmade]
    | none =>
      rw [hmade] at hsame
      rw [store_of_made hmade]
      cases ht : mid.target output with
      | error e => simp [write_eq_deposit, deposit, ht]
      | ok q => simp [write_eq_deposit, deposit, ht, hsame q ht]

theorem deliver_eq_ok {bytes : Place → Bytes} {wrap : IoError → BuildError} {done : Outcome}
    (h : (deliver fs output bytes wrap done).2 = .ok outcome) :
    outcome = done ∧ ∃ mid q, ensureParent fs output = (mid, none) ∧ mid.target output = .ok q := by
  rw [deliver] at h
  cases hmade : ensureParent fs output with
  | mk mid e =>
    rw [hmade] at h
    cases e with
    | some e => cases h
    | none =>
      cases ht : mid.target output with
      | error e => simp [deposit, ht] at h
      | ok q =>
        simp only [deposit, ht, Except.ok.injEq] at h
        exact ⟨h.symm, mid, q, rfl, ht⟩

theorem stat_ensureParent_of_file (hwf : fs.WellFormed) (hsource : (b.source.join rel).isAbsolute)
    (hout : output.isAbsolute) (hstat : fs.stat (b.source.join rel) = .ok (p, .file content t)) :
    (ensureParent fs output).1.stat (b.source.join rel) = .ok (p, .file content t) := by
  have hgrows := ensureParent_grows hwf hout
  obtain ⟨n, hn, -⟩ := hgrows.keeps.stat hwf hsource hstat
  have hat := hgrows.at?_of_some (hwf.at?_of_stat hsource hstat).1
  rw [(hgrows.wellFormed.at?_of_stat hsource hn).1, Option.some.injEq] at hat
  rw [hn, hat]

theorem perform_eq_store (hwf : fs.WellFormed) (hsource : (b.source.join rel).isAbsolute)
    (hout : (b.destinationFor rel).isAbsolute)
    (hstat : fs.stat (b.source.join rel) = .ok (p, .file content t))
    (hapart : (ensureParent fs (b.destinationFor rel)).1.target (b.destinationFor rel) ≠ .ok p)
    (hne : action ≠ .skip) :
    (b.perform fs rel none action).1 = store fs (b.destinationFor rel)
    (written content action) := by
  rw [perform_eq_deliver hne (stat_ensureParent_of_file hwf hsource hout hstat)]
  refine deliver_files fun q hq => ?_
  have hqp : q ≠ p := fun heq => hapart (heq ▸ hq)
  cases action with
  | write page => rfl
  | skip | copy | copyVerbatim => simp [Action.bytes, written, hqp]

theorem read_of_stat (hstat : fs.stat output = .ok (p, .file content t)) :
    fs.read output = .ok content := by
  rw [FileSystem.read, hstat]

theorem files_of_plan (h : b.plan fs rel = .ok action) :
    (b.buildFile fs rel).files = (b.perform fs rel none action).1 := by
  rw [buildFile, buildFileFaulty, h]

theorem files_of_plan_error {e : BuildError} (h : b.plan fs rel = .error e) :
    (b.buildFile fs rel).files = fs := by
  rw [buildFile, buildFileFaulty, h]

/-- A job that no other change falls into is the build of the file. -/
theorem run_job (hwf : fs.WellFormed) (hsource : (b.source.join rel).isAbsolute)
    (hout : (b.destinationFor rel).isAbsolute)
    (hstat : fs.stat (b.source.join rel) = .ok (p, .file content t))
    (hapart : (ensureParent fs (b.destinationFor rel)).1.target (b.destinationFor rel) ≠ .ok p)
    (n : Nat) :
    ∃ k, 0 < k ∧ k ≤ 4 ∧ Worker.run b rel ⟨fs, n + 1, .idle⟩ (List.replicate k .work) =
      ⟨(b.buildFile fs rel).files, n, .idle⟩ := by
  have hread := read_of_stat hstat
  have hstored {action : Action} (hplan : b.plan fs rel = .ok action) (hne : action ≠ .skip) :
      (b.buildFile fs rel).files = store fs (b.destinationFor rel) (written content action) := by
    rw [files_of_plan hplan, perform_eq_store hwf hsource hout hstat hapart hne]
  -- The branches are those of `plan`; each takes as many steps as it reads and writes.
  cases hshown : b.policy.excludesPath rel with
  | true =>
    have hplan : b.plan fs rel = .ok .skip := by rw [plan, if_pos hshown]
    refine ⟨1, by omega, by omega, ?_⟩
    rw [files_of_plan hplan]
    simp [Worker.run, Worker.move, Worker.work, begin, hshown, perform]
  | false =>
    cases hdecide : b.decide fs rel with
    | error e =>
      have hplan : b.plan fs rel = .error e := by simp [plan, hshown, hdecide]
      refine ⟨1, by omega, by omega, ?_⟩
      rw [files_of_plan_error hplan]
      simp [Worker.run, Worker.move, Worker.work, begin, hshown, hdecide]
    | ok decision =>
      cases decision with
      | skip =>
        have hplan : b.plan fs rel = .ok .skip := by simp [plan, hshown, hdecide]
        refine ⟨1, by omega, by omega, ?_⟩
        rw [files_of_plan hplan]
        simp [Worker.run, Worker.move, Worker.work, begin, hshown, hdecide, perform]
      | copy =>
        have hplan : b.plan fs rel = .ok .copy := by simp [plan, hshown, hdecide]
        refine ⟨3, by omega, by omega, ?_⟩
        rw [hstored hplan (by simp)]
        simp [Worker.run, List.replicate_succ, Worker.move, Worker.work, begin, hshown, hdecide,
          fetch, hread, written]
      | render conversion =>
        cases hrender : b.renderFile fs rel conversion with
        | error e =>
          have hplan : b.plan fs rel = .error e := by simp [plan, hshown, hdecide, hrender]
          refine ⟨2, by omega, by omega, ?_⟩
          rw [files_of_plan_error hplan]
          simp [Worker.run, List.replicate_succ, Worker.move, Worker.work, begin, hshown, hdecide,
            fetch, hrender]
        | ok action =>
          have hplan : b.plan fs rel = .ok action := by simp [plan, hshown, hdecide, hrender]
          cases action with
          | skip => exact absurd hrender (renderFile_ne_skip conversion)
          | copy | copyVerbatim =>
            refine ⟨4, by omega, by omega, ?_⟩
            rw [hstored hplan (by simp)]
            simp [Worker.run, List.replicate_succ, Worker.move, Worker.work, begin, hshown, hdecide,
              fetch, hrender, hread, written]
          | write page =>
            refine ⟨3, by omega, by omega, ?_⟩
            rw [hstored hplan (by simp)]
            simp [Worker.run, List.replicate_succ, Worker.move, Worker.work, begin, hshown, hdecide,
              fetch, hrender, written]

end Builder
end StaticSite
