import StaticSite.Log

/-! What a pass over the tree did, counted. -/
namespace StaticSite

inductive Outcome
  | transformed
  | copied
  | skipped
  deriving DecidableEq, Repr

@[ext]
structure BuildReport where
  transformed : Nat := 0
  copied : Nat := 0
  skipped : Nat := 0
  failed : Nat := 0
  deriving DecidableEq, Repr

namespace BuildReport

/-- Counts one file; without an outcome it failed. -/
def record (r : BuildReport) : Option Outcome → BuildReport
  | some .transformed => { r with transformed := r.transformed + 1 }
  | some .copied => { r with copied := r.copied + 1 }
  | some .skipped => { r with skipped := r.skipped + 1 }
  | none => { r with failed := r.failed + 1 }

instance : Add BuildReport where
  add a b := ⟨a.transformed + b.transformed, a.copied + b.copied, a.skipped + b.skipped,
    a.failed + b.failed⟩

def ofOutcomes (outcomes : List (Option Outcome)) : BuildReport := outcomes.foldl record {}

def summary (r : BuildReport) : Log.Line :=
  if r.failed = 0 then
    Log.line "build" ("done: ".toList ++ Text.ofNat r.transformed ++ " built, ".toList ++
      Text.ofNat r.copied ++
      " copied, ".toList ++ Text.ofNat r.skipped ++ " up to date".toList)
  else Log.line "error" (Text.ofNat r.failed ++ " file(s) failed".toList)

end BuildReport
end StaticSite
