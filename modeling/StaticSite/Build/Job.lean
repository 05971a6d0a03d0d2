import StaticSite.Build.Basic

/-! Jobs of the build worker, which runs them one at a time. -/
namespace StaticSite

inductive BuildJob
  | full
  | file (rel : Path)
  deriving DecidableEq, Repr

namespace BuildJob

def run (b : Builder) (fs : FileSystem) : BuildJob → FileSystem × List Log.Line
  | .full =>
    let done := b.buildTree fs
    match done.result with
    | .ok _ => (done.files, done.log)
    | .error e => (done.files, done.log ++ [Log.line "error" e.message])
  | .file rel =>
    let done := b.buildFile fs rel
    match done.result with
    | .ok .skipped => (done.files, done.log)
    | .ok _ => (done.files, done.log ++ [Log.line "watch" ("rebuilt ".toList ++ rel.text)])
    | .error e => (done.files, done.log ++ [Builder.failure rel e])

/-- Runs jobs in the order in which they were queued. -/
def runAll (b : Builder) : FileSystem → List BuildJob → FileSystem × List Log.Line
  | fs, [] => (fs, [])
  | fs, job :: jobs =>
    let (fs, lines) := job.run b fs
    let (fs, more) := runAll b fs jobs
    (fs, lines ++ more)

end BuildJob
end StaticSite
