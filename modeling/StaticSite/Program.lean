import StaticSite.Preview.Bind
import StaticSite.Preview.Resolve
import StaticSite.Watch.Basic

/-! The program: from arguments and files to an exit code, lines of the log, and a last word on the
error channel. -/
namespace StaticSite

inductive ProgramError
  | config (e : ConfigError)
  | build (e : BuildError)
  | filesFailed (count : Nat)
  | serve (e : Preview.ServeError)
  deriving Repr

namespace ProgramError

def chain : ProgramError → List Text
  | .config e => e.chain
  | .build e => e.chain
  | .filesFailed n => [Text.ofNat n ++ " file(s) failed to build".toList]
  | .serve e => e.chain

def causes : List Text → Text
  | [] => []
  | [cause] => "\nCaused by:\n    ".toList ++ cause ++ ['\n']
  | all =>
    "\nCaused by:\n".toList ++
      (all.zipIdx.flatMap fun (cause, i) =>
        "    ".toList ++ Text.ofNat i ++ ": ".toList ++ cause ++ ['\n'])

def report (e : ProgramError) : Text :=
  match e.chain with
  | [] => []
  | first :: rest => "Error: ".toList ++ first ++ '\n' :: causes rest

end ProgramError

inductive Exit
  | success
  | version (text : Text)
  | usage (e : UsageError)
  | failure (e : ProgramError)
  deriving Repr

def Exit.code : Exit → Nat
  | .success => 0
  | .version _ => 0
  | .usage e => if e.isRequest then 0 else 2
  | .failure _ => 1

namespace Program

def versionText : Text := "plume 0.3.0".toList

def build (fs : FileSystem) (c : Config) (clean : Bool) : Run Exit :=
  let cleared : Run (Except BuildError Unit) :=
    if clean then Builder.clean fs c.destination else ⟨fs, [], .ok ()⟩
  match cleared.result with
  | .error e => ⟨cleared.files, cleared.log, .failure (.build e)⟩
  | .ok () =>
    let run := (Builder.ofConfig c).buildTree cleared.files
    let exit := match run.result with
      | .error e => Exit.failure (.build e)
      | .ok report => if 0 < report.failed then .failure (.filesFailed report.failed) else .success
    ⟨run.files, cleared.log ++ run.log, exit⟩

def clean (fs : FileSystem) (c : Config) : Run Exit :=
  let run := Builder.clean fs c.destination
  ⟨run.files, run.log, match run.result with
    | .ok () => .success
    | .error e => .failure (.build e)⟩

/-- The start of the preview: the first build, and then the place where it listens. If it cannot
listen, the build is not waited for. -/
def serve (refusal : Nat → Option IoError) (fs : FileSystem) (c : Config) : Run Exit :=
  match Preview.listen refusal c.serve.interface c.serve.port with
  | .error e => ⟨fs, [], .failure (.serve e)⟩
  | .ok lines =>
    let (fs, log) := BuildJob.full.run (Builder.ofConfig c) fs
    ⟨fs, log ++ lines, .success⟩

def shutdownLine : Log.Line := Log.line "serve" "shutting down...".toList

def command (refusal : Nat → Option IoError) (fs : FileSystem) (c : Config) : Command → Run Exit
  | .build clean => build fs c clean
  | .clean => clean fs c
  | .serve .. => serve refusal fs c

/-- Runs the program. `refusal` tells why the system does not give a port away. -/
def run (refusal : Nat → Option IoError) (fs : FileSystem) (args : List Text) : Run Exit :=
  match CommandLine.ofArgs args with
  | .error .displayVersion => ⟨fs, [], .version versionText⟩
  | .error e => ⟨fs, [], .usage e⟩
  | .ok cli =>
    match Config.load fs cli with
    | .error e => ⟨fs, [], .failure (.config e)⟩
    | .ok c => command refusal fs c cli.command

end Program
end StaticSite
