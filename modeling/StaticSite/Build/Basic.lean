import StaticSite.Build.Entry
import StaticSite.Build.Error
import StaticSite.Build.Report
import StaticSite.Build.Transform

/-! Building a source tree into a destination tree. A file is built if its output is not there or is
older than the file; files are built apart from each other, and one that fails is only counted. -/
namespace StaticSite

structure Run (α : Type) where
  files : FileSystem
  log : List Log.Line
  result : α

inductive Decision
  | skip
  | copy
  | render (conversion : Option Conversion)
  deriving DecidableEq, Repr

inductive Action
  | skip
  | copy
  | copyVerbatim
  | write (page : Rendered)
  deriving DecidableEq, Repr

structure Builder where
  source : Path
  destination : Path
  policy : ExclusionPolicy
  transforms : TransformTable
  pages : PageRules
  deriving DecidableEq, Repr

namespace Builder

def ofConfig (c : Config) : Builder where
  source := c.source
  destination := c.destination
  policy := .ofConfig c
  transforms := ⟨c.templates⟩
  pages := ⟨c.includes, c.layouts, c.requireFrontMatter⟩

/-- The entries below `rel`, as far as the system does not refuse to tell them. -/
def collectRefused (b : Builder) (fs : FileSystem) (rel : Path)
    (refused : FileSystem.Refusals) : List SourceEntry × List Log.Line :=
  SourceEntry.collect fs b.policy b.source rel refused

def collectIn (b : Builder) (fs : FileSystem) (rel : Path) : List SourceEntry × List Log.Line :=
  b.collectRefused fs rel .none

def collect (b : Builder) (fs : FileSystem) : List SourceEntry × List Log.Line :=
  b.collectIn fs ⟨[]⟩

def files (entries : List SourceEntry) : List Path := (entries.filter (·.kind = .file)).map (·.path)

/-- Where the output of a file goes; a converted document takes the extension of its new form. -/
def destinationFor (b : Builder) (rel : Path) : Path :=
  match b.transforms.transformFor rel with
  | .render (some conversion) => (b.destination.join rel).withExtension conversion.outputExtension
  | _ => b.destination.join rel

def isUpToDate (fs : FileSystem) (input output : Path) : Except BuildError Bool :=
  match fs.modified input with
  | .error e => .error (.stat input e)
  | .ok time => .ok ((fs.modified output).toOption.any fun made => time ≤ made)

def decide (b : Builder) (fs : FileSystem) (rel : Path) : Except BuildError Decision :=
  (isUpToDate fs (b.source.join rel) (b.destinationFor rel)).map fun fresh =>
    if fresh then .skip
    else match b.transforms.transformFor rel with
      | .copy => .copy
      | .render conversion => .render conversion

def renderFile (b : Builder) (fs : FileSystem) (rel : Path) (conversion : Option Conversion) :
    Except BuildError Action :=
  let input := b.source.join rel
  match fs.read input with
  | .error e => .error (.read input e)
  | .ok content =>
    if b.pages.copiesVerbatim content then .ok .copyVerbatim
    else match Text.Utf8.decode content with
      | .error flaw => .error (.notText input flaw)
      | .ok text =>
        match b.pages.build fs rel text conversion with
        | .error e => .error (.render e)
        | .ok .verbatim => .ok .copyVerbatim
        | .ok (.rendered page) => .ok (.write page)

def plan (b : Builder) (fs : FileSystem) (rel : Path) : Except BuildError Action :=
  if b.policy.excludesPath rel then .ok .skip
  else match b.decide fs rel with
    | .error e => .error e
    | .ok .skip => .ok .skip
    | .ok .copy => .ok .copy
    | .ok (.render conversion) => b.renderFile fs rel conversion

def ensureParent (fs : FileSystem) (p : Path) : FileSystem × Option BuildError :=
  match p.parent? with
  | none => (fs, none)
  | some parent =>
    match fs.makeAll parent with
    | (fs, none) => (fs, none)
    | (fs, some e) => (fs, some (.createDirectory parent e))

def copyFile (b : Builder) (fs : FileSystem) (rel : Path) (fault : Option FileSystem.Fault) :
    FileSystem × Except BuildError Outcome :=
  let input := b.source.join rel
  let output := b.destinationFor rel
  match ensureParent fs output with
  | (fs, some e) => (fs, .error e)
  | (fs, none) =>
    match fs.copy input output fault with
    | (fs, some e) => (fs, .error (.copy input output e))
    | (fs, none) => (fs, .ok .copied)

def writePage (b : Builder) (fs : FileSystem) (rel : Path) (page : Rendered)
    (fault : Option FileSystem.Fault) :
    FileSystem × Except BuildError Outcome :=
  let output := b.destinationFor rel
  match ensureParent fs output with
  | (fs, some e) => (fs, .error e)
  | (fs, none) =>
    match fs.write output (Text.Utf8.encode page.text) fault with
    | (fs, some e) => (fs, .error (.write output e))
    | (fs, none) => (fs, .ok .transformed)

def perform (b : Builder) (fs : FileSystem) (rel : Path) (fault : Option FileSystem.Fault) :
    Action → FileSystem × Except BuildError Outcome
  | .skip => (fs, .ok .skipped)
  | .copy => b.copyFile fs rel fault
  | .copyVerbatim => b.copyFile fs rel fault
  | .write page => b.writePage fs rel page fault

def notice (rel : Path) : Action → List Log.Line
  | .skip => []
  | .copy => [Log.line "build" ("copying ".toList ++ rel.text)]
  | .copyVerbatim =>
    [Log.line "build" ("copying ".toList ++ rel.text ++ " verbatim, no front matter".toList)]
  | .write page =>
    page.advisories.map (fun a => Log.line "warn" a.message) ++
      [Log.line "build" ("building ".toList ++ rel.text)]

/-- Builds one file, given relative to the source; the write may be stopped by a fault. -/
def buildFileFaulty (b : Builder) (fs : FileSystem) (rel : Path) (fault : Option FileSystem.Fault) :
    Run (Except BuildError Outcome) :=
  match b.plan fs rel with
  | .error e => ⟨fs, [], .error e⟩
  | .ok action =>
    let (after, result) := b.perform fs rel fault action
    ⟨after, notice rel action, result⟩

def buildFile (b : Builder) (fs : FileSystem) (rel : Path) : Run (Except BuildError Outcome) :=
  b.buildFileFaulty fs rel none

def failure (rel : Path) (e : BuildError) : Log.Line :=
  Log.line "error" (rel.text ++ ": ".toList ++ e.message)

def buildFiles (b : Builder) (fs : FileSystem) : List Path → Run (List (Option Outcome))
  | [] => ⟨fs, [], []⟩
  | rel :: rels =>
    let one := b.buildFile fs rel
    let (lines, outcome) : List Log.Line × Option Outcome :=
      match one.result with
      | .ok outcome => (one.log, some outcome)
      | .error e => (one.log ++ [failure rel e], none)
    let rest := b.buildFiles one.files rels
    ⟨rest.files, lines ++ rest.log, outcome :: rest.result⟩

def buildTree (b : Builder) (fs : FileSystem) : Run (Except BuildError BuildReport) :=
  match fs.makeAll b.destination with
  | (fs, some e) => ⟨fs, [], .error (.createDestination b.destination e)⟩
  | (fs, none) =>
    let (entries, lines) := b.collect fs
    let run := b.buildFiles fs (files entries)
    let report := BuildReport.ofOutcomes run.result
    ⟨run.files, lines ++ run.log ++ [report.summary], .ok report⟩

/-- Removes a destination, if it is there; the removal may be stopped by a halt. -/
def cleanHalted (fs : FileSystem) (destination : Path) (halt : Option FileSystem.Halt) :
    Run (Except BuildError Unit) :=
  if fs.exists_ destination then
    match fs.removeAll destination halt with
    | (fs, some e) => ⟨fs, [], .error (.clear destination e)⟩
    | (fs, none) => ⟨fs, [Log.line "clean" ("removed ".toList ++ destination.text)], .ok ()⟩
  else ⟨fs, [], .ok ()⟩

def clean (fs : FileSystem) (destination : Path) : Run (Except BuildError Unit) :=
  cleanHalted fs destination none

end Builder
end StaticSite
