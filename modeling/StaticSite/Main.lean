import StaticSite.FileSystem.Difference
import StaticSite.Preview.Resolve
import StaticSite.Program

/-! The command line. The part of the disk that a command can see is read into a file system, the
program is run on that, and what it has changed is then done to the disk. -/
namespace StaticSite.Disk

def text (p : Path) : String := String.ofList p.text

def location (p : Place) :=
  (IO.FS.DirEntry.mk "" (String.intercalate "/" (p.map String.ofList))).path

def placeOf (s : String) : Place := Path.steps ⟨s.toList⟩

def nanoseconds (t : IO.FS.SystemTime) : Nat := t.sec.toNat * 1000000000 + t.nsec.toNat

/-- Where a link leads in the end; one that leads nowhere has an empty target. -/
def linkTarget (p : Place) : IO Text := do
  try return (← IO.FS.realPath (location p)).toString.toList
  catch _ => return []

/-- What stands at a place, a link being itself. What cannot be read is not there. -/
def node? (p : Place) : IO (Option Node) := do
  try
    let data ← (location p).symlinkMetadata
    match data.type with
    | .dir => return some (.directory (nanoseconds data.modified))
    | .file =>
      let content ← IO.FS.readBinFile (location p)
      return some (.file content.toList (nanoseconds data.modified))
    | .symlink => return some (.link (← linkTarget p))
    | .other => return none
  catch _ => return none

/-- What has been read so far, and the places below which nothing is left to read. -/
structure Survey where
  files : FileSystem
  complete : List Place

namespace Survey

def record (s : Survey) (p : Place) (n : Node) : Survey :=
  if (s.files.at? p).isSome then s
  else
    { s with
      files := { s.files with
        nodes := (p, n) :: s.files.nodes
        clock := max s.files.clock (n.time + 1) } }

def follow (s : Survey) (p : Place) : List Text → IO (Survey × Place)
  | [] => return (s, p)
  | name :: rest =>
    if name = ['.'] then follow s p rest
    else if name = ['.', '.'] then follow s p.dropLast rest
    else do
      match ← node? (p ++ [name]) with
      | none => return (s, p ++ name :: rest)
      | some (.link []) => return (s.record (p ++ [name]) (.link []), p ++ name :: rest)
      | some (.link target) =>
        let place := Path.steps ⟨target⟩
        let (s, _) ← direct (s.record (p ++ [name]) (.link target)) [] place
        follow s place rest
      | some n => follow (s.record (p ++ [name]) n) (p ++ [name]) rest
where
  direct (s : Survey) (p : Place) : List Text → IO (Survey × Place)
    | [] => return (s, p)
    | name :: rest => do
      match ← node? (p ++ [name]) with
      | none => return (s, p)
      | some n => direct (s.record (p ++ [name]) n) (p ++ [name]) rest

partial def descend (s : Survey) (p : Place) : IO Survey := do
  if s.complete.any (·.isPrefixOf p) then return s
  let entries ← try (location p).readDir catch _ => pure #[]
  let mut s := s
  for entry in entries do
    let place := p ++ [entry.fileName.toList]
    match ← node? place with
    | none => pure ()
    | some (.link []) => s := s.record place (.link [])
    | some (.link target) =>
      let known := (s.files.at? (Path.steps ⟨target⟩)).isSome
      let (next, leadsTo) ← (s.record place (.link target)).follow [] (Path.steps ⟨target⟩)
      s ← if known then pure next else next.descend leadsTo
    | some (.directory time) => s ← (s.record place (.directory time)).descend place
    | some n => s := s.record place n
  return { s with complete := p :: s.complete }

def visit (s : Survey) (p : Path) : IO Survey := do
  let (s, place) ← s.follow (if p.isAbsolute then [] else s.files.here) p.steps
  s.descend place

end Survey

def sitePaths (fs : FileSystem) (cli : CommandLine) : List Path :=
  let root := Config.rootOr cli.root
  match Config.read fs (root.join cli.config) with
  | .error _ => []
  | .ok c =>
    let c := c.override cli
    let source := root.join c.source
    [source, root.join c.destination, source.join c.layouts, source.join c.includes]

def survey (args : List Text) : IO FileSystem := do
  let here := placeOf (← IO.FS.realPath (← IO.currentDir)).toString
  let (s, _) ← (Survey.mk { nodes := [], here, clock := 1 } []).follow [] here
  match CommandLine.ofArgs args with
  | .error _ => return s.files
  | .ok cli =>
    let config := (Config.rootOr cli.root).join cli.config
    let (s, _) ← s.follow (if config.isAbsolute then [] else here) config.steps
    let s ← (sitePaths s.files cli).foldlM Survey.visit s
    return s.files

def perform : Edit → IO Unit
  | .write p content _ => IO.FS.writeBinFile (text p) ⟨content.toArray⟩
  | .makeDirectory p => IO.FS.createDirAll (text p)
  | .remove p => do
    let place := p.steps
    match ← node? place with
    | some (.directory _) => IO.FS.removeDirAll (text p)
    | _ => IO.FS.removeFile (text p)
  | .touch _ _ => pure ()
  | .link _ _ => pure ()

def width : Nat := 120

def say (l : Log.Line) : IO Unit := do
  if ← (← IO.getStdout).isTty then IO.print (String.ofList (l.onTerminal width))
  else IO.println (String.ofList (l.fit width))

def run {α : Type} (step : FileSystem → Run α) (args : List Text) : IO (FileSystem × α) := do
  let old ← survey args
  let done := step old
  (old.editsTo done.files).forM perform
  done.log.forM say
  return (done.files, done.result)

/-- Answers requests, one URL a line of the input, until it ends. When watching, what has changed in
between is built first. -/
partial def answer (c : Config) (args : List Text) : IO Unit := do
  let line ← (← IO.getStdin).getLine
  if line.isEmpty then say Program.shutdownLine
  else
    let (files, _) ← run (fun fs =>
      if c.serve.watch then
        let (files, log) := BuildJob.full.run (Builder.ofConfig c) fs
        ⟨files, log, ()⟩
      else ⟨fs, [], ()⟩) args
    match Preview.respond files c.destination line.trimAscii.toString.toList with
    | none => say (Log.line "serve" "request error".toList)
    | some r =>
      IO.println s!"{r.status} {String.ofList r.contentType}"
      (← IO.getStdout).write ⟨r.body.toArray⟩
      IO.println ""
    answer c args

def usage : List String :=
  ["Usage: plume [-r ROOT] [-C CONFIG] [-s SOURCE] [-d DESTINATION] COMMAND", "", "Commands:",
    "  build [--clean]", "  serve [-i INTERFACE] [-p PORT] [-w [true|false]]", "  clean", "  help"]

def close : Exit → IO Unit
  | .success => pure ()
  | .version t => IO.println (String.ofList t)
  | .usage e => usage.forM fun line => if e.isRequest then IO.println line else IO.eprintln line
  | .failure e => IO.eprint (String.ofList e.report)

end StaticSite.Disk

open StaticSite in
def main (args : List String) : IO UInt32 := do
  let args := args.map String.toList
  let (files, exit) ← Disk.run (fun fs => Program.run (fun _ => none) fs args) args
  Disk.close exit
  match exit, CommandLine.ofArgs args with
  | .success, .ok cli =>
    match cli.command, Config.load files cli with
    | .serve .., .ok c => Disk.answer c args
    | _, _ => pure ()
  | _, _ => pure ()
  return UInt32.ofNat exit.code
