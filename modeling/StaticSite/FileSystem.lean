import StaticSite.Path
import StaticSite.Text.Utf8

/-! A file system as a value: what stands at each place, and a clock that moves on with every write.
Paths are looked up from the root or from the working directory, through symbolic links.

The tree has no owners and permissions: where the system may refuse or stop an operation for a
reason that the tree does not show, the operation takes this as an argument. It has no hard links
and no special files either, the real path of a place may be longer than the system can say, and
nothing else happens while an operation runs. -/
namespace StaticSite

inductive IoError
  | notFound
  | exists_
  | notDirectory
  | isDirectory
  | nameTooLong
  | tooManyLinks
  | notEmpty
  | nulInName
  | notText
  | notRegular
  | noTree
  | noSpace
  | permissionDenied
  | addressInUse
  | addressUnavailable
  | invalidArgument
  | busy
  deriving DecidableEq, Repr

def IoError.message : IoError → Text
  | .notFound => "No such file or directory (os error 2)".toList
  | .exists_ => "File exists (os error 17)".toList
  | .notDirectory => "Not a directory (os error 20)".toList
  | .isDirectory => "Is a directory (os error 21)".toList
  | .nameTooLong => "File name too long (os error 36)".toList
  | .tooManyLinks => "Too many levels of symbolic links (os error 40)".toList
  | .notEmpty => "Directory not empty (os error 39)".toList
  | .nulInName => "file name contained an unexpected NUL byte".toList
  | .notText => "stream did not contain valid UTF-8".toList
  | .notRegular =>
    "the source path is neither a regular file nor a symlink to a regular file".toList
  | .noTree => "failed to create whole tree".toList
  | .noSpace => "No space left on device (os error 28)".toList
  | .permissionDenied => "Permission denied (os error 13)".toList
  | .addressInUse => "Address already in use (os error 98)".toList
  | .addressUnavailable => "Cannot assign requested address (os error 99)".toList
  | .invalidArgument => "Invalid argument (os error 22)".toList
  | .busy => "Device or resource busy (os error 16)".toList

abbrev Place := List Text

inductive Node
  | file (content : Bytes) (time : Nat)
  | directory (time : Nat)
  | link (target : Text)
  deriving DecidableEq, Repr

def Node.isDirectory : Node → Bool
  | .directory _ => true
  | _ => false

def Node.isFile : Node → Bool
  | .file _ _ => true
  | _ => false

def Node.isLink : Node → Bool
  | .link _ => true
  | _ => false

/-- When a file was written, or a directory made. Links have no time of their own here: they are
always followed first. -/
def Node.time : Node → Nat
  | .file _ t => t
  | .directory t => t
  | .link _ => 0

/-- `nodes` holds each place at most once, and with a place the directories above it. `here` is the
working directory. `changed` says when something was last made in a directory or removed from it, if
that was after the directory itself was made. -/
structure FileSystem where
  nodes : List (Place × Node)
  here : Place
  clock : Nat
  changed : List (Place × Nat) := []
  deriving Repr

/-- What a path leads to: something that is there, or a name that is free in a directory. -/
inductive Spot
  | found (place : Place) (node : Node)
  | free (place : Place)
  deriving DecidableEq, Repr

namespace FileSystem

/-- The root is always there. -/
def at? (fs : FileSystem) (p : Place) : Option Node :=
  if p = [] then some (.directory 0) else fs.nodes.lookup p

/-- The times of directories once a place is made or removed, now: the directory that it is in is
changed, and what was known at and below the place is of no use any more. -/
def stamped (fs : FileSystem) (p : Place) : List (Place × Nat) :=
  (p.dropLast, fs.clock) :: fs.changed.filter fun e => !p.isPrefixOf e.1

/-- Puts a node at a place. One that is new changes the directory that it is in. -/
def put (fs : FileSystem) (p : Place) (n : Node) : FileSystem :=
  { fs with
    nodes := (p, n) :: fs.nodes.filter (·.1 ≠ p)
    changed := if (fs.at? p).isSome then fs.changed else fs.stamped p }

def erase (fs : FileSystem) (p : Place) : FileSystem :=
  { fs with
    nodes := fs.nodes.filter fun e => !p.isPrefixOf e.1
    changed := fs.stamped p }

/-- When something was last made in a directory or removed from it, if that is known. -/
def stamp? (fs : FileSystem) (p : Place) : Option Nat := fs.changed.lookup p

def timeOf (fs : FileSystem) (p : Place) : Node → Nat
  | .directory made => (fs.stamp? p).getD made
  | n => n.time

def tick (fs : FileSystem) : FileSystem := { fs with clock := fs.clock + 1 }

def entries (fs : FileSystem) (p : Place) : List (Text × Node) :=
  let found := fs.nodes.filterMap fun (q, n) =>
    if q.length = p.length + 1 && p.isPrefixOf q then q.getLast?.map fun name => (name, n) else none
  found.mergeSort fun a b => !Text.less b.1 a.1

def maxName : Nat := 255
def maxPath : Nat := 4096
def maxLinks : Nat := 40

def walk (fs : FileSystem) (followLast : Bool) (links : Nat) (p : Place) :
    List Text → Except IoError Spot
  | [] => .ok (.found p ((fs.at? p).getD (.directory 0)))
  | name :: rest =>
    if name = ['.'] then walk fs followLast links p rest
    else if name = ['.', '.'] then walk fs followLast links p.dropLast rest
    else if maxName < Text.byteLength name then .error .nameTooLong
    else match fs.at? (p ++ [name]) with
      | none => if rest = [] then .ok (.free (p ++ [name])) else .error .notFound
      | some (.directory _) => walk fs followLast links (p ++ [name]) rest
      | some (.file c t) =>
        if rest = [] then .ok (.found (p ++ [name]) (.file c t)) else .error .notDirectory
      | some (.link target) =>
        if rest = [] && !followLast then .ok (.found (p ++ [name]) (.link target))
        else match links with
          | 0 => .error .tooManyLinks
          | links + 1 =>
            let target : Path := ⟨target⟩
            if target.text = [] then .error .notFound
            else
              let more := if target.wantsDirectory then target.steps ++ [['.']] else target.steps
              walk fs followLast links (if target.isAbsolute then [] else p) (more ++ rest)
termination_by names => (links, names.length)

/-- Looks a path up. A slash at its end asks for a directory. -/
def find (fs : FileSystem) (followLast : Bool) (p : Path) : Except IoError Spot :=
  if p.text.contains (Char.ofNat 0) then .error .nulInName
  else if p.text = [] then .error .notFound
  else if maxPath ≤ Text.byteLength p.text then .error .nameTooLong
  else
    let names := if p.wantsDirectory then p.steps ++ [['.']] else p.steps
    fs.walk followLast maxLinks (if p.isAbsolute then [] else fs.here) names

def stat (fs : FileSystem) (p : Path) : Except IoError (Place × Node) :=
  match fs.find true p with
  | .error e => .error e
  | .ok (.free _) => .error .notFound
  | .ok (.found place n) => .ok (place, n)

/-- What is at a path, a link at its end being itself. -/
def linkStat (fs : FileSystem) (p : Path) : Except IoError (Place × Node) :=
  match fs.find false p with
  | .error e => .error e
  | .ok (.free _) => .error .notFound
  | .ok (.found place n) => .ok (place, n)

def modified (fs : FileSystem) (p : Path) : Except IoError Nat :=
  (fs.stat p).map fun r => fs.timeOf r.1 r.2

def node? (fs : FileSystem) (p : Path) : Option Node := (fs.stat p).toOption.map (·.2)
def exists_ (fs : FileSystem) (p : Path) : Bool := (fs.node? p).isSome
def isDirectory (fs : FileSystem) (p : Path) : Bool := (fs.node? p).any Node.isDirectory
def isFile (fs : FileSystem) (p : Path) : Bool := (fs.node? p).any Node.isFile

def canonical (fs : FileSystem) (p : Path) : Except IoError Path :=
  (fs.stat p).map fun r => .ofPlace r.1

def read (fs : FileSystem) (p : Path) : Except IoError Bytes :=
  match fs.stat p with
  | .error e => .error e
  | .ok (_, .file content _) => .ok content
  | .ok _ => .error .isDirectory

def readText (fs : FileSystem) (p : Path) : Except IoError Text :=
  match fs.read p with
  | .error e => .error e
  | .ok bytes =>
    match Text.Utf8.decode bytes with
    | .ok t => .ok t
    | .error _ => .error .notText

def list (fs : FileSystem) (p : Path) : Except IoError (List (Text × Node)) :=
  match fs.stat p with
  | .error e => .error e
  | .ok (place, .directory _) => .ok (fs.entries place)
  | .ok _ => .error .notDirectory

def target (fs : FileSystem) (p : Path) : Except IoError Place :=
  match fs.find true p with
  | .error e => .error e
  | .ok (.found place (.file _ _)) => .ok place
  | .ok (.found _ _) => .error .isDirectory
  | .ok (.free place) => .ok place

/-- A write that stops with an error after some of its bytes. -/
structure Fault where
  written : Nat
  error : IoError
  deriving DecidableEq, Repr

/-- Empties or makes the file at a place, now, and writes to it as far as no fault stops it. -/
def fill (fs : FileSystem) (place : Place) (content : Bytes) :
    Option Fault → FileSystem × Option IoError
  | none => ((fs.put place (.file content fs.clock)).tick, none)
  | some f => ((fs.put place (.file (content.take f.written) fs.clock)).tick, some f.error)

def write (fs : FileSystem) (p : Path) (content : Bytes) (fault : Option Fault) :
    FileSystem × Option IoError :=
  match fs.target p with
  | .error e => (fs, some e)
  | .ok place => fs.fill place content fault

/-- Copies a file. Copied onto itself it loses its content, for it is emptied before it is read. -/
def copy (fs : FileSystem) (source destination : Path) (fault : Option Fault) :
    FileSystem × Option IoError :=
  match fs.stat source with
  | .error e => (fs, some e)
  | .ok (origin, .file content _) =>
    match fs.target destination with
    | .error e => (fs, some e)
    | .ok place => fs.fill place (if place = origin then [] else content) fault
  | .ok _ => (fs, some .notRegular)

def trimSlashes (p : Path) : Path :=
  let kept := (p.text.reverse.dropWhile (· == '/')).reverse
  if kept = [] then p else ⟨kept⟩

/-- Makes one directory; even a dangling link is in its way. Slashes at the end count for nothing
but the length of the path. -/
def makeDirectory (fs : FileSystem) (p : Path) : Except IoError FileSystem :=
  if !p.text.contains (Char.ofNat 0) && maxPath ≤ Text.byteLength p.text then .error .nameTooLong
  else match fs.find false (trimSlashes p) with
  | .error e => .error e
  | .ok (.found _ _) => .error .exists_
  | .ok (.free place) => .ok ((fs.put place (.directory fs.clock)).tick)

/-- Makes a directory with those above it, the topmost first; one that is there already will do. -/
def makeDirectories (fs : FileSystem) (p : Path) : Nat → FileSystem × Option IoError
  | 0 => (fs, some .noTree)
  | fuel + 1 =>
    if p.text = [] then (fs, none)
    else match fs.makeDirectory p with
      | .ok fs => (fs, none)
      | .error e =>
        if e ≠ .notFound then (fs, if fs.isDirectory p then none else some e)
        else match p.parent? with
          | none => (fs, some .noTree)
          | some parent =>
            match makeDirectories fs parent fuel with
            | (fs, some e) => (fs, some e)
            | (fs, none) =>
              match fs.makeDirectory p with
              | .ok fs => (fs, none)
              | .error e => (fs, if fs.isDirectory p then none else some e)

def makeAll (fs : FileSystem) (p : Path) : FileSystem × Option IoError :=
  fs.makeDirectories p (p.text.length + 1)

/-- Removes an empty directory. Its last name is looked up in the directory above: a link there is
no directory, and a dot is no name. -/
def removeDirectory (fs : FileSystem) (p : Path) : FileSystem × Option IoError :=
  match p.steps.getLast? with
  | none => (fs, some .busy)
  | some name =>
    match fs.walk true maxLinks (if p.isAbsolute then [] else fs.here) p.steps.dropLast with
    | .error e => (fs, some e)
    | .ok (.free _) => (fs, some .notFound)
    | .ok (.found above (.directory _)) =>
      if name = ['.'] then (fs, some .invalidArgument)
      else if name = ['.', '.'] then (fs, some .notEmpty)
      else match fs.at? (above ++ [name]) with
        | none => (fs, some .notFound)
        | some (.directory _) =>
          if fs.entries (above ++ [name]) = [] then ((fs.erase (above ++ [name])).tick, none)
          else (fs, some .notEmpty)
        | some _ => (fs, some .notDirectory)
    | .ok (.found _ _) => (fs, some .notDirectory)

/-- What the system refuses for a reason that the tree does not show: to say what a path leads to,
or to read a directory. -/
structure Refusals where
  lookup : Path → Option IoError
  reading : Path → Option IoError

def Refusals.none : Refusals := ⟨fun _ => .none, fun _ => .none⟩

/-- A removal that stops with an error after some entries have gone. -/
structure Halt where
  gone : List Place
  error : IoError
  deriving DecidableEq, Repr

/-- Removes an entry below a directory, unless there is still something in it. -/
def removeEntry (fs : FileSystem) (top p : Place) : FileSystem :=
  if p ≠ top && top.isPrefixOf p && (fs.at? p).isSome && fs.entries p = [] then fs.erase p else fs

def clear (fs : FileSystem) (top : Place) : FileSystem :=
  (fs.entries top).foldl (fun fs e => fs.erase (top ++ [e.1])) fs

/-- Removes a directory with what is in it, as far as no halt stops it, or a link to one. The
entries go first, and then the directory itself, which may have gone with them from where its path
leads. -/
def removeAll (fs : FileSystem) (p : Path) (halt : Option Halt) : FileSystem × Option IoError :=
  match fs.linkStat p with
  | .error e => (fs, some e)
  | .ok (_, .file _ _) => (fs, some .notDirectory)
  | .ok (place, .link _) =>
    match halt with
    | none => ((fs.erase place).tick, none)
    | some h => (fs, some h.error)
  | .ok (place, .directory _) =>
    match halt with
    | none =>
      match (fs.clear place).removeDirectory p with
      | (fs, some .notFound) => (fs, none)
      | done => done
    | some h => ((h.gone.foldl (fun fs q => fs.removeEntry place q) fs).tick, some h.error)

end FileSystem
end StaticSite
