import StaticSite.Exclusion
import StaticSite.Log

/-! The walk through the source tree: depth first, by name, and not through links to directories. -/
namespace StaticSite

inductive EntryKind
  | file
  | directory
  deriving DecidableEq, Repr

structure SourceEntry where
  path : Path
  kind : EntryKind
  deriving DecidableEq, Repr

namespace SourceEntry

/-- A path below the source; another path stays as it is. -/
def relative (source p : Path) : Path := (p.stripPrefix? source).getD p

def kindAt? (fs : FileSystem) (p : Path) : Option EntryKind :=
  (fs.node? p).bind fun n =>
    match n with
    | .directory _ => some .directory
    | .file _ _ => some .file
    | .link _ => none

def seenKind? (fs : FileSystem) (refused : FileSystem.Refusals) (p : Path) : Option EntryKind :=
  if (refused.lookup p).isSome then none else kindAt? fs p

/-- Why a directory cannot be read: its path is too long, or it is refused. -/
def refusal? (refused : FileSystem.Refusals) (dir : Path) : Option IoError :=
  if FileSystem.maxPath ≤ Text.byteLength dir.text then some .nameTooLong else refused.reading dir

def refusalLine (p : Path) (e : IoError) : Log.Line :=
  Log.line "error" ("IO error for operation on ".toList ++ p.text ++ ": ".toList ++ e.message)

/-- What the walk comes to below the directory at `place`, whose path is `dir`: entries, and
directories that cannot be read. Excluded entries are left out with what is below them. `fuel`
bounds the depth. -/
def below (fs : FileSystem) (policy : ExclusionPolicy) (source : Path)
    (refused : FileSystem.Refusals) : Nat → Path → Place → List (Except Log.Line SourceEntry)
  | 0, _, _ => []
  | fuel + 1, dir, place =>
    match refusal? refused dir with
    | some e => [.error (refusalLine dir e)]
    | none =>
      (fs.entries place).flatMap fun (name, node) =>
        let path := dir.joinText name
        let rel := relative source path
        if policy.excludesPath rel then []
        else
          ((seenKind? fs refused path).map fun kind => .ok ⟨rel, kind⟩).toList ++
            if node.isDirectory then below fs policy source refused fuel path (place ++ [name])
            else []

def listed (walk : List (Except Log.Line SourceEntry)) : List SourceEntry :=
  walk.filterMap Except.toOption

def logged (walk : List (Except Log.Line SourceEntry)) : List Log.Line :=
  walk.filterMap fun found => match found with
    | .error line => some line
    | .ok _ => none

def seen (fs : FileSystem) (refused : FileSystem.Refusals) (p : Path) :
    Except IoError (Place × Node) :=
  match fs.linkStat p, refused.lookup p with
  | .error e, _ => .error e
  | .ok _, some e => .error e
  | .ok _, none => fs.stat p

/-- The walk from `rel`, which is not listed itself. -/
def walkFrom (fs : FileSystem) (policy : ExclusionPolicy) (source rel : Path)
    (refused : FileSystem.Refusals) : List (Except Log.Line SourceEntry) :=
  let top := source.join rel
  match seen fs refused top with
  | .error e => [.error (refusalLine top e)]
  | .ok (place, .directory _) => below fs policy source refused (fs.nodes.length + 1) top place
  | .ok _ => []

def collect (fs : FileSystem) (policy : ExclusionPolicy) (source rel : Path)
    (refused : FileSystem.Refusals) : List SourceEntry × List Log.Line :=
  let walk := walkFrom fs policy source rel refused
  (listed walk, logged walk)

end SourceEntry
end StaticSite
