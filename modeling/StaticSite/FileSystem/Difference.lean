import StaticSite.FileSystem.Edit

/-! What leads from one state of the files to another: first what has gone is removed, then new
directories are made, those above first, and then files are written. -/
namespace StaticSite.FileSystem

/-- Whether a node may stay when another one is asked for at its place: a directory does, and a file
can be written over. -/
def staysFor (old : Node) : Option Node → Bool
  | none => false
  | some (.link target) => old == .link target
  | some (.directory _) => old.isDirectory
  | some (.file _ _) => old.isFile

def departed (old new : FileSystem) : List Place :=
  (old.nodes.filter fun e => !staysFor e.2 (new.at? e.1)).map (·.1)

def topmost (places : List Place) : List Place := places.filter fun p => !places.contains p.dropLast

def isDirectoryAt (fs : FileSystem) (p : Place) : Bool := (fs.at? p).any Node.isDirectory

def newDirectories (old new : FileSystem) : List Place :=
  let places := (new.nodes.filter fun e => e.2.isDirectory && !old.isDirectoryAt e.1).map (·.1)
  places.mergeSort fun a b => a.length ≤ b.length

def writing? (old : FileSystem) : Place × Node → Option Edit
  | (p, .file content time) =>
    if old.at? p = some (.file content time) then none else some (.write (.ofPlace p) content time)
  | (p, .link target) =>
    if old.at? p = some (.link target) then none else some (.link (.ofPlace p) target)
  | (_, .directory _) => none

/-- The edits that lead to another state; times of directories are left to the edits. -/
def editsTo (old new : FileSystem) : List Edit :=
  (topmost (old.departed new)).map (fun p => .remove (.ofPlace p)) ++
    (old.newDirectories new).map (fun p => .makeDirectory (.ofPlace p)) ++
    new.nodes.filterMap old.writing?

end StaticSite.FileSystem
