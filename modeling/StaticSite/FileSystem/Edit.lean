import StaticSite.FileSystem

/-! Changes that others make to the files, and a view of all that is in a directory. -/
namespace StaticSite

inductive Edit
  /-- Writes a file, with the directories above it, and gives it a time. -/
  | write (path : Path) (content : Bytes) (time : Nat)
  | touch (path : Path) (time : Nat)
  | makeDirectory (path : Path)
  | link (path : Path) (target : Text)
  /-- Removes what is at a path, a link itself and not where it leads. -/
  | remove (path : Path)
  deriving DecidableEq, Repr

namespace FileSystem

def putFile (fs : FileSystem) (p : Path) (content : Bytes) (time : Nat) : FileSystem :=
  match fs.target p with
  | .ok place => fs.put place (.file content time)
  | .error _ => fs

def apply (fs : FileSystem) : Edit → FileSystem
  | .write p content time =>
    let fs := match p.parent? with
      | some parent => (fs.makeAll parent).1
      | none => fs
    fs.putFile p content time
  | .touch p time =>
    match fs.stat p with
    | .ok (place, .file content _) => fs.put place (.file content time)
    | _ => fs
  | .makeDirectory p => (fs.makeAll p).1
  | .link p target =>
    match fs.find false p with
    | .ok (.free place) => fs.put place (.link target)
    | _ => fs
  | .remove p =>
    match fs.linkStat p with
    | .ok (place, _) => fs.erase place
    | .error _ => fs

/-- All that is below a place: directories with a slash after their name and without a content, and
so links to directories, which are not gone through. `fuel` bounds the depth. -/
def contentsFrom (fs : FileSystem) : Nat → Text → Path → Place → List (Text × Option Bytes)
  | 0, _, _, _ => []
  | fuel + 1, start, dir, place =>
    (fs.entries place).flatMap fun (name, node) =>
      let path := dir.joinText name
      let shown := start ++ name
      if fs.isDirectory path then
        (shown ++ ['/'], none) ::
          if node.isDirectory then contentsFrom fs fuel (shown ++ ['/']) path (place ++ [name])
            else []
      else [(shown, (fs.read path).toOption)]

def contents (fs : FileSystem) (p : Path) : List (Text × Option Bytes) :=
  match fs.stat p with
  | .ok (place, .directory _) =>
    (fs.contentsFrom (fs.nodes.length + 1) [] p place).mergeSort fun a b => !Text.less b.1 a.1
  | _ => []

end FileSystem
end StaticSite
