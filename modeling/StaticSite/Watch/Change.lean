import StaticSite.FileSystem.Edit
import StaticSite.Watch.Basic

/-! Changes to the tree that happen all at once, and what a watcher reports of them: a path is
reported if the directory it is in is subscribed to. -/
namespace StaticSite

inductive Change
  | put (path : Path) (content : Bytes) (time : Nat)
  /-- A directory with files in it is moved in; their names are relative to it. -/
  | putDirectory (path : Path) (files : List (Text × Bytes)) (time : Nat)
  | take (path : Path)
  | move (source destination : Path)
  | makeDirectory (path : Path)
  | touch (path : Path) (time : Nat)
  deriving DecidableEq, Repr

namespace Change

def moveFile (fs : FileSystem) (source destination : Path) : FileSystem :=
  match fs.linkStat source with
  | .ok (place, node) =>
    match fs.find false destination with
    | .ok (.free new) => (fs.erase place).put new node
    | .ok (.found new _) => (fs.erase place).put new node
    | .error _ => fs
  | .error _ => fs

def apply (fs : FileSystem) : Change → FileSystem
  | .put p content time => fs.putFile p content time
  | .putDirectory p files time =>
    files.foldl (fun fs (name, content) => fs.apply (.write (p.joinText name) content time))
      (fs.apply (.makeDirectory p))
  | .take p => fs.apply (.remove p)
  | .move p q => moveFile fs p q
  | .makeDirectory p => fs.apply (.makeDirectory p)
  | .touch p time => fs.apply (.touch p time)

def isReported (s : WatchState) (p : Path) : Bool := p.parent?.any s.contains

def report (s : WatchState) (kind : EventKind) (p : Path) : List Event :=
  if isReported s p then [⟨kind, [p]⟩] else []

/-- What is reported of a change, for the subscriptions at that time. -/
def events (s : WatchState) : Change → List Event
  | .put p _ _ => report s .modify p
  | .putDirectory p _ _ => report s .modify p
  | .take p => report s .modify p
  | .move p q =>
    report s .modify p ++ report s .modify q ++
      if isReported s p && isReported s q then [⟨.modify, [p, q]⟩] else []
  | .makeDirectory p => report s .create p
  | .touch p _ => report s .modify p

end Change
end StaticSite
