import StaticSite.Build.Job

/-! Watching the source tree. Each directory that the build would visit is subscribed to on its own;
an event names paths, and what is there by then decides what is done. -/
namespace StaticSite

inductive EventKind
  | create
  | modify
  | remove
  | access
  | other
  | any
  deriving DecidableEq, Repr

structure Event where
  kind : EventKind
  paths : List Path
  deriving DecidableEq, Repr

def Event.isRelevant (e : Event) : Bool :=
  match e.kind with
  | .create | .modify | .remove => true
  | .access | .other | .any => false

inductive WatchError
  | cannotWatch (dir : Path)
  | workerStopped
  deriving DecidableEq, Repr

namespace WatchError

def chain : WatchError → List Text
  | .cannotWatch dir => ["Failed to watch ".toList ++ dir.text, "No path was found.".toList]
  | .workerStopped => ["Build worker has stopped".toList, "sending on a closed channel".toList]

def message (e : WatchError) : Text := Text.join [':', ' '] e.chain

end WatchError

inductive WatchEffect
  | watched (dir : Path)
  | unwatched (dir : Path)
  | logged (line : Log.Line)
  | queued (rel : Path)
  deriving DecidableEq, Repr

/-- The directories subscribed to, how often a subscription was asked for, and all effects so
far. -/
structure WatchState where
  dirs : List Path
  attempts : Nat
  effects : List WatchEffect
  deriving DecidableEq, Repr

namespace WatchState

def start : WatchState := ⟨[], 0, []⟩

/-- Paths with the same components are the same directory. -/
def contains (s : WatchState) (dir : Path) : Bool :=
  s.dirs.any fun d => d.components == dir.components

def emit (s : WatchState) (e : WatchEffect) : WatchState := { s with effects := s.effects ++ [e] }

def log (s : WatchState) (line : Log.Line) : WatchState := s.emit (.logged line)

/-- Ends the subscriptions of a directory and of all below it. -/
def forget (s : WatchState) (dir : Path) : WatchState :=
  { s with
    dirs := s.dirs.filter fun d => !d.startsWith dir
    effects := s.effects ++ (s.dirs.filter fun d => d.startsWith dir).map .unwatched }

def since (s before : WatchState) : List WatchEffect := s.effects.drop before.effects.length

end WatchState

/-- `refuses` tells whether the system refuses the so-many-th subscription, to some directory. -/
structure ChangeHandler where
  builder : Builder
  refuses : Nat → Path → Bool
  workerStopped : Bool

namespace ChangeHandler

/-- Subscribes to a directory, once. What is not there cannot be subscribed to; only what succeeds
is remembered. -/
def add (h : ChangeHandler) (fs : FileSystem) (s : WatchState) (dir : Path) :
    WatchState × Option WatchError :=
  if s.contains dir then (s, none)
  else if h.refuses s.attempts dir || !fs.exists_ dir then
    ({ s with attempts := s.attempts + 1 }, some (.cannotWatch dir))
  else
    ({ s with
       dirs := s.dirs ++ [dir]
       attempts := s.attempts + 1
       effects := s.effects ++ [.watched dir] }, none)

/-- Subscribes to a directory; a refusal is only logged. -/
def subscribe (h : ChangeHandler) (fs : FileSystem) (s : WatchState) (dir : Path) : WatchState :=
  match h.add fs s dir with
  | (s, none) => s
  | (s, some e) => s.log (Log.line "watch" e.message)

def submit (h : ChangeHandler) (s : WatchState) (rel : Path) : WatchState × Option WatchError :=
  if h.workerStopped then (s, some .workerStopped) else (s.emit (.queued rel), none)

def subscribeAll (h : ChangeHandler) (fs : FileSystem) (queueFiles : Bool) :
    WatchState → List SourceEntry → WatchState × Option WatchError
  | s, [] => (s, none)
  | s, ⟨rel, .directory⟩ :: rest =>
    h.subscribeAll fs queueFiles (h.subscribe fs s (h.builder.source.join rel)) rest
  | s, ⟨rel, .file⟩ :: rest =>
    if queueFiles then
      match h.submit s rel with
      | (s, some e) => (s, some e)
      | (s, none) => h.subscribeAll fs queueFiles s rest
    else h.subscribeAll fs queueFiles s rest

def subscribeBelow (h : ChangeHandler) (fs : FileSystem) (s : WatchState) (rel : Path)
    (queueFiles : Bool) :
    WatchState × Option WatchError :=
  let (entries, lines) := h.builder.collectIn fs rel
  h.subscribeAll fs queueFiles (lines.foldl .log s) entries

def subscribeTree (h : ChangeHandler) (fs : FileSystem) (s : WatchState) :
    WatchState × Option WatchError :=
  match h.add fs s h.builder.source with
  | (s, some e) => (s, some e)
  | (s, none) => h.subscribeBelow fs s ⟨[]⟩ false

def visible? (h : ChangeHandler) (p : Path) : Option Path :=
  match p.stripPrefix? h.builder.source with
  | none => none
  | some rel => if rel.text = [] || h.builder.policy.excludesPath rel then none else some rel

/-- A new directory is subscribed to with all that is below it, and its files are queued. -/
def subscribeNew (h : ChangeHandler) (fs : FileSystem) (s : WatchState) (dir rel : Path) :
    WatchState × Option WatchError :=
  let s := (s.forget dir).log (Log.line "watch" ("watching new directory ".toList ++ rel.text))
  h.subscribeBelow fs (h.subscribe fs s dir) rel true

def handle (h : ChangeHandler) (fs : FileSystem) (created : Bool) (s : WatchState) (p : Path) :
    WatchState × Option WatchError :=
  match h.visible? p with
  | none => (s, none)
  | some rel =>
    if fs.isDirectory p then
      if created || !s.contains p then h.subscribeNew fs s p rel else (s, none)
    else if fs.isFile p then h.submit s rel
    else (s.forget p, none)

def handleAll (h : ChangeHandler) (fs : FileSystem) (created : Bool) :
    WatchState → List Path → WatchState × Option WatchError
  | s, [] => (s, none)
  | s, p :: ps =>
    match h.handle fs created s p with
    | (s, some e) => (s, some e)
    | (s, none) => h.handleAll fs created s ps

/-- Handles the paths of an event in their order; only a stopped worker ends this early. -/
def handleEvent (h : ChangeHandler) (fs : FileSystem) (s : WatchState) (e : Event) :
    WatchState × Option WatchError :=
  h.handleAll fs (e.kind = .create) s e.paths

def handleEvents (h : ChangeHandler) (fs : FileSystem) :
    WatchState → List Event → WatchState × Option WatchError
  | s, [] => (s, none)
  | s, e :: es =>
    if e.isRelevant then
      match h.handleEvent fs s e with
      | (s, some err) => (s, some err)
      | (s, none) => h.handleEvents fs s es
    else h.handleEvents fs s es

def countLine (s : WatchState) : Log.Line :=
  Log.line "watch" ("watching ".toList ++ Text.ofNat s.dirs.length ++ " directories".toList)

def begin (h : ChangeHandler) (fs : FileSystem) : WatchState × Option WatchError :=
  match h.subscribeTree fs .start with
  | (s, some e) => (s, some e)
  | (s, none) => (s.log (countLine s), none)

end ChangeHandler
end StaticSite
