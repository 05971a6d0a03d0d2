import StaticSite.Text

/-! Values of a TOML document, and how its statements build up tables. -/
namespace StaticSite.Toml

/-- What made a table. Only a table that is there on the way to another one may be added to. -/
inductive Origin
  | header
  | onTheWay
  | dotted
  | inline
  deriving DecidableEq, Repr

/-- `other` stands for floating-point numbers and dates. -/
inductive Value
  | string (t : Text)
  | integer (n : Int)
  | boolean (b : Bool)
  | other
  | array (items : List Value)
  | table (origin : Origin) (entries : List (Text × Value))
  | tables (items : List (List (Text × Value)))
  deriving Repr

abbrev Entries := List (Text × Value)

def Entries.set (key : Text) (v : Value) : Entries → Entries
  | [] => [(key, v)]
  | (k, w) :: rest => if k = key then (k, v) :: rest else (k, w) :: set key v rest

/-- Changes the table at the end of a path. Missing tables are made; through dotted keys one may
only go into tables that have no header, and into an array of tables only at its last table. -/
def edit (dotted : Bool) (change : Origin → Entries → Option Entries) :
    List Text → Origin → Entries → Option Entries
  | [], origin, entries => change origin entries
  | key :: path, _, entries =>
    match entries.lookup key with
    | none =>
      let origin := if dotted then Origin.dotted else .onTheWay
      (edit dotted change path origin []).map fun inner => entries.set key (.table origin inner)
    | some (.table .inline _) => none
    | some (.table origin inner) =>
      if dotted && origin = .header then none
      else (edit dotted change path origin inner).map fun inner =>
        entries.set key (.table origin inner)
    | some (.tables items) =>
      if dotted then none
      else match items.getLast? with
        | none => none
        | some last =>
          (edit dotted change path .header last).map fun last =>
            entries.set key (.tables (items.dropLast ++ [last]))
    | some _ => none

def assign (path : List Text) (v : Value) (entries : Entries) : Option Entries :=
  match path.getLast? with
  | none => none
  | some key =>
    edit true (fun origin inner =>
      if (path.dropLast ≠ [] && origin ≠ .dotted) || (inner.lookup key).isSome then none
      else some (inner.set key v)) path.dropLast .header entries

inductive Statement
  | assign (key : List Text) (v : Value)
  | table (path : List Text)
  | element (path : List Text)
  deriving Repr

/-- The whole document so far, and the table that assignments go to. -/
structure State where
  root : Entries
  current : List Text
  deriving Repr

def openTable (path : List Text) (root : Entries) : Option Entries :=
  match path.getLast? with
  | none => none
  | some key =>
    edit false (fun _ inner =>
      match inner.lookup key with
      | none => some (inner.set key (.table .header []))
      | some (.table .onTheWay entries) => some (inner.set key (.table .header entries))
      | some _ => none) path.dropLast .header root

def openElement (path : List Text) (root : Entries) : Option Entries :=
  match path.getLast? with
  | none => none
  | some key =>
    edit false (fun _ inner =>
      match inner.lookup key with
      | none => some (inner.set key (.tables [[]]))
      | some (.tables items) => some (inner.set key (.tables (items ++ [[]])))
      | some _ => none) path.dropLast .header root

def State.run (s : State) : Statement → Option State
  | .assign key v =>
    (edit false (fun _ entries => Toml.assign key v entries) s.current .header s.root).map
      fun root => { s with root }
  | .table path => (openTable path s.root).map fun root => ⟨root, path⟩
  | .element path => (openElement path s.root).map fun root => ⟨root, path⟩

def State.runAll (s : State) : List Statement → Option State
  | [] => some s
  | st :: rest => (s.run st).bind fun s => s.runAll rest

end StaticSite.Toml
