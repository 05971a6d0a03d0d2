import StaticSite.Text

/-! Paths of the file system. A path is its text, and joining keeps the text; it is compared and
split by its components, where doubled slashes and dots in between do not count. -/
namespace StaticSite

structure Path where
  text : Text
  deriving DecidableEq, Repr

inductive Component
  | root
  | here
  | up
  | name (t : Text)
  deriving DecidableEq, Repr

namespace Path

def ofString (s : String) : Path := ⟨s.toList⟩

structure Part where
  start : Nat
  stop : Nat
  component : Component
  deriving DecidableEq, Repr

def isAbsolute (p : Path) : Bool := p.text.head? == some '/'

/-- The parts in a text whose pieces between slashes begin at `i`. A dot counts only at the very
start of a path without a root. -/
def partsFrom (i : Nat) : List Text → List Part
  | [] => []
  | t :: ts =>
    let rest := partsFrom (i + t.length + 1) ts
    if t = [] then rest
    else if t = ['.'] then if i = 0 then ⟨i, i + 1, .here⟩ :: rest else rest
    else ⟨i, i + t.length, if t = ['.', '.'] then .up else .name t⟩ :: rest

def parts (p : Path) : List Part :=
  let names := partsFrom 0 (Text.splitBy (· == '/') p.text)
  if p.isAbsolute then ⟨0, 1, .root⟩ :: names else names

def components (p : Path) : List Component := p.parts.map (·.component)

def span (p : Path) (parts : List Part) : Path :=
  match parts.head?, parts.getLast? with
  | some a, some b => ⟨(p.text.take b.stop).drop a.start⟩
  | _, _ => ⟨[]⟩

/-- An absolute path stands for itself wherever it is joined. -/
def join (p : Path) (q : Path) : Path :=
  if q.isAbsolute then q
  else if p.text = [] || p.text.getLast? = some '/' then ⟨p.text ++ q.text⟩
  else ⟨p.text ++ '/' :: q.text⟩

def joinText (p : Path) (t : Text) : Path := p.join ⟨t⟩

/-- The path without its last component; the root and the empty path have none. -/
def parent? (p : Path) : Option Path :=
  match p.parts.getLast? with
  | none => none
  | some ⟨_, _, .root⟩ => none
  | some _ => some (p.span p.parts.dropLast)

def fileName? (p : Path) : Option Text :=
  match p.parts.getLast? with
  | some ⟨_, _, .name t⟩ => some t
  | _ => none

/-- Stem and extension of a name: they meet at the last dot, and a dot at the start is of the
stem. -/
def splitName (t : Text) : Text × Option Text :=
  if t = ['.', '.'] || !t.contains '.' then (t, none)
  else
    let ext := (t.reverse.takeWhile (· != '.')).reverse
    let stem := t.take (t.length - ext.length - 1)
    if stem = [] then (t, none) else (stem, some ext)

def extension? (p : Path) : Option Text := p.fileName?.bind fun t => (splitName t).2

def setExtension (p : Path) (ext : Text) : Path :=
  match p.parts.getLast? with
  | some ⟨start, _, .name t⟩ =>
    let stem := p.text.take (start + (splitName t).1.length)
    ⟨if ext = [] then stem else stem ++ '.' :: ext⟩
  | _ => p

/-- The same name with another extension: as many characters as the old one has are taken off the
end of the text before the new one is set. -/
def withExtension (p : Path) (ext : Text) : Path :=
  match p.extension? with
  | some old => setExtension ⟨p.text.take (p.text.length - old.length)⟩ ext
  | none => p.setExtension ext

def stripPrefix? (p base : Path) : Option Path :=
  if base.components.isPrefixOf p.components then some (p.span (p.parts.drop base.parts.length))
    else none

def startsWith (p base : Path) : Bool := base.components.isPrefixOf p.components

def steps (p : Path) : List Text := (Text.splitBy (· == '/') p.text).filter (· ≠ [])

def wantsDirectory (p : Path) : Bool := p.text.getLast? == some '/'

def ofPlace (names : List Text) : Path :=
  if names = [] then ⟨['/']⟩ else ⟨names.flatMap fun n => '/' :: n⟩

end Path
end StaticSite
