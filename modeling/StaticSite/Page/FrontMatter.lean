import StaticSite.Page.Error
import StaticSite.Yaml.Load

/-! Metadata of a page: a block between two fences at the start of its text, which holds a YAML
mapping. What follows the block is the body. -/
namespace StaticSite

/-- Entries by the text of their key, each key once, in the order of the keys. -/
structure FrontMatter where
  entries : List (Text × Yaml.Value)
  deriving Repr

namespace FrontMatter

def empty : FrontMatter := ⟨[]⟩

def insertEntry (key : Text) (value : Yaml.Value) :
    List (Text × Yaml.Value) → List (Text × Yaml.Value)
  | [] => [(key, value)]
  | (k, v) :: rest =>
    if key = k then (key, value) :: rest
    else if Text.less key k then (key, value) :: (k, v) :: rest
    else (k, v) :: insertEntry key value rest

/-- Of two entries under one key the later counts. -/
def ofPairs (pairs : List (Text × Yaml.Value)) : FrontMatter :=
  ⟨pairs.foldl (fun entries (k, v) => insertEntry k v entries) []⟩

def get? (m : FrontMatter) (key : Text) : Option Yaml.Value := m.entries.lookup key

/-- The text of a value that is not a collection; of a tagged value only a string has one. -/
def scalar? : Yaml.Value → Option Text
  | .string t => some t
  | .bool true => some "true".toList
  | .bool false => some "false".toList
  | .number n => some n.text
  | .null => some []
  | .tagged _ (.string t) => some t
  | .tagged _ _ => none
  | .sequence _ => none
  | .mapping _ => none

def layoutKey : Text := "layout".toList

def layout? (m : FrontMatter) : Option Text :=
  match (m.get? layoutKey).bind scalar? with
  | none => none
  | some t => if Text.trim t = [] then none else some (Text.trim t)

def text? (m : FrontMatter) (name : Text) : Option Text :=
  if name = layoutKey then none else (m.get? name).bind scalar?

/-- Lines without the white space around them, and without those that are blank. -/
def normalize (block : Text) : Text :=
  Text.join ['\n'] (((Text.lines block).map Text.trim).filter (· ≠ []))

def keyText : Yaml.Value → Except Malformed Text
  | .string t => .ok t
  | .bool true => .ok "true".toList
  | .bool false => .ok "false".toList
  | .number n => .ok n.text
  | key => .error (.unsupportedKey key)

def ofMapping : List (Yaml.Value × Yaml.Value) → Except Malformed (List (Text × Yaml.Value))
  | [] => .ok []
  | (k, v) :: rest =>
    match keyText k with
    | .error e => .error e
    | .ok key => (ofMapping rest).map ((key, v) :: ·)

def ofBlock (block : Text) : Except Malformed FrontMatter :=
  if normalize block = [] then .ok empty
  else match Yaml.load? (normalize block) with
    | none => .error (.invalidBlock (normalize block))
    | some .null => .ok empty
    | some (.mapping pairs) => (ofMapping pairs).map ofPairs
    | some _ => .error .notMapping

end FrontMatter

inductive Opening
  | plain
  | unclosed
  | fenced (block rest : Text)
  deriving DecidableEq, Repr

/-- A text with its metadata taken off; without a block there is none. -/
structure Document where
  metadata : Option FrontMatter
  body : Text
  deriving Repr

namespace Document

def fence : Text := ['-', '-', '-']

/-- The block ends at the next fence, wherever it stands. -/
def opening (t : Text) : Opening :=
  match Text.after? fence t with
  | none => .plain
  | some rest =>
    match Text.cut? fence rest with
    | none => .unclosed
    | some (block, rest) => .fenced block rest

def dropLineEnd : Text → Text
  | '\r' :: '\n' :: t => t
  | '\n' :: t => t
  | t => t

def ofText (t : Text) : Except RenderError Document :=
  match opening t with
  | .plain => .ok ⟨none, t⟩
  | .unclosed => .error (.malformed .unterminatedBlock)
  | .fenced block rest =>
    match FrontMatter.ofBlock block with
    | .error reason => .error (.malformed reason)
    | .ok metadata => .ok ⟨some metadata, dropLineEnd rest⟩

end Document
end StaticSite
