import StaticSite.Toml.Scalar

/-! TOML documents. Whatever is wrong with one, it has no value. -/
namespace StaticSite.Toml

def isBareKey (c : Char) : Bool := c.isAlphanum || c == '_' || c == '-'

def simpleKey? (t : Text) : Option (Text × Text) :=
  match t with
  | '"' :: rest => lineString? '"' (t.length + 1) rest
  | '\'' :: rest => lineString? '\'' (t.length + 1) rest
  | t =>
    let key := t.takeWhile isBareKey
    if key = [] then none else some (key, t.drop key.length)

def key? : Nat → Text → Option (List Text × Text)
  | 0, _ => none
  | fuel + 1, t =>
    match simpleKey? (t.dropWhile isGap) with
    | none => none
    | some (key, rest) =>
      match rest.dropWhile isGap with
      | '.' :: rest => (key? fuel rest).map fun (keys, rest) => (key :: keys, rest)
      | rest => some ([key], rest)

def skipComment : Text → Text
  | '#' :: rest => rest.dropWhile isPlain
  | t => t

def endOfLine? (t : Text) : Option Text :=
  match skipComment (t.dropWhile isGap) with
  | [] => some []
  | rest => newline? rest

def skipFiller : Nat → Text → Option Text
  | 0, _ => none
  | fuel + 1, t =>
    match skipSpace t with
    | '#' :: rest => (newline? (rest.dropWhile isPlain)).bind (skipFiller fuel)
    | rest => some rest

mutual
/-- A value at the start of a text. `fuel` bounds how often a reader calls another. -/
def value? : Nat → Text → Option (Value × Text)
  | 0, _ => none
  | fuel + 1, t =>
    match t with
    | [] => none
    | '[' :: rest => (items? fuel rest).map fun (items, rest) => (.array items, rest)
    | '\x7b' :: rest =>
      match rest.dropWhile isGap with
      | '\x7d' :: rest => some (.table .inline [], rest)
      | rest => (pairs? fuel [] rest).map fun (entries, rest) => (.table .inline entries, rest)
    | c :: _ =>
      if c = '"' || c = '\'' then (string? t).map fun (s, rest) => (.string s, rest) else word? t

/-- Items up to a closing bracket; a comma may follow the last one. -/
def items? : Nat → Text → Option (List Value × Text)
  | 0, _ => none
  | fuel + 1, t =>
    match skipFiller (t.length + 1) t with
    | none => none
    | some (']' :: rest) => some ([], rest)
    | some t =>
      match value? fuel t with
      | none => none
      | some (v, rest) =>
        match skipFiller (rest.length + 1) rest with
        | some (',' :: rest) => (items? fuel rest).map fun (vs, rest) => (v :: vs, rest)
        | some (']' :: rest) => some ([v], rest)
        | _ => none

/-- Assignments up to a closing brace, on one line and without a comma after the last. -/
def pairs? : Nat → Entries → Text → Option (Entries × Text)
  | 0, _, _ => none
  | fuel + 1, entries, t =>
    match key? (t.length + 1) t with
    | some (key, '=' :: rest) =>
      match value? fuel (rest.dropWhile isGap) with
      | none => none
      | some (v, rest) =>
        match assign key v entries, rest.dropWhile isGap with
        | some entries, ',' :: rest => pairs? fuel entries rest
        | some entries, '\x7d' :: rest => some (entries, rest)
        | _, _ => none
    | _ => none
end

def statement? (t : Text) : Option (Statement × Text) :=
  match t with
  | '[' :: '[' :: rest =>
    match key? (t.length + 1) rest with
    | some (path, ']' :: ']' :: rest) => some (.element path, rest)
    | _ => none
  | '[' :: rest =>
    match key? (t.length + 1) rest with
    | some (path, ']' :: rest) => some (.table path, rest)
    | _ => none
  | t =>
    match key? (t.length + 1) t with
    | some (key, '=' :: rest) =>
      (value? (2 * t.length + 2) (rest.dropWhile isGap)).map fun (v, rest) => (.assign key v, rest)
    | _ => none

def statements? : Nat → Text → Option (List Statement)
  | 0, _ => none
  | fuel + 1, t =>
    match t.dropWhile isGap with
    | [] => some []
    | '#' :: rest => (endOfLine? ('#' :: rest)).bind (statements? fuel)
    | c :: rest =>
      match newline? (c :: rest) with
      | some rest => statements? fuel rest
      | none =>
        match statement? (c :: rest) with
        | none => none
        | some (s, rest) => (endOfLine? rest).bind fun rest => (statements? fuel rest).map (s :: ·)

/-- The table that a document holds. A byte order mark at its start does not count. -/
def load? (t : Text) : Option Entries :=
  let t := if t.head? = some (Char.ofNat 0xFEFF) then t.tail else t
  (statements? (t.length + 1) t).bind fun sts => ((⟨[], []⟩ : State).runAll sts).map (·.root)

end StaticSite.Toml
