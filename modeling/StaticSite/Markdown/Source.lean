import StaticSite.Text

/-! A document read by position. A scanner takes a position and returns the position after what it
recognises; a line may end in a line feed, a carriage return, both, or the end of the document. -/
namespace StaticSite.Markdown

structure Source where
  chars : Array Char

namespace Source
variable (s : Source)

def size : Nat := s.chars.size
def at? (i : Nat) : Option Char := s.chars[i]?
def has (i : Nat) (c : Char) : Bool := s.at? i == some c
def slice (i j : Nat) : Text := (s.chars.extract i j).toList
def upTo (j : Nat) : Source := ⟨s.chars.extract 0 j⟩

def skip (p : Char → Bool) (i : Nat) : Nat :=
  if h : i < s.chars.size then if p s.chars[i] then skip p (i + 1) else i else i
termination_by s.chars.size - i

/-- The least position from which on all characters before `i` satisfy `p`, not below `low`. -/
def skipBack (p : Char → Bool) (low : Nat) : Nat → Nat
  | 0 => 0
  | i + 1 => if low ≤ i && (s.at? i).any p then skipBack p low i else i + 1

def starts (i : Nat) (w : Text) : Bool :=
  match w with
  | [] => true
  | c :: cs => s.has i c && starts (i + 1) cs

def find? (c : Char) (i : Nat) : Option Nat :=
  let j := s.skip (· != c) i
  if j < s.size then some j else none

end Source

def isSpace (c : Char) : Bool := c == ' ' || c == '\t'
def isInlineSpace (c : Char) : Bool := c == ' ' || c == '\t' || c.toNat == 11 || c.toNat == 12
def isLineEnd (c : Char) : Bool := c == '\n' || c == '\r'
def isAsciiSpace (c : Char) : Bool := isInlineSpace c || isLineEnd c
def isLetter (c : Char) : Bool := c.isAlpha
def isAlnum (c : Char) : Bool := c.isAlphanum

namespace Source
variable (s : Source)

def skipSpace (i : Nat) : Nat := s.skip isInlineSpace i

def eol? (i : Nat) : Option Nat :=
  match s.at? i with
  | none => some i
  | some '\n' => some (i + 1)
  | some '\r' => some (if s.has (i + 1) '\n' then i + 2 else i + 1)
  | some _ => none

def blank? (i : Nat) : Option Nat := s.eol? (s.skipSpace i)

def nextLine (i : Nat) : Nat :=
  match s.find? '\n' i with
  | some j => j + 1
  | none => s.size

def rule? (i : Nat) : Option Nat :=
  match s.at? i with
  | some c =>
    if c == '*' || c == '-' || c == '_' then
      let j := s.skip (fun d => d == c || isSpace d) i
      if 3 ≤ (s.slice i j).count c then s.eol? j else none
    else none
  | none => none

def headingLevel? (i : Nat) : Option Nat :=
  let j := s.skip (· == '#') i
  let level := j - i
  if 1 ≤ level && level ≤ 6 && (s.at? j).all isAsciiSpace then some level else none

def underline? (i : Nat) : Option (Nat × Nat) := do
  let c ← s.at? i
  let level ← if c == '=' then some 1 else if c == '-' then some 2 else none
  let j ← s.blank? (s.skip (· == c) i)
  return (j, level)

def fence? (i : Nat) : Option (Nat × Char) := do
  let c ← s.at? i
  if c == '\x60' || c == '~' then
    let j := s.skip (· == c) i
    if 3 ≤ j - i && !(c == '\x60' && (s.slice j (s.nextLine j)).contains '\x60') then some (j, c)
      else none
  else none

def closingFence? (c : Char) (n i : Nat) : Option Nat :=
  if s.size ≤ i then some i
  else
    let j := s.skip (· == c) i
    if j - i < n then none
    else
      let k := s.skip (· == ' ') j
      (s.eol? k).map fun _ => k

def itemMarker? (i : Nat) : Option (Nat × Char × Nat) := do
  let c ← s.at? i
  let (j, c, n) ←
    if c == '-' || c == '+' || c == '*' then some (i + 1, c, 0)
    else if c.isDigit then
      let j := s.skip (fun d => d.isDigit) i
      let d ← s.at? j
      if j - i ≤ 9 && (d == '.' || d == ')') then
        some (j + 1, d, Nat.ofDigitChars 10 (s.slice i j) 0)
      else none
    else none
  if (s.at? j).all fun d => isSpace d || isLineEnd d then some (j, c, n) else none

def blankTwice (i : Nat) : Bool :=
  match s.blank? i with
  | some j => (s.blank? j).isSome
  | none => false

end Source

inductive Alignment
  | none
  | left
  | center
  | right
  deriving DecidableEq, Repr

namespace Source
variable (s : Source)

structure HeadRow where
  columns : List Alignment
  current : Alignment
  fresh : Bool
  pipe : Bool
  hyphen : Bool
  hyphenHere : Bool

def headRow (i : Nat) (r : HeadRow) : Option (Nat × HeadRow) :=
  if h : i < s.chars.size then
    let c := s.chars[i]
    if isLineEnd c then (s.eol? i).map fun j => (j, r)
    else if c == ' ' then headRow (i + 1) r
    else if c == ':' then
      let a := match r.fresh, r.current with
        | true, .none => .left
        | false, .left => .center
        | false, .none => .right
        | _, a => a
      headRow (i + 1) { r with current := a, fresh := false }
    else if c == '-' then
      headRow (i + 1) { r with fresh := false, hyphen := true, hyphenHere := true }
    else if c == '|' then
      if r.hyphenHere then
        headRow (i + 1)
          { r with
            columns := r.columns ++ [r.current], current := .none, fresh := true, pipe :=
              true, hyphenHere := false }
      else none
    else none
  else some (i, r)
termination_by s.chars.size - i

/-- The delimiter row of a table: the position after it and its columns. A row without a pipe or
without a hyphen is none. -/
def tableHead? (i : Nat) : Option (Nat × List Alignment) := do
  let j := s.skip (· == ' ') i
  if 3 < j - i || s.size ≤ j || s.has j '\t' then none
  else
    let pipe := s.has j '|'
    let (k, r) ← s.headRow (if pipe then j + 1 else j) ⟨[], .none, true, pipe, false, false⟩
    if r.pipe && r.hyphen then some (k, if r.fresh then r.columns else r.columns ++ [r.current])
    else none

def headerColumns (i pipes last : Nat) : Nat :=
  let inner := if s.has (s.skipSpace i) '|' then pipes - 1 else pipes
  if (s.blank? (last + 1)).isSome then inner else inner + 1

/-- The pipes of the line at `i` that no backslash hides: their number, the last one, and the
position after the line. -/
def countPipes (i pipes last : Nat) (hidden : Bool) : Option (Nat × Nat × Nat) :=
  if h : i < s.chars.size then
    let c := s.chars[i]
    if c == '\\' then countPipes (i + 1) pipes last true
    else if c == '|' && !hidden then countPipes (i + 1) (pipes + 1) i false
    else if isLineEnd c then (s.eol? i).map fun j => (pipes, last, j)
    else countPipes (i + 1) pipes last false
  else none
termination_by s.chars.size - i

end Source
end StaticSite.Markdown
