import StaticSite.Markdown.Entity
import StaticSite.Text.Punctuation
import StaticSite.Text.CaseFold

/-! The parts of links and of their definitions: labels, destinations and titles. -/
namespace StaticSite.Markdown

def sameLabel (a b : Text) : Bool := Text.foldCase a == Text.foldCase b

structure Definition where
  label : Text
  target : Text
  title : Text
  deriving Repr

def isLabelEdge (c : Char) : Bool := c == ' ' || c == '\t' || isLineEnd c
def trimLabel (t : Text) : Text := ((t.dropWhile isLabelEdge).reverse.dropWhile isLabelEdge).reverse

namespace Source
variable (s : Source)

def labelSpace (onLine : Nat → Option Nat) (i : Nat) (ended : Bool) : Option Nat :=
  if h : i < s.chars.size then
    if isLineEnd s.chars[i] then
      if ended then none
      else match onLine ((s.eol? i).getD (i + 1)) with
        | some j => if _ : i < j then labelSpace onLine j true else none
        | none => none
    else if isInlineSpace s.chars[i] then labelSpace onLine (i + 1) ended
    else some i
  else some i
termination_by s.chars.size - i

/-- A label from after its opening bracket: the position after the closing one, and the label with
its white space reduced to single spaces. `count` limits it to 999 characters. `onLine` gives the
position after the marks of a further line, if the label may go on there. -/
def labelFrom (onLine : Nat → Option Nat) (inTable : Bool) (i count : Nat) (blank : Bool)
    (done : Text) :
    Option (Nat × Text) :=
  if _ : i < s.chars.size then
    let c := s.chars[i]
    if 1000 ≤ count || c == '[' then none
    else if c == ']' then if blank then none else some (i + 1, trimLabel done.reverse)
    else if c == '\\' then
      match s.at? (i + 1) with
      | some d =>
        if inTable && d == '|' then labelFrom onLine inTable (i + 2) (count + 2) false (d :: done)
        else if inTable && d == '\\' && s.has (i + 2) '|' then
          labelFrom onLine inTable (i + 3) (count + 3) false ('|' :: done)
        else labelFrom onLine inTable (i + 2) (count + 2) false (d :: c :: done)
      | none => none
    else if isAsciiSpace c then
      match s.labelSpace onLine i false with
      | some j =>
        if _ : i < j then labelFrom onLine inTable j (count + (j - i)) blank (' ' :: done) else none
      | none => none
    else labelFrom onLine inTable (i + 1) (count + 1) false (c :: done)
  else none
termination_by s.chars.size - i

def label? (onLine : Nat → Option Nat) (inTable : Bool) (i : Nat) : Option (Nat × Text) :=
  s.labelFrom onLine inTable i 0 true []

/-- The text from `i` to `j` with its backslash escapes and character references resolved. In a
table a doubled backslash before a pipe is not an escape of itself. -/
def unescape (inTable : Bool) (i j : Nat) : Text :=
  if _ : i < j then
    match s.at? i with
    | none => []
    | some c =>
      if c == '\\' then
        if inTable && i + 2 < j && s.has (i + 1) '\\' && s.has (i + 2) '|' then
          '|' :: unescape inTable (i + 3) j
        else match s.at? (i + 1) with
          | some d =>
            if i + 1 < j && Text.isAsciiPunctuation d then d :: unescape inTable (i + 2) j
            else c :: unescape inTable (i + 1) j
          | none => [c]
      else if c == '&' then
        match s.reference? i with
        | some (k, t) =>
          if _ : i < k ∧ k ≤ j then t ++ unescape inTable k j else c :: unescape inTable (i + 1) j
        | none => c :: unescape inTable (i + 1) j
      else if c == '\r' then unescape inTable (i + 1) j
      else c :: unescape inTable (i + 1) j
  else []
termination_by j - i

/-- A destination without angle brackets: parentheses in it balance and nest at most `limit + 1`
deep. -/
def bareTarget (limit i depth : Nat) : Option Nat :=
  if h : i < s.chars.size then
    let c := s.chars[i]
    if c.toNat ≤ 0x20 then if depth = 0 then some i else none
    else if c == '(' then if limit < depth then none else bareTarget limit (i + 1) (depth + 1)
    else if c == ')' then if depth = 0 then some i else bareTarget limit (i + 1) (depth - 1)
    else if c == '\\' && (s.at? (i + 1)).any Text.isAsciiPunctuation then bareTarget limit (i + 2)
      depth
    else bareTarget limit (i + 1) depth
  else if depth = 0 then some i else none
termination_by s.chars.size - i

def angleTarget (i : Nat) : Option Nat :=
  if h : i < s.chars.size then
    let c := s.chars[i]
    if isLineEnd c || c == '<' then none
    else if c == '>' then some i
    else if c == '\\' && (s.at? (i + 1)).any Text.isAsciiPunctuation then angleTarget (i + 2)
    else angleTarget (i + 1)
  else none
termination_by s.chars.size - i

def target? (inTable : Bool) (limit i : Nat) : Option (Nat × Text) :=
  if s.has i '<' then (s.angleTarget (i + 1)).map fun j => (j + 1, s.unescape inTable (i + 1) j)
  else (s.bareTarget limit i 0).map fun j => (j, s.unescape inTable i j)

def titleClose? (c : Char) : Option Char :=
  if c == '"' || c == '\'' then some c else if c == '(' then some ')' else none

/-- The title of a link up to its closing character. `resume` gives, for a line end, where the
text of the next line begins. -/
def linkTitle (resume : Nat → Option Nat) (inTable : Bool) (opening closing : Char) (i : Nat)
    (done : Text) :
    Option (Nat × Text) :=
  if h : i < s.chars.size then
    let c := s.chars[i]
    if c == closing then some (i + 1, done.reverse)
    else if c == opening then none
    else match (if isLineEnd c then resume i else none) with
      | some j =>
        if _ : i < j then linkTitle resume inTable opening closing j ('\n' :: done) else none
      | none =>
        match (if c == '&' then s.reference? i else none) with
        | some (j, t) =>
          if _ : i < j then linkTitle resume inTable opening closing j (t.reverse ++ done) else none
        | none =>
          if c == '\\' && inTable && s.has (i + 1) '\\' && s.has (i + 2) '|' then
            linkTitle resume inTable opening closing (i + 3) ('|' :: done)
          else if c == '\\' then
            match s.at? (i + 1) with
            | some d =>
              if Text.isAsciiPunctuation d then linkTitle resume inTable opening closing (i + 2)
                (d :: done)
              else linkTitle resume inTable opening closing (i + 1) (c :: done)
            | none => none
          else linkTitle resume inTable opening closing (i + 1) (c :: done)
  else none
termination_by s.chars.size - i

def definitionTitleEnd (closing : Char) (i : Nat) : Option Nat :=
  if h : i < s.chars.size then
    let c := s.chars[i]
    if c == closing then some i
    else if c == '\n' then
      let j := max (i + 1) (s.skipSpace (i + 1))
      if s.size ≤ j || s.has j '\n' then none else definitionTitleEnd closing j
    else if c == '\\' then definitionTitleEnd closing (i + 2)
    else definitionTitleEnd closing (i + 1)
  else none
termination_by s.chars.size - i

def definitionTitle? (inTable : Bool) (i : Nat) : Option (Nat × Text) := do
  let c ← s.at? i
  let closing ← titleClose? c
  let j ← s.definitionTitleEnd closing (i + 1)
  return (j + 1, s.unescape inTable (i + 1) j)

end Source
end StaticSite.Markdown
