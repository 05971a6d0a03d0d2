import StaticSite.Markdown.Source

/-! The left margin of a line, where a tab may be used up in part: a container takes the columns
that it needs, and the rest of the tab counts as spaces. -/
namespace StaticSite.Markdown

/-- `pos` is the next character, `tabFrom` where columns are counted from, and `spare` the columns
of the last tab that nobody took. -/
structure Margin where
  pos : Nat
  tabFrom : Nat
  spare : Nat
  deriving Repr

namespace Margin

def start (i : Nat) : Margin := ⟨i, i, 0⟩

def take (s : Source) (n : Nat) (m : Margin) : Nat × Margin :=
  let k := min m.spare n
  go (n - k) { m with spare := m.spare - k }
where
  go (n : Nat) (m : Margin) : Nat × Margin :=
    if _h : n = 0 then (0, m)
    else match s.at? m.pos with
      | some ' ' => go (n - 1) { m with pos := m.pos + 1 }
      | some '\t' =>
        let width := 4 - (m.pos - m.tabFrom) % 4
        go (n - width) ⟨m.pos + 1, m.pos + 1, width - n⟩
      | _ => (n, m)
  termination_by n
  decreasing_by all_goals omega

def take? (s : Source) (n : Nat) (m : Margin) : Option Margin :=
  match m.take s n with
  | (0, m) => some m
  | _ => none

def atEol (s : Source) (m : Margin) : Bool := (s.at? m.pos).all isLineEnd

def takeChar? (s : Source) (c : Char) (m : Margin) : Option Margin :=
  if s.has m.pos c then some { m with pos := m.pos + 1 } else none

def takeQuote? (s : Source) (m : Margin) : Option Margin :=
  (m.takeChar? s '>').map fun m => (m.take s 1).2

def skipSpaces (s : Source) (m : Margin) : Margin :=
  { m with pos := s.skip isSpace m.pos, spare := 0 }

/-- The end of a list marker: `width` columns up to and with its one space. Content that starts
five columns or more to the right is code, so those columns stay. -/
def closeMarker (s : Source) (width : Nat) (m : Margin) : Margin × Nat :=
  if (s.blank? m.pos).isSome then (m, width)
  else match m.take s 4 with
    | (0, _) => (m, width)
    | (left, after) => (after, width + (4 - left))

/-- A list marker `indent` columns to the right: the margin after it, the delimiter, the number and
the column of the item's content. -/
def takeMarker? (s : Source) (indent : Nat) (m : Margin) : Option (Margin × Char × Nat × Nat) := do
  let c ← s.at? m.pos
  let (next, c, n) ←
    if c == '-' || c == '+' || c == '*' then
      if (s.rule? m.pos).isSome then none else some (m.pos + 1, c, 0)
    else if c.isDigit then
      let j := s.skip (fun d => d.isDigit) m.pos
      let d ← s.at? j
      if j - m.pos ≤ 9 && (d == '.' || d == ')') then
        some (j + 1, d, Nat.ofDigitChars 10 (s.slice m.pos j) 0)
      else none
    else none
  let width := indent + (next - m.pos) + 1
  let after := { m with pos := next }
  let (left, spaced) := after.take s 1
  if left == 0 || spaced.atEol s then
    let (m, column) := spaced.closeMarker s width
    return (m, c, n, column)
  else none

end Margin
end StaticSite.Markdown
