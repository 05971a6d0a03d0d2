import StaticSite.Markdown.Margin

/-! Containers of blocks, and the marks by which a line shows that it belongs to them. -/
namespace StaticSite.Markdown

inductive Container
  | quote
  | list (tight : Bool) (delimiter : Char) (first : Nat)
  | item (column : Nat)
  | note (label : Text)
  deriving DecidableEq, Repr

/-- Passes `column` columns of space. A blank line need not have them. -/
def Margin.indent? (s : Source) (column : Nat) (m : Margin) : Option Margin :=
  let (left, after) := m.take s column
  if left == 0 || after.atEol s then some after else none

def Container.enter? (s : Source) (m : Margin) : Container → Option Margin
  | .quote => (m.take s 3).2.takeQuote? s
  | .list _ _ _ => some m
  | .item column => m.indent? s column
  | .note _ => m.indent? s 4

/-- Passes the marks of containers, outermost first, until one is missing: how many are there, and
the margin after them. -/
def enter (s : Source) : List Container → Margin → Nat × Margin
  | [], m => (0, m)
  | c :: cs, m =>
    match c.enter? s m with
    | some m => let (n, m) := enter s cs m; (n + 1, m)
    | none => (0, m)

def skipMarks (s : Source) (cs : List Container) (i : Nat) : Nat := (enter s cs (.start i)).2.pos

def passMarks? (s : Source) (cs : List Container) (i : Nat) : Option Nat :=
  match enter s cs (.start i) with
  | (n, m) => if n = cs.length then some m.pos else none

end StaticSite.Markdown
