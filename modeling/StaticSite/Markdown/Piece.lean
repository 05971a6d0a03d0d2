import StaticSite.Markdown.Entity
import StaticSite.Text.Punctuation

/-! The pieces of a line: what might be markup, and the text between. A piece only says where it
stands; what it means is decided when the whole block is known. -/
namespace StaticSite.Markdown

inductive Mark
  | text
  | softBreak
  | hardBreak
  | run (c : Char) (count : Nat) (opens closes : Bool)
  | ticks (count : Nat) (escaped : Bool)
  | angle
  | openBracket
  | openImage
  | closeBracket (mayRefer : Bool)
  | literal (t : Text)
  deriving DecidableEq, Repr

structure Piece where
  start : Nat
  stop : Nat
  mark : Mark
  deriving DecidableEq, Repr

inductive Pipes
  | plain
  | hint
  | cell
  deriving DecidableEq, Repr

/-- How a line ends. After `backslash` the break's piece begins at the backslash. -/
inductive Ending
  | last
  | soft (place : Nat)
  | spaces (place : Nat)
  | backslash (place : Nat)
  | table (columns : List Alignment)
  deriving DecidableEq, Repr

structure Line where
  pieces : List Piece
  next : Nat
  ending : Ending

def Line.breakPiece? (l : Line) : Option Piece :=
  match l.ending with
  | .soft i => some ⟨i, l.next, .softBreak⟩
  | .spaces i => some ⟨i, l.next, .hardBreak⟩
  | .backslash i => some ⟨i, l.next, .hardBreak⟩
  | _ => none

namespace Source
variable (s : Source)

def afterPipe (i : Nat) : Bool := s.has (i - 1) '|' && !(2 ≤ i && s.has (i - 2) '\\')

def runOpens (start i n : Nat) (pipes : Pipes) : Bool :=
  match s.at? (i + n), s.at? i with
  | some next, some c =>
    if Text.isBlank next then false
    else if i ≤ start then true
    else if pipes == .cell && s.afterPipe i then true
    else if pipes == .cell && next == '|' then false
    else if c == '*' && !Text.isPunctuation next then true
    else if c == '~' && 1 < n then true
    else (s.at? (i - 1)).any fun before =>
      (c == '~' && before == '~' && !Text.isPunctuation next) || Text.isBlank before ||
        Text.isPunctuation before
  | _, _ => false

def runCloses (start i n : Nat) (pipes : Pipes) : Bool :=
  if i ≤ start then false
  else match s.at? (i - 1), s.at? i with
    | some before, some c =>
      if Text.isBlank before then false
      else match s.at? (i + n) with
        | none => true
        | some next =>
          if pipes == .cell && s.afterPipe i then false
          else if pipes == .cell && next == '|' then true
          else if (c == '*' || (c == '~' && 1 < n)) && !Text.isPunctuation before then true
          else if c == '~' && before == '~' then true
          else Text.isBlank next || Text.isPunctuation next
    | _, _ => false

end Source

def addText (i j : Nat) (pieces : List Piece) : List Piece :=
  if i < j then ⟨i, j, .text⟩ :: pieces else pieces

/-- Reads the line at `start`. `enter?` gives the position after the marks of the open containers
on a line, if they are all there. -/
def readLine (s : Source) (enter? : Nat → Option Nat) (pipes : Pipes) (start : Nat) : Line :=
  go start start 0 start []
where
  finish (i low : Nat) (done : List Piece) : Line :=
    ⟨(addText low (s.skipBack isInlineSpace low i) done).reverse, i, .last⟩
  finishAt (i next low count lastPipe : Nat) (done : List Piece) : Line :=
    match table? i next count lastPipe start with
    | some (after, columns) => ⟨done.reverse, after, .table columns⟩
    | none =>
      if (i - s.skipBack (· == '\\') 0 i) % 2 == 1 && next < s.size then
        ⟨(addText low (i - 1) done).reverse, next, .backslash (i - 1)⟩
      else
        let j := s.skipBack isInlineSpace low i
        let done := (addText low j done).reverse
        if 2 ≤ i - j then ⟨done, next, .spaces j⟩ else ⟨done, next, .soft i⟩
  table? (_i next count lastPipe start : Nat) : Option (Nat × List Alignment) := do
    if pipes == .hint && 0 < count then
      let j ← enter? next
      let (after, columns) ← s.tableHead? j
      if columns.length == s.headerColumns start count lastPipe then some (after, columns) else none
    else none
  go (i low count lastPipe : Nat) (done : List Piece) : Line :=
    if h : i < s.chars.size then
      let c := s.chars[i]
      if isLineEnd c then
        if pipes == .cell then finish i low done
        else finishAt i ((s.eol? i).getD (i + 1)) low count lastPipe done
      else if c == '\\' then
        match s.at? (i + 1) with
        | some d =>
          if !Text.isAsciiPunctuation d then go (i + 1) low count lastPipe done
          else if d == '\x60' then
            let j := max (i + 2) (s.skip (· == '\x60') (i + 2))
            go j j count lastPipe (⟨i + 1, j, .ticks (j - (i + 1)) true⟩ :: addText low i done)
          else if pipes == .cell && d == '\\' && s.has (i + 2) '|' then
            go (i + 3) (i + 2) count lastPipe (addText low i done)
          else go (i + 2) (i + 1) count lastPipe (addText low i done)
        | none => go (i + 1) low count lastPipe done
      else if c == '*' || c == '_' || c == '~' then
        let j := max (i + 1) (s.skip (· == c) (i + 1))
        let opens := s.runOpens start i (j - i) pipes
        let closes := s.runCloses start i (j - i) pipes
        if (opens || closes) && !(c == '~' && 2 < j - i) then
          go j j count lastPipe (⟨i, j, .run c (j - i) opens closes⟩ :: addText low i done)
        else go j low count lastPipe done
      else if c == '\x60' then
        let j := max (i + 1) (s.skip (· == '\x60') (i + 1))
        go j j count lastPipe (⟨i, j, .ticks (j - i) false⟩ :: addText low i done)
      else if c == '<' && !s.has (i + 1) '\\' then
        go (i + 1) (i + 1) count lastPipe (⟨i, i + 1, .angle⟩ :: addText low i done)
      else if c == '!' && s.has (i + 1) '[' then
        go (i + 2) (i + 2) count lastPipe (⟨i, i + 2, .openImage⟩ :: addText low i done)
      else if c == '[' then
        go (i + 1) (i + 1) count lastPipe (⟨i, i + 1, .openBracket⟩ :: addText low i done)
      else if c == ']' then
        go (i + 1) (i + 1) count lastPipe (⟨i, i + 1, .closeBracket true⟩ :: addText low i done)
      else if c == '&' then
        match s.reference? i with
        | some (j, t) =>
          let j := max (i + 1) j
          go j j count lastPipe (⟨i, j, .literal t⟩ :: addText low i done)
        | none => go (i + 1) low count lastPipe done
      else if c == '|' then
        if pipes == .cell then finish i low done
        else go (i + 1) low (count + 1) i done
      else go (i + 1) low count lastPipe done
    else finish i low done
  termination_by s.chars.size - i
  decreasing_by all_goals omega

end StaticSite.Markdown
