import StaticSite.Markdown.Inline

/-! The blocks of a document, read line by line. A line first passes the marks of the containers
that are open, then may open new ones, and what is left begins or continues a block. -/
namespace StaticSite.Markdown

inductive Block
  | paragraph (tight : Bool) (text : Leaf)
  | heading (level : Nat) (text : Leaf)
  | rule
  | code (info : Option Text) (content : Text)
  | html (content : Text)
  | table (columns : List Alignment) (head : List Leaf) (rows : List (List Leaf))
  | quote (content : List Block)
  | list (first : Option Nat) (items : List Block)
  | item (content : List Block)
  | note (label : Text) (content : List Block)

def Block.tighten : Block → Block
  | .paragraph _ text => .paragraph true text
  | b => b

def Block.tightenItem : Block → Block
  | .item content => .item (content.map Block.tighten)
  | b => b

def Container.block (content : List Block) : Container → Block
  | .quote => .quote content
  | .list tight delimiter first =>
    .list (if delimiter == '.' || delimiter == ')' then some first else none)
      (if tight then content.map Block.tightenItem else content)
  | .item _ => .item content
  | .note label => .note label content

structure Open where
  kind : Container
  content : List Block

/-- `openings` are the open containers, innermost first. `emptyItem` holds from the marker of an
item without content until it gets some, and `blank` after a blank line that may make a list
loose. -/
structure Reader where
  openings : List Open
  content : List Block
  emptyItem : Bool
  blank : Bool
  links : List Definition
  notes : List Text

namespace Reader

def empty : Reader := ⟨[], [], false, false, [], []⟩

def within (r : Reader) : List Container := r.openings.reverse.map (·.kind)

def append (r : Reader) (b : Block) : Reader :=
  match r.openings with
  | [] => { r with content := b :: r.content }
  | o :: os => { r with openings := { o with content := b :: o.content } :: os }

def openContainer (r : Reader) (c : Container) : Reader :=
  { r with openings := ⟨c, []⟩ :: r.openings }

def close (r : Reader) : Reader :=
  match r.openings with
  | [] => r
  | o :: os =>
    let emptyItem := match o.kind with
      | .list true _ _ => false
      | _ => r.emptyItem
    ({ r with openings := os, emptyItem }).append (o.kind.block o.content.reverse)

def closeMany (r : Reader) : Nat → Reader
  | 0 => r
  | n + 1 => r.close.closeMany n

def inner? (r : Reader) : Option Container := r.openings.head?.map (·.kind)

def loosen : List Open → List Open
  | ⟨.list _ d n, content⟩ :: os => ⟨.list false d n, content⟩ :: os
  | os => os

/-- An item can begin with at most one blank line: after that it stays empty. -/
def finishEmptyItem (r : Reader) : Reader :=
  let r := match r.emptyItem && r.blank, r.inner? with
    | true, some (.item _) => r.close
    | _, _ => r
  { r with emptyItem := false }

/-- Before a block that is no item: closes an open list, and a blank line before a block of an item
makes the item's list loose. -/
def finishList (r : Reader) : Reader :=
  let r := r.finishEmptyItem
  let r := match r.inner? with
    | some (.list _ _ _) => r.close
    | _ => r
  if r.blank then
    let openings := match r.openings with
      | o :: os => o :: loosen os
      | [] => []
    { r with openings, blank := false }
  else r

def continueList (r : Reader) (delimiter : Char) (first : Nat) : Reader :=
  let r := r.finishEmptyItem
  let goesOn := match r.inner? with
    | some (.list _ d _) => d == delimiter
    | _ => false
  if goesOn then
    if r.blank then { r with openings := loosen r.openings, blank := false } else r
  else r.finishList.openContainer (.list true delimiter first)

variable (s : Source)

/-- Whether the text at `i` begins a block that needs no blank line before it. `current` tells that
the line belongs to the innermost container; only then are some of them held back. -/
def interrupts (current inTable : Bool) (i : Nat) : Bool :=
  (s.eol? i).isSome || (s.rule? i).isSome || (s.headingLevel? i).isSome || (s.fence? i).isSome ||
    s.has i '>' ||
    (match s.itemMarker? i with
      | some (j, c, n) =>
        !current || inTable || ((c == '-' || c == '+' || c == '*' || n == 1) && !s.blankTwice j)
      | none => false) ||
    (s.has i '<' && ((s.blockEnd? i).isSome || s.opensBlockElement i)) ||
    (s.starts i ['[', '^'] &&
      match s.label? (fun _ => none) inTable (i + 2) with
      | some (j, _) => s.has j ':'
      | none => false)

def tableAt (r : Reader) (i : Nat) : Bool :=
  s.has i '|' &&
    match s.countPipes i 0 i false with
    | some (count, last, next) =>
      match passMarks? s r.within next with
      | some j =>
        match s.tableHead? j with
        | some (_, columns) => columns.length == s.headerColumns i count last
        | none => false
      | none => false
    | none => false

def breaksParagraph (r : Reader) (current : Bool) (i : Nat) : Bool :=
  interrupts s current false i || r.tableAt s i

/-- Whether all open containers continue on the line at `i`, and the margin after their marks. -/
def margin (r : Reader) (i : Nat) : Bool × Margin :=
  let (n, m) := enter s r.within (.start i)
  (n == r.openings.length, m)

def labelLine (r : Reader) (i : Nat) : Option Nat :=
  let (current, m) := r.margin s i
  if r.breaksParagraph s current m.pos || (current && (s.underline? m.pos).isSome) then none
  else some m.pos

def definitionSpace (r : Reader) (i : Nat) : Option (Nat × Bool) :=
  let j := s.skipSpace i
  match s.eol? j with
  | none => some (j, false)
  | some k =>
    let (current, m) := r.margin s k
    let stops := match m.take? s 4 with
      | some _ => false
      | none =>
        let m := (m.take s 4).2
        r.breaksParagraph s current m.pos || (current && (s.underline? m.pos).isSome)
    if stops then none
    else
      let j := s.skipSpace m.pos
      if (s.eol? j).isSome && j < s.size then none else some (j, true)

def definition? (r : Reader) (i : Nat) : Option (Nat × Definition) := do
  if !s.has i '[' then none
  else
    let (j, label) ← s.label? (r.labelLine s) false (i + 1)
    if !s.has j ':' then none
    else
      let (j, _) ← r.definitionSpace s (j + 1)
      let (j', target) ← s.target? false 1 j
      if j' = j then none
      else
        let plain : Nat × Definition := (j', ⟨label, target, []⟩)
        match r.definitionSpace s j' with
        | none => some plain
        | some (k, ended) =>
          if s.size ≤ k then some plain
          else if k = j' then none
          else
            let title := match s.definitionTitle? false k with
              | some (l, t) => if (s.blank? l).isSome then some (l, t) else none
              | none => none
            match title with
            | some (l, t) => some (l, ⟨label, target, t⟩)
            | none => if ended then some plain else none

def rawLine (i j : Nat) : Text :=
  if 2 ≤ j && s.has (j - 2) '\r' then s.slice i (j - 2) ++ s.slice (j - 1) j else s.slice i j

def spaces (n : Nat) : Text := List.replicate n ' '

def fencedLines (r : Reader) (c : Char) (n indent i : Nat) (done : Text) : Nat × Text :=
  let (current, m) := r.margin s i
  if !current then (i, done)
  else
    let m := (m.take s indent).2
    let closing := match m.take? s 4 with
      | some _ => none
      | none => s.closingFence? c n (m.take s 4).2.pos
    match closing with
    | some j => (j, done)
    | none =>
      let j := s.nextLine m.pos
      let done := done ++ spaces m.spare ++ rawLine s m.pos j
      if _ : i < j ∧ i < s.chars.size then fencedLines r c n indent j done else (j, done)
termination_by s.chars.size - i
decreasing_by all_goals simp +zetaDelta only [] at *; omega

def fencedCode (r : Reader) (i indent : Nat) (c : Char) (n : Nat) : Reader × Nat :=
  let start := s.skipSpace (i + n)
  let line := s.nextLine start
  let stop := s.skipBack isAsciiSpace start line
  let (j, content) := r.fencedLines s c n indent line []
  (r.append (.code (some (s.unescape false start stop)) content), (s.blank? j).getD j)

/-- Lines of indented code: `done` is what is kept, `held` the blank lines after it. Also tells
whether the last line read is blank. -/
def indentedLines (r : Reader) (i spare : Nat) (blank : Bool) (done held : Text) :
    Nat × Text × Bool :=
  let j := s.nextLine i
  let line := spaces spare ++ rawLine s i j
  let (done, held) := if blank then (done, held ++ line) else (done ++ held ++ line, [])
  let (current, m) := r.margin s j
  let next? := if current then (match m.take s 4 with
    | (left, after) => if left == 0 || after.atEol s then some after else none) else none
  match next? with
  | some m =>
    if s.size ≤ m.pos then (j, done, blank)
    else if _ : i < m.pos ∧ i < s.chars.size then
      indentedLines r m.pos m.spare (s.blank? m.pos).isSome done held
    else (j, done, blank)
  | none => (j, done, blank)
termination_by s.chars.size - i
decreasing_by all_goals omega

def indentedCode (r : Reader) (i spare : Nat) : Reader × Nat :=
  let (j, content, blank) := r.indentedLines s i spare false [] []
  ({ r with blank }.append (.code none content), j)

def htmlLines (r : Reader) (last? : Option Text) (i spare : Nat) (done : Text) : Nat × Text :=
  let j := s.nextLine i
  let done := done ++ spaces spare ++ rawLine s i j
  let (current, m) := r.margin s j
  let ends := !current ||
    match last? with
    | some w => Text.occursIn w (s.slice i j)
    | none => m.atEol s || (s.blank? m.pos).isSome
  if ends || s.size ≤ m.pos then (j, done)
  else if _ : i < m.pos ∧ i < s.chars.size then htmlLines r last? m.pos m.spare done
  else (j, done)
termination_by s.chars.size - i
decreasing_by all_goals omega

def htmlBlock (r : Reader) (last? : Option Text) (i spare : Nat) : Reader × Nat :=
  let (j, content) := r.htmlLines s last? i spare []
  (r.append (.html content), j)

def leaf (r : Reader) (pieces : List Piece) (stop : Nat) (inTable : Bool) : Leaf :=
  ⟨pieces, stop, r.within, inTable⟩

def readLine (r : Reader) (pipes : Pipes) (i : Nat) : Line :=
  Markdown.readLine s (passMarks? s r.within) pipes i

/-- Where the text of a heading ends that starts at `start` and whose line ends at `stop`: closing
number signs after a space do not belong to it. -/
def headingEnd (start stop : Nat) : Nat :=
  let limit := s.skipBack (fun c => isLineEnd c || c == ' ') start stop
  let closer := s.skipBack (· == '#') start limit
  if closer ≤ start then start
  else
    let spaces := s.skipBack (· == ' ') start closer
    if spaces < closer then spaces else limit

def heading (r : Reader) (i level : Nat) : Reader × Nat :=
  match s.eol? (i + level) with
  | some j => (r.append (.heading level (r.leaf [] j false)), j)
  | none =>
    let start := s.skipSpace (i + level)
    let line := r.readLine s .plain start
    let pieces := match line.pieces.getLast? with
      | some p => line.pieces.dropLast ++ [{ p with stop := headingEnd s start line.next }]
      | none => []
    (r.append (.heading level (r.leaf pieces line.next false)), line.next)

def rowCells (r : Reader) (i : Nat) (done : List Leaf) : Nat × List Leaf :=
  let i' := if s.has i '|' then i + 1 else i
  let start := s.skipSpace i'
  match s.eol? start with
  | some j => (j, done.reverse)
  | none =>
    let line := r.readLine s .cell start
    if _ : i < line.next ∧ i < s.chars.size then
      rowCells r line.next (r.leaf line.pieces line.next true :: done)
    else (line.next, done.reverse)
termination_by s.chars.size - i
decreasing_by all_goals simp +zetaDelta only [] at *; omega

def fitCells (r : Reader) (n stop : Nat) (cells : List Leaf) : List Leaf :=
  cells.take n ++ List.replicate (n - cells.length) (r.leaf [] stop true)

def tableRows (r : Reader) (n i : Nat) (done : List (List Leaf)) : Nat × List (List Leaf) :=
  let (current, m) := r.margin s i
  let start := (m.skipSpaces s).pos
  if !current || interrupts s current true start || (s.blank? start).isSome then (i, done.reverse)
  else
    let (j, cells) := r.rowCells s start []
    if cells.isEmpty then (i, done.reverse)
    else if _ : i < j ∧ i < s.chars.size then tableRows r n j (r.fitCells n j cells :: done)
    else (i, done.reverse)
termination_by s.chars.size - i
decreasing_by all_goals omega

def table (r : Reader) (columns : List Alignment) (head body : Nat) : Reader × Nat :=
  let (j, cells) := r.rowCells s head []
  let (next, rows) := r.tableRows s columns.length body []
  (r.append (.table columns (r.fitCells columns.length j cells) rows), next)

def paragraphLines (r : Reader) (first i : Nat) (done : List Piece) : Reader × Nat :=
  let line := r.readLine s (if i = first then .hint else .plain) i
  match line.ending with
  | .table columns => r.table s columns first line.next
  | _ =>
    let pieces := done ++ line.pieces
    let stray := match line.ending with
      | .backslash j => [⟨j, j + 1, .text⟩]
      | _ => []
    let next := line.next
    let (current, m) := r.margin s next
    let stop := (r.append (.paragraph false (r.leaf (pieces ++ stray) next false)), next)
    let (left, after) := m.take s 4
    match (if left ≠ 0 && current then s.underline? after.pos else none) with
    | some (j, level) => (r.append (.heading level (r.leaf (pieces ++ stray) j false)), j)
    | none =>
      if left ≠ 0 && r.breaksParagraph s current after.pos then stop
      else
        let after := after.skipSpaces s
        if after.atEol s then stop
        else if _ : i < after.pos ∧ i < s.chars.size then
          paragraphLines r first after.pos (pieces ++ line.breakPiece?.toList)
        else stop
termination_by s.chars.size - i
decreasing_by all_goals simp +zetaDelta only [] at *; omega

def note? (i : Nat) : Option (Text × Nat) := do
  if !s.starts i ['[', '^'] then none
  else
    let (j, label) ← s.label? (fun _ => none) false (i + 2)
    if s.has j ':' then some (label, s.skipSpace (j + 1)) else none

def openNote (r : Reader) (label : Text) : Reader :=
  let r := r.finishList
  let r := match r.inner? with
    | some (.note _) => r.close
    | _ => r
  { r.openContainer (.note label) with notes := label :: r.notes }

def openContainers (r : Reader) (m : Margin) : Nat → Reader × (Margin ⊕ Nat)
  | 0 => (r, .inl m)
  | fuel + 1 =>
    let (left, after) := m.take s 4
    if left = 0 then (r, .inl m)
    else match note? s after.pos with
      | some (label, j) => openContainers (r.openNote label) (.start j) fuel
      | none =>
        match after.takeMarker? s (4 - left) with
        | some (next, c, n, column) =>
          let r := (r.continueList c n).openContainer (.item column)
          match s.blank? next.pos with
          | some j => ({ r with emptyItem := true }, .inr j)
          | none => openContainers r next fuel
        | none =>
          match after.takeQuote? s with
          | some next => openContainers (r.finishList.openContainer .quote) next fuel
          | none => (r, .inl m)

def blankLine (r : Reader) : Reader :=
  match r.openings with
  | [] => r
  | o :: os =>
    match o.kind with
    | .quote => r
    | .item _ =>
      { r with blank := true, openings :=
        if r.emptyItem then { o with kind := .item 0 } :: os else r.openings }
    | _ => { r with blank := true }

def readBlock (r : Reader) (i : Nat) : Reader × Nat :=
  let (n, m) := enter s r.within (.start i)
  let r := r.closeMany (r.openings.length - n)
  match r.openContainers s m (s.size - i + 1) with
  | (r, .inr j) => (r, j)
  | (r, .inl m) =>
    match s.blank? m.pos with
    | some j => (r.blankLine, j)
    | none =>
      let r := r.finishList
      let spare := m.spare
      let (left, m) := m.take s 4
      if left = 0 then r.indentedCode s m.pos m.spare
      else
        let indent := 4 - left
        let i := m.pos
        let margin := max spare indent
        match (if s.has i '<' then s.blockEnd? i else none) with
        | some w => r.htmlBlock s (some w) i margin
        | none =>
          if s.has i '<' && (s.opensBlockElement i || s.tagAlone i) then r.htmlBlock s none i margin
          else match s.rule? i with
            | some j => (r.append .rule, j)
            | none =>
              match s.headingLevel? i with
              | some level => r.heading s i level
              | none =>
                match s.fence? i with
                | some (j, c) => r.fencedCode s i indent c (j - i)
                | none =>
                  match r.definition? s i with
                  | some (j, d) => ({ r with links := r.links ++ [d] }, (s.blank? j).getD j)
                  | none => r.paragraphLines s i i []

def readBlocks (r : Reader) (i : Nat) : Nat → Reader
  | 0 => r
  | fuel + 1 => if i < s.size then let (r, j) := r.readBlock s i; readBlocks r j fuel else r

end Reader

def readDocument (s : Source) : List Block × Definitions :=
  let r := Reader.empty.readBlocks s 0 (s.size + 1)
  let r := r.closeMany r.openings.length
  (r.content.reverse, ⟨r.links, r.notes⟩)

end StaticSite.Markdown
