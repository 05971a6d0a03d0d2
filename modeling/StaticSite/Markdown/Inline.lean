import StaticSite.Markdown.Container
import StaticSite.Markdown.Piece
import StaticSite.Markdown.Tag
import StaticSite.Markdown.Link

/-! From the pieces of a block to its inline content. Code, HTML and addresses bind tightest, links
come next, and emphasis is decided last, apart on each level of links. -/
namespace StaticSite.Markdown

/-- In `run`, `tail` is text that the run's piece holds after it. It is kept where the run's last
delimiter is kept. -/
inductive Inline
  | text (t : Text)
  | code (t : Text)
  | html (t : Text)
  | softBreak
  | hardBreak
  | run (c : Char) (count : Nat) (opens closes : Bool) (tail : Text)
  | emphasis (content : List Inline)
  | strong (content : List Inline)
  | deleted (content : List Inline)
  | link (mail : Bool) (target title : Text) (content : List Inline)
  | image (target title : Text) (content : List Inline)
  | noteRef (label : Text)

structure Opener where
  c : Char
  count : Nat
  length : Nat
  both : Bool
  tail : Text
  before : List Inline

/-- A closing run of `n` matches unless it or the opener could be either and the lengths add up to
a multiple of three without both being one. Tildes match runs of the same length only. -/
def Opener.matchesRun (o : Opener) (c : Char) (n : Nat) (both : Bool) : Bool :=
  o.c == c && (c != '~' || n == o.length) &&
    ((!both && !o.both) || (n + o.length) % 3 != 0 || n % 3 == 0)

def Opener.asText (o : Opener) (content : List Inline) : List Inline :=
  content ++ .text (List.replicate o.count o.c ++ o.tail) :: o.before

/-- Tildes that close nothing leave all tildes before them as text. -/
def Opener.retire (c : Char) (o : Opener) : Opener :=
  if c == '~' && o.c == '~' then { o with length := 0 } else o

/-- Splits the openers, innermost first, at the first match. The ones inside it become text. -/
def matchOpener (c : Char) (n : Nat) (both : Bool) :
    List Opener → List Inline → Option (Opener × List Opener × List Inline)
  | [], _ => none
  | o :: os, content =>
    if o.matchesRun c n both then some (o, os, content)
    else matchOpener c n both os (o.asText content)

def wrap (c : Char) (n : Nat) (content : List Inline) : List Inline :=
  match n with
  | 0 => content
  | 1 => if c == '~' then [.deleted content] else [.emphasis content]
  | n + 2 => wrap c n (if c == '~' then [.deleted content] else [.strong content])

/-- Closes openers with what is left, `left`, of a run of `n` delimiters; content is kept last
first. -/
def closeRun (c : Char) (n : Nat) (both : Bool) (left : Nat) (openers : List Opener)
    (content : List Inline) :
    Nat × List Opener × List Inline :=
  if left = 0 then (0, openers, content)
  else match matchOpener c n both openers content with
    | none => (left, openers.map (·.retire c), content)
    | some (o, os, inner) =>
      let used := max 1 (min left o.count)
      let node := wrap c used inner.reverse
      if used < o.count then
        closeRun c n both (left - used) ({ o with count := o.count - used } :: os) node
      else closeRun c n both (left - used) os (node ++ o.before)
termination_by left
decreasing_by all_goals omega

def resolveRuns (siblings : List Inline) : List Inline := go [] [] siblings
where
  go (openers : List Opener) (done : List Inline) : List Inline → List Inline
    | [] => (openers.foldl (fun content o => o.asText content) done).reverse
    | .run c n opens closes tail :: rest =>
      let both := opens && closes
      let (left, openers, done) := if closes then closeRun c n both n openers done
        else (n, openers, done)
      if left = 0 then go openers done rest
      else if opens then go (⟨c, left, n, both, tail, done⟩ :: openers) [] rest
      else go openers (.text (List.replicate left c ++ tail) :: done) rest
    | x :: rest => go openers (x :: done) rest

structure Leaf where
  pieces : List Piece
  stop : Nat
  within : List Container
  inTable : Bool

structure Definitions where
  links : List Definition
  notes : List Text

def Definitions.link? (d : Definitions) (label : Text) : Option Definition :=
  d.links.find? fun x => sameLabel x.label label

def Definitions.hasNote (d : Definitions) (label : Text) : Bool := d.notes.any (sameLabel label)

/-- An opening bracket that waits for its closing one. It is idle once a link has closed inside
it. -/
structure Bracket where
  image : Bool
  idle : Bool
  piece : Piece
  before : List Inline

inductive Label
  | link (t : Text)
  | note (t : Text)

section Reading
variable (src : Source) (defs : Definitions) (leaf : Leaf)

def Leaf.label? (i : Nat) : Option (Nat × Label) :=
  if src.has i '[' then
    let note :=
      if src.has (i + 1) '^' && !src.has (i + 2) ']' then src.label? (fun _ => none) leaf.inTable
        (i + 2) else none
    match note with
    | some (j, t) => some (j, .note t)
    | none =>
      (src.label? (fun k => some (skipMarks src leaf.within k)) leaf.inTable (i + 1)).map
        fun (j, t) => (j, .link t)
  else none

def Leaf.separator (i : Nat) : Nat :=
  let j := src.skipSpace i
  match src.eol? j with
  | some k => src.skipSpace (skipMarks src leaf.within k)
  | none => j

def piecesFrom (i : Nat) (pieces : List Piece) : List Piece :=
  match pieces.dropWhile (·.stop ≤ i) with
  | [] => []
  | p :: ps => { p with start := max p.start i } :: ps

def Leaf.inlineTarget? (i : Nat) (rest : List Piece) : Option (Nat × Text × Text) := do
  if !src.has i '(' then none
  else
    let i := leaf.separator src (i + 1)
    let (i, target) ← src.target? leaf.inTable 5 i
    let i := leaf.separator src i
    let resume := fun k => match rest.find? (fun p => k + 1 < p.stop) with
      | some p => if k < p.start then some p.start else none
      | none => none
    let title := do
      let c ← src.at? i
      let closing ← Source.titleClose? c
      src.linkTitle resume leaf.inTable c closing (i + 1) []
    let (i, title) := match title with
      | some (j, t) => (leaf.separator src j, t)
      | none => (i, [])
    if src.has i ')' then some (i + 1, target, title) else none

/-- Line ends in code count as spaces, and marks of containers do not count. -/
def Leaf.codeText (i j : Nat) : Text :=
  if _ : i < j then
    match src.at? i with
    | none => []
    | some c =>
      if isLineEnd c then
        let k := (src.eol? i).getD (i + 1)
        ' ' :: codeText (max (i + 1) (skipMarks src leaf.within k)) j
      else if c == '\\' && leaf.inTable && src.has (i + 1) '|' then '|' :: codeText (i + 2) j
      else c :: codeText (i + 1) j
  else []
termination_by j - i

/-- One space is dropped at each end of code, if both are there and something else is. -/
def trimCode (t : Text) : Text :=
  if t.head? = some ' ' && t.getLast? = some ' ' && t.any (· != ' ') then (t.drop 1).dropLast else t

def closingTicks? (n : Nat) : List Piece → Option (Piece × List Piece)
  | [] => none
  | p :: ps =>
    match p.mark with
    | .ticks k _ => if k = n then some (p, ps) else closingTicks? n ps
    | _ => closingTicks? n ps

def Leaf.angle? (i : Nat) : Option (Nat × Inline) :=
  match src.address? (i + 1) with
  | some (j, t) => some (j, .link false t [] [.text t])
  | none =>
    match src.mail? (i + 1) with
    | some (j, t) => some (j, .link true t [] [.text t])
    | none => (src.inlineHtml? ⟨some (skipMarks src leaf.within)⟩ i).map fun (j, t) => (j, .html t)

def Bracket.asText (b : Bracket) (content : List Inline) : List Inline :=
  content ++ .text (src.slice b.piece.start b.piece.stop) :: b.before

/-- Marks the bracket that closes a failed reference, so that it is not tried once more. -/
def refuse (i : Nat) : List Piece → List Piece
  | [] => []
  | p :: ps => if i < p.stop then { p with mark := .closeBracket false } :: ps else p :: refuse i ps

structure Closed where
  element : List Inline
  isLink : Bool
  isNote : Bool
  rest : List Piece

inductive Reference
  | full (label : Text) (stop : Nat)
  | collapsed
  | none

def Leaf.reference (rest : List Piece) : Reference :=
  match rest with
  | [] => .none
  | p :: _ =>
    if src.starts p.start ['[', ']'] then .collapsed
    else match leaf.label? src p.start with
      | some (j, .link t) => .full t j
      | _ => .none

def Bracket.element (b : Bracket) (target title : Text) (content : List Inline) : List Inline :=
  let inner := resolveRuns content.reverse
  if b.image then [.image target title inner] else [.link false target title inner]

/-- The link, image or reference that the closing bracket `p` completes for the bracket `b`. On
failure the pieces that follow it. -/
def Leaf.close (b : Bracket) (p : Piece) (mayRefer : Bool) (content : List Inline)
    (rest : List Piece) :
    Closed ⊕ List Piece :=
  match leaf.inlineTarget? src p.stop rest with
  | some (j, target, title) =>
    .inl ⟨b.element target title content, !b.image, false, piecesFrom j rest⟩
  | none =>
    match leaf.reference src rest with
    | .full label j =>
      let refused := refuse (j - 1) rest
      match defs.link? label with
      | some d =>
        .inl ⟨b.element d.target d.title content, !b.image, false,
          (refused.dropWhile (·.stop ≤ j - 1)).drop 1⟩
      | none => .inr refused
    | ref =>
      if !mayRefer then .inr rest
      else
        let after := match ref with
          | .collapsed => rest.drop 2
          | _ => rest
        match leaf.label? src (b.piece.stop - 1) with
        | some (j, .note t) =>
          if j = p.stop && defs.hasNote t then
            .inl ⟨(if b.image then [.noteRef t, .text ['!']] else [.noteRef t]), false, true, rest⟩
          else .inr rest
        | some (j, .link t) =>
          match (if j = p.stop then defs.link? t else none) with
          | some d => .inl ⟨b.element d.target d.title content, !b.image, false, after⟩
          | none => .inr rest
        | none => .inr rest

def Leaf.read (brackets : List Bracket) (done : List Inline) (pieces : List Piece) :
    Nat → List Inline
  | 0 => done.reverse
  | fuel + 1 =>
    match pieces with
    | [] => (brackets.foldl (fun content b => b.asText src content) done).reverse
    | p :: rest =>
      let asText := fun (rest : List Piece) =>
        read brackets (.text (src.slice p.start p.stop) :: done) rest fuel
      match p.mark with
      | .text => asText rest
      | .softBreak => read brackets (.softBreak :: done) rest fuel
      | .hardBreak => read brackets (.hardBreak :: done) rest fuel
      | .literal t => read brackets (.text t :: done) rest fuel
      | .run c n opens closes =>
        read brackets (.run c n opens closes (src.slice (p.start + n) p.stop) :: done) rest fuel
      | .ticks n escaped =>
        let n := if escaped then n - 1 else n
        match (if n = 0 then none else closingTicks? n rest) with
        | some (q, rest) =>
          let code := Inline.code (trimCode (leaf.codeText src p.stop q.start))
          read brackets (code :: (if escaped then .text ['\x60'] :: done else done)) rest fuel
        | none => asText rest
      | .angle =>
        match leaf.angle? src p.start with
        | some (j, x) => read brackets (x :: done) (piecesFrom j rest) fuel
        | none => asText rest
      | .openBracket => read (⟨false, false, p, done⟩ :: brackets) [] rest fuel
      | .openImage => read (⟨true, false, p, done⟩ :: brackets) [] rest fuel
      | .closeBracket mayRefer =>
        match brackets with
        | [] => asText rest
        | b :: bs =>
          let failed := fun (rest : List Piece) =>
            read bs (.text (src.slice p.start p.stop) :: b.asText src done) rest fuel
          if b.idle then failed rest
          else match leaf.close src defs b p mayRefer done rest with
            | .inr rest => failed rest
            | .inl c =>
              if c.isNote then
                read [] (c.element ++ bs.foldl (fun content b => b.asText src content) b.before)
                  c.rest fuel
              else
                let bs := if c.isLink then bs.map fun b =>
                  if b.image then b else { b with idle := true } else bs
                read bs (c.element ++ b.before) c.rest fuel

def Leaf.inlines : List Inline :=
  resolveRuns (leaf.read (src.upTo leaf.stop) defs [] [] leaf.pieces (leaf.pieces.length + 1))

end Reading
end StaticSite.Markdown
