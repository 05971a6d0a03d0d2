import StaticSite.Text.Utf8

/-! The tokens of a YAML document without directives. A key is recognised by the colon after it, so
its token is put before tokens that are already there; `Reader` keeps the places where that may
happen. A document that is not well formed has no tokens. -/
namespace StaticSite.Yaml

inductive Token
  | sequence
  | mapping
  | blockEnd
  | flowSequence
  | flowSequenceEnd
  | flowMapping
  | flowMappingEnd
  | entry
  | comma
  | key
  | value
  | alias (name : Text)
  | anchor (name : Text)
  | tag (handle suffix : Text)
  | scalar (plain : Bool) (text : Text)
  | documentEnd
  deriving DecidableEq, Repr

def isBreak (c : Char) : Bool :=
  c == '\n' || c == '\r' || c.toNat == 0x85 || c.toNat == 0x2028 || c.toNat == 0x2029

def isBlank (c : Char) : Bool := c == ' ' || c == '\t'
def isWord (c : Char) : Bool := c.isAlphanum || c == '_' || c == '-'
def isFlow (c : Char) : Bool := c == ',' || c == '[' || c == ']' || c == '{' || c == '}'

def isPrintable (c : Char) : Bool :=
  let n := c.toNat
  n == 9 || n == 10 || n == 13 || (0x20 ≤ n && n ≤ 0x7E) || n == 0x85 || (0xA0 ≤ n && n ≤ 0xFFFD) ||
    0x10000 ≤ n

/-- What a line break adds to a scalar: most of them count as a line feed. -/
def breakText (c : Char) : Char := if c.toNat = 0x2028 || c.toNat = 0x2029 then c else '\n'

def closes (t : Text) : Bool := t.head?.all fun c => isBlank c || isBreak c

structure Mark where
  index : Nat
  line : Nat
  column : Nat
  deriving Repr

def Mark.next (m : Mark) (n : Nat) : Mark := { m with index := m.index + n, column := m.column + n }
def Mark.nextLine (m : Mark) (n : Nat) : Mark := ⟨m.index + n, m.line + 1, 0⟩

def atMarker (m : Mark) (t : Text) : Bool :=
  m.column == 0 && (['-', '-', '-'].isPrefixOf t || ['.', '.', '.'].isPrefixOf t) &&
    closes (t.drop 3)

structure Scan (α : Type) where
  got : α
  mark : Mark
  rest : Text

/-- Line breaks between two parts of a scalar: a first line feed alone is a space, and with others
after it nothing. -/
def fold (first more : Text) : Text :=
  if first = ['\n'] then (if more = [] then [' '] else more) else first ++ more

/-- White space between the parts of a scalar: blanks within a line, or the first line break and
the further ones. -/
structure Gap where
  blanks : Text
  first : Option Text
  more : Text

def Gap.none : Gap := ⟨[], .none, []⟩
def Gap.isEmpty (g : Gap) : Bool := g.blanks.isEmpty && g.first.isNone
def Gap.text (g : Gap) : Text :=
  match g.first with
  | .none => g.blanks
  | some b => fold b g.more

def Gap.addBlank (g : Gap) (c : Char) : Gap :=
  if g.first.isSome then g else { g with blanks := g.blanks ++ [c] }

def Gap.addBreak (g : Gap) (c : Char) : Gap :=
  match g.first with
  | .none => ⟨[], some [breakText c], g.more⟩
  | some _ => { g with more := g.more ++ [breakText c] }

/-- A plain scalar, and whether line breaks follow it. `done` is kept last character first. -/
def plain (flow : Bool) (indent : Int) (m : Mark) (gap : Gap) (done : Text) :
    Text → Option (Scan (Text × Bool))
  | '\r' :: '\n' :: t => plain flow indent (m.nextLine 2) (gap.addBreak '\n') done t
  | c :: t =>
    if isBreak c then plain flow indent (m.nextLine 1) (gap.addBreak c) done t
    else if isBlank c then
      if gap.first.isSome && m.column < indent && c == '\t' then none
      else plain flow indent (m.next 1) (gap.addBlank c) done t
    else
      let found := some ⟨(done.reverse, gap.first.isSome), m, c :: t⟩
      if !gap.isEmpty && ((!flow && m.column < indent) || atMarker m (c :: t) || c == '#') then
        found
      else if flow && c == ':' && t.head?.any (fun d => isFlow d || d == '?') then none
      else if (c == ':' && closes t) || (flow && isFlow c) then found
      else plain flow indent (m.next 1) .none (c :: (gap.text.reverse ++ done)) t
  | [] => some ⟨(done.reverse, gap.first.isSome), m, []⟩

def hexDigit? (c : Char) : Option Nat :=
  if c.isDigit then some (c.toNat - 0x30)
  else if 'a' ≤ c && c ≤ 'f' then some (c.toNat - 0x57)
  else if 'A' ≤ c && c ≤ 'F' then some (c.toNat - 0x37)
  else none

def hexNumber? (t : Text) : Option Nat :=
  t.foldlM (fun n c => (hexDigit? c).map fun d => n * 16 + d) 0

def shortEscape? (c : Char) : Option Char :=
  match c with
  | '0' => some (Char.ofNat 0)
  | 'a' => some (Char.ofNat 7)
  | 'b' => some (Char.ofNat 8)
  | 't' => some '\t'
  | '\t' => some '\t'
  | 'n' => some '\n'
  | 'v' => some (Char.ofNat 11)
  | 'f' => some (Char.ofNat 12)
  | 'r' => some '\r'
  | 'e' => some (Char.ofNat 27)
  | ' ' => some ' '
  | '"' => some '"'
  | '/' => some '/'
  | '\\' => some '\\'
  | 'N' => some (Char.ofNat 0x85)
  | '_' => some (Char.ofNat 0xA0)
  | 'L' => some (Char.ofNat 0x2028)
  | 'P' => some (Char.ofNat 0x2029)
  | _ => none

def escapeDigits (c : Char) : Nat :=
  if c == 'x' then 2 else if c == 'u' then 4 else if c == 'U' then 8 else 0

def escape? (t : Text) : Option (Char × Nat) :=
  match t with
  | [] => none
  | c :: r =>
    match shortEscape? c with
    | some d => some (d, 1)
    | none =>
      let n := escapeDigits c
      if n = 0 || r.length < n then none
      else match hexNumber? (r.take n) with
        | some v =>
          if v < 0xD800 || (0xDFFF < v && v < 0x110000) then some (Char.ofNat v, n + 1) else none
        | none => none

def quoted (single : Bool) (m : Mark) (gap : Gap) (done t : Text) : Option (Scan Text) :=
  match t with
  | [] => none
  | c :: r =>
    if c == '\r' && r.head? == some '\n' then quoted single (m.nextLine 2) (gap.addBreak '\n') done
      (r.drop 1)
    else if isBreak c then quoted single (m.nextLine 1) (gap.addBreak c) done r
    else if isBlank c then quoted single (m.next 1) (gap.addBlank c) done r
    else if atMarker m (c :: r) then none
    else
      let done := gap.text.reverse ++ done
      if single then
        if c == '\'' then
          if r.head? == some '\'' then quoted single (m.next 2) .none ('\'' :: done) (r.drop 1)
          else some ⟨done.reverse, m.next 1, r⟩
        else quoted single (m.next 1) .none (c :: done) r
      else if c == '"' then some ⟨done.reverse, m.next 1, r⟩
      else if c == '\\' then
        if ['\r', '\n'].isPrefixOf r then quoted single (m.nextLine 3) ⟨[], some [], []⟩ done
          (r.drop 2)
        else if r.head?.any isBreak then quoted single (m.nextLine 2) ⟨[], some [], []⟩ done
          (r.drop 1)
        else match escape? r with
          | some (d, n) => quoted single (m.next (n + 1)) .none (d :: done) (r.drop n)
          | none => none
      else quoted single (m.next 1) .none (c :: done) r
termination_by t.length
decreasing_by all_goals simp only [List.length_drop, List.length_cons]; omega

/-- The indentation and the empty lines before a line of a block scalar. With `indent` zero it is
found out: `widest` is the widest line so far. -/
def blockBreaks (indent : Nat) (m : Mark) (widest : Nat) (breaks : Text) :
    Text → Option (Scan (Nat × Text))
  | '\r' :: '\n' :: t =>
    blockBreaks indent (m.nextLine 2) (max widest m.column) (breaks ++ ['\n']) t
  | c :: t =>
    let free := indent == 0 || m.column < indent
    if free && c == ' ' then blockBreaks indent (m.next 1) widest breaks t
    else if free && c == '\t' then none
    else if isBreak c then blockBreaks indent (m.nextLine 1) (max widest m.column)
      (breaks ++ [breakText c]) t
    else some ⟨(max widest m.column, breaks), m, c :: t⟩
  | [] => some ⟨(max widest m.column, breaks), m, []⟩

def takeBreak (m : Mark) : Text → Scan Text
  | '\r' :: '\n' :: t => ⟨['\n'], m.nextLine 2, t⟩
  | c :: t => if isBreak c then ⟨[breakText c], m.nextLine 1, t⟩ else ⟨[], m, c :: t⟩
  | [] => ⟨[], m, []⟩

/-- The lines of a block scalar. `first` is the break after the last line, `more` the empty lines
after it, and `led` tells that the last line began with a blank. -/
def blockLines (literal : Bool) (indent : Nat) (m : Mark) (first more : Text) (led : Bool)
    (done t : Text) :
    Nat → Option (Scan (Text × Text × Text))
  | 0 => none
  | fuel + 1 =>
    if m.column ≠ indent || t = [] then some ⟨(done, first, more), m, t⟩
    else
      let trailing := t.head?.any isBlank
      let joined := if !literal && first = ['\n'] && !led &&
        !trailing then (if more = [] then [' '] else []) else first
      let line := t.takeWhile fun c => !isBreak c
      let done := done ++ joined ++ more ++ line
      let after := takeBreak (m.next line.length) (t.drop line.length)
      match blockBreaks indent after.mark 0 [] after.rest with
      | some ⟨(_, more), m, t⟩ => blockLines literal indent m after.got more trailing done t fuel
      | none => none

inductive Chomp
  | strip
  | clip
  | keep
  deriving DecidableEq

def chomp? (c : Char) : Option Chomp :=
  if c == '+' then some .keep else if c == '-' then some .strip else none

/-- The header of a block scalar: how its end is treated, and the extra indentation if it is
given. -/
def blockHeader (t : Text) : Option (Chomp × Nat × Nat) :=
  let digit := fun (t : Text) => match t with
    | c :: _ => if c.isDigit then some (c.toNat - 0x30) else none
    | [] => none
  match t.head?.bind chomp?, digit t with
  | some c, _ =>
    match digit (t.drop 1) with
    | some 0 => none
    | some n => some (c, n, 2)
    | none => some (c, 0, 1)
  | none, some 0 => none
  | none, some n =>
    match (t.drop 1).head?.bind chomp? with
    | some c => some (c, n, 2)
    | none => some (.clip, n, 1)
  | none, none => some (.clip, 0, 0)

def block (literal : Bool) (parent : Int) (m : Mark) (t : Text) : Option (Scan Text) := do
  let (chomp, extra, n) ← blockHeader t
  let t := t.drop n
  let m := m.next n
  let blanks := t.takeWhile isBlank
  let t := t.drop blanks.length
  let m := m.next blanks.length
  let comment := if t.head? = some '#' then t.takeWhile fun c => !isBreak c else []
  let t := t.drop comment.length
  let m := m.next comment.length
  if !t.head?.all isBreak then none
  else
    let start := takeBreak m t
    let indent : Nat := if extra = 0 then 0 else if 0 ≤ parent then parent.toNat + extra else extra
    let ⟨(widest, breaks), m, t⟩ ← blockBreaks indent start.mark 0 [] start.rest
    let indent := if indent = 0 then max 1 (max widest (parent + 1).toNat) else indent
    let ⟨(text, first, more), m, t⟩ ← blockLines literal indent m [] breaks false [] t
        (t.length + 1)
    let tail := match chomp with
      | .strip => []
      | .clip => first
      | .keep => first ++ more
    return ⟨text ++ tail, m, t⟩

def isTagChar (c : Char) : Bool := isWord c || ";/?:@&=+$.!~*'()".toList.contains c

/-- Percent escapes of one character in a tag: the bytes and the text after them. -/
def tagEscapes (t : Text) : Nat → Option (Bytes × Text)
  | 0 => some ([], t)
  | n + 1 =>
    match t with
    | '%' :: a :: b :: t =>
      match hexNumber? [a, b] with
      | some v => (tagEscapes t n).map fun (bs, t) => (UInt8.ofNat v :: bs, t)
      | none => none
    | _ => none

def sequenceLength (b : Nat) : Nat :=
  if b < 0x80 then 1 else if b / 32 = 6 then 2 else if b / 16 = 14 then 3 else if b / 8 = 30 then 4
    else 0

def tagText (verbatim : Bool) (t done : Text) (count : Nat) : Nat → Option (Text × Nat × Text)
  | 0 => none
  | fuel + 1 =>
    match t with
    | '%' :: a :: b :: _ =>
      match hexNumber? [a, b] with
      | some v =>
        let n := sequenceLength v
        if n = 0 then none
        else match tagEscapes t n with
          | some (bs, r) =>
            match Text.Utf8.decode bs with
            | .ok cs => tagText verbatim r (done ++ cs) (count + 3 * n) fuel
            | .error _ => none
          | none => none
      | none => none
    | '%' :: _ => none
    | c :: r =>
      if isTagChar c || (verbatim && (c == ',' || c == '[' || c == ']')) then
        tagText verbatim r (done ++ [c]) (count + 1) fuel
      else some (done, count, t)
    | [] => some (done, count, t)

/-- A tag after its exclamation mark: handle and suffix. The tag `!` has no handle. -/
def tag (flow : Bool) (m : Mark) (t : Text) : Option (Scan (Text × Text)) := do
  let (handle, suffix, n, t) ←
    if t.head? = some '<' then do
      let (suffix, n, r) ← tagText true (t.drop 1) [] 0 (t.length + 1)
      if suffix ≠ [] && r.head? = some '>' then some (([] : Text), suffix, n + 2, r.drop 1)
        else none
    else do
      let word := t.takeWhile isWord
      let r := t.drop word.length
      if r.head? = some '!' then
        let (suffix, n, r) ← tagText false (r.drop 1) [] 0 (r.length + 1)
        if suffix = [] then none else some ('!' :: word ++ ['!'], suffix, word.length + 1 + n, r)
      else
        let (suffix, n, r) ← tagText false r word 0 (r.length + 1)
        if suffix = [] then some ([], ['!'], 0, r) else some (['!'], suffix, word.length + n, r)
  if closes t || (flow && t.head? = some ',') then some ⟨(handle, suffix), m.next n, t⟩ else none

def anchorName (m : Mark) (t : Text) : Option (Scan Text) :=
  let name := t.takeWhile isWord
  let r := t.drop name.length
  if name ≠ [] && (closes r || r.head?.any fun c => "?:,]\x7d%@\x60".toList.contains c) then
    some ⟨name, m.next name.length, r⟩
  else none

/-- A place where a key may have begun: the number of the token there. It is required if nothing
but a key may stand there. -/
structure KeyPlace where
  required : Bool
  token : Nat
  mark : Mark

/-- `keys` has an element per flow collection that is open, and one for the block around them. -/
structure Reader where
  mark : Mark
  rest : Text
  tokens : Array Token
  flow : Nat
  indent : Int
  outer : List Int
  keyAllowed : Bool
  keys : List (Option KeyPlace)

namespace Reader

def start (t : Text) : Reader := ⟨⟨0, 0, 0⟩, t, #[], 0, -1, [], true, [none]⟩

def push (r : Reader) (t : Token) : Reader := { r with tokens := r.tokens.push t }

def insert (r : Reader) (i : Nat) (t : Token) : Reader :=
  { r with tokens := r.tokens.extract 0 i ++ #[t] ++ r.tokens.extract i r.tokens.size }

def skip (r : Reader) (n : Nat) : Reader := { r with mark := r.mark.next n, rest := r.rest.drop n }

/-- White space and comments up to the next token. A tab may not stand where a key may begin. -/
def gap (flow allowed : Bool) (m : Mark) (comment : Bool) : Text → Scan Bool
  | '\r' :: '\n' :: t => gap flow (allowed || !flow) (m.nextLine 2) false t
  | c :: t =>
    if isBreak c then gap flow (allowed || !flow) (m.nextLine 1) false t
    else if comment then gap flow allowed (m.next 1) true t
    else if c.toNat == 0xFEFF && m.column == 0 then gap flow allowed (m.next 1) false t
    else if c == ' ' || (c == '\t' && (flow || !allowed)) then gap flow allowed (m.next 1) false t
    else if c == '#' then gap flow allowed (m.next 1) true t
    else ⟨allowed, m, c :: t⟩
  | [] => ⟨allowed, m, []⟩

def dropStale (r : Reader) : Option Reader := do
  let keys ← r.keys.mapM fun k =>
    match k with
    | none => some none
    | some k =>
      if k.mark.line < r.mark.line || k.mark.index + 1024 < r.mark.index then
        if k.required then none else some none
      else some (some k)
  return { r with keys }

def unroll (column : Int) : List Int → Reader → Reader
  | outer, r =>
    if r.flow ≠ 0 || r.indent ≤ column then r
    else match outer with
      | [] => r
      | i :: outer => unroll column outer { r.push .blockEnd with indent := i, outer }

def unrollTo (r : Reader) (column : Int) : Reader := unroll column r.outer r

def roll (r : Reader) (column place : Nat) (t : Token) : Reader :=
  if r.flow = 0 && r.indent < column then
    { r.insert place t with indent := column, outer := r.indent :: r.outer }
  else r

def dropKey (r : Reader) : Option Reader :=
  match r.keys with
  | some k :: ks => if k.required then none else some { r with keys := none :: ks }
  | _ => some r

def saveKey (r : Reader) : Option Reader :=
  if r.keyAllowed then do
    let r ← r.dropKey
    return { r with keys := some ⟨r.flow = 0 && r.indent == r.mark.column, r.tokens.size,
      r.mark⟩ :: r.keys.tail }
  else some r

def openFlow (r : Reader) (t : Token) : Option Reader := do
  let r ← r.saveKey
  return (({ r with keys := none :: r.keys, flow := r.flow + 1, keyAllowed := true }).push t).skip 1

def closeFlow (r : Reader) (t : Token) : Option Reader := do
  let r ← r.dropKey
  let r := if r.flow = 0 then r else { r with keys := r.keys.tail, flow := r.flow - 1 }
  return (({ r with keyAllowed := false }).push t).skip 1

def openEntry (r : Reader) (collection t : Token) (allowed : Bool) : Option Reader :=
  if r.flow = 0 && !r.keyAllowed then none
  else do
    let r ← (r.roll r.mark.column r.tokens.size collection).dropKey
    return (({ r with keyAllowed := allowed }).push t).skip 1

def colon (r : Reader) : Option Reader :=
  match r.keys with
  | some k :: ks =>
    let r := (r.insert k.token .key).roll k.mark.column k.token .mapping
    some ((({ r with keys := none :: ks, keyAllowed := false }).push .value).skip 1)
  | _ =>
    if r.flow = 0 && !r.keyAllowed then none
    else
      let r := r.roll r.mark.column r.tokens.size .mapping
      some ((({ r with keyAllowed := r.flow = 0 }).push .value).skip 1)

def took (r : Reader) (s : Scan α) (t : Token) : Reader :=
  { r.push t with mark := s.mark, rest := s.rest }

def finish (r : Reader) : Option Reader := do
  let r := r.unrollTo (-1)
  r.dropKey

def step (r : Reader) : Option (Reader ⊕ Reader) := do
  let g := gap (r.flow ≠ 0) r.keyAllowed r.mark false r.rest
  let r ← { r with keyAllowed := g.got, mark := g.mark, rest := g.rest }.dropStale
  let r := r.unrollTo r.mark.column
  match r.rest with
  | [] => return .inr (← r.finish)
  | c :: t =>
    let flow := r.flow ≠ 0
    if r.mark.column = 0 && c == '%' then none
    else if atMarker r.mark r.rest then
      if c == '-' then none
      else
        let r ← (r.unrollTo (-1)).dropKey
        return .inl (({ r with keyAllowed := false }).push .documentEnd |>.skip 3)
    else if c == '[' then return .inl (← r.openFlow .flowSequence)
    else if c == '{' then return .inl (← r.openFlow .flowMapping)
    else if c == ']' then return .inl (← r.closeFlow .flowSequenceEnd)
    else if c == '}' then return .inl (← r.closeFlow .flowMappingEnd)
    else if c == ',' then
      let r ← r.dropKey
      return .inl ((({ r with keyAllowed := true }).push .comma).skip 1)
    else if c == '-' && closes t then return .inl (← r.openEntry .sequence .entry true)
    else if c == '?' && (flow || closes t) then return .inl (← r.openEntry .mapping .key !flow)
    else if c == ':' && (flow || closes t) then return .inl (← r.colon)
    else if c == '*' || c == '&' then
      let r ← r.saveKey
      let s ← anchorName (r.mark.next 1) t
      return .inl (({ r with keyAllowed := false }).took s
        (if c == '*' then .alias s.got else .anchor s.got))
    else if c == '!' then
      let r ← r.saveKey
      let s ← tag flow (r.mark.next 1) t
      return .inl (({ r with keyAllowed := false }).took s (.tag s.got.1 s.got.2))
    else if (c == '|' || c == '>') && !flow then
      let r ← r.dropKey
      let s ← block (c == '|') r.indent (r.mark.next 1) t
      return .inl (({ r with keyAllowed := true }).took s (.scalar false s.got))
    else if c == '\'' || c == '"' then
      let r ← r.saveKey
      let s ← quoted (c == '\'') (r.mark.next 1) .none [] t
      return .inl (({ r with keyAllowed := false }).took s (.scalar false s.got))
    else if (!isBlank c && !"-?:,[]\x7b\x7d#&*!|>'\"%@\x60".toList.contains c) ||
      (c == '-' && !t.head?.any isBlank) ||
        (!flow && (c == '?' || c == ':') && !closes t) then
      let r ← r.saveKey
      let s ← plain flow (r.indent + 1) r.mark .none [] r.rest
      return .inl (({ r with keyAllowed := s.got.2 }).took s (.scalar true s.got.1))
    else none

def run (r : Reader) : Nat → Option (List Token)
  | 0 => none
  | fuel + 1 =>
    match r.step with
    | some (.inl r) => run r fuel
    | some (.inr r) => some r.tokens.toList
    | none => none

end Reader

def tokens (t : Text) : Option (List Token) :=
  if t.all isPrintable then (Reader.start t).run (t.length + 2) else none

end StaticSite.Yaml
