import StaticSite.Markdown.Source

/-! Tags, comments and the like inside a line, the openings of blocks of HTML, and addresses between
angle brackets. -/
namespace StaticSite.Markdown

/-- What is kept of a stretch of the document when the marks of containers are left out: the text
so far, and the position from which the rest will be taken. -/
structure Kept where
  text : Text
  since : Nat

/-- `resume?` gives the position after a line's marks; without it a tag may not go on. -/
structure Lines where
  resume? : Option (Nat → Nat)

namespace Source
variable (s : Source) (l : Lines)

def nextInTag (i : Nat) (k : Kept) : Option (Nat × Kept) :=
  l.resume?.map fun resume =>
    let j := max i (resume i)
    (j, if i < j then ⟨k.text ++ s.slice k.since i, j⟩ else k)

def tagSpace (i : Nat) (k : Kept) : Option (Nat × Kept) :=
  if h : i < s.chars.size then
    if isLineEnd s.chars[i] then
      match nextInTag s l (max (i + 1) ((s.eol? i).getD 0)) k with
      | some (j, k) => if _ : i < j then tagSpace j k else none
      | none => none
    else if isInlineSpace s.chars[i] then tagSpace (i + 1) k
    else some (i, k)
  else none
termination_by s.chars.size - i

def quotedValue (quote : Char) (i : Nat) (k : Kept) : Option (Nat × Kept) :=
  if h : i < s.chars.size then
    if s.chars[i] == quote then some (i + 1, k)
    else if isLineEnd s.chars[i] then
      match nextInTag s l (max (i + 1) ((s.eol? i).getD 0)) k with
      | some (j, k) => if _ : i < j then quotedValue quote j k else none
      | none => none
    else quotedValue quote (i + 1) k
  else none
termination_by s.chars.size - i

def isBareValue (c : Char) : Bool :=
  !(isLineEnd c || c == ' ' || c == '\'' || c == '"' || c == '=' || c == '>' || c == '<' || c ==
    '\x60')

def attributeValue (i : Nat) (k : Kept) : Option (Nat × Kept) :=
  match s.at? i with
  | some c =>
    if c == '"' || c == '\'' then s.quotedValue l c (i + 1) k
    else if isBareValue c then some (s.skip isBareValue i, k)
    else none
  | none => none

/-- An attribute; white space after a name without a value is left for the next one. -/
def tagAttribute (i : Nat) (k : Kept) : Option (Nat × Kept) := do
  let c ← s.at? i
  if isLetter c || c == '_' || c == ':' then
    let j := s.skip (fun c => isAlnum c || c == '_' || c == '.' || c == ':' || c == '-') i
    let (v, kept) ← s.tagSpace l j k
    if s.has v '=' then
      let (v, kept) ← s.tagSpace l (v + 1) kept
      s.attributeValue l v kept
    else some (j, k)
  else none

def tagAttributes (i : Nat) (k : Kept) : Option (Nat × Kept) :=
  match s.tagSpace l i k with
  | some (j, k) =>
    if s.has j '/' || s.has j '>' then some (j, k)
    else if j ≤ i then none
    else match s.tagAttribute l j k with
      | some (j, k) => if _ : i < j ∧ i < s.chars.size then tagAttributes j k else none
      | none => none
  | none => none
termination_by s.chars.size - i

/-- An opening or closing tag at the angle bracket at `i`: the position after it, and its text
without the marks of containers. -/
def tag? (i : Nat) : Option (Nat × Text) := do
  let closing := s.has (i + 1) '/'
  let name := if closing then i + 2 else i + 1
  let j := s.skip isLetter name
  if j = name then none
  else
    let j := s.skip (fun c => isAlnum c || c == '-') j
    let (j, k) ← if closing then some (j, ⟨[], i⟩) else s.tagAttributes l j ⟨[], i⟩
    let j := s.skipSpace j
    let j := if !closing && s.has j '/' then j + 1 else j
    if s.has j '>' then some (j + 1, k.text ++ s.slice k.since (j + 1)) else none

def after? (w : Text) (i : Nat) : Option Nat :=
  if h : i < s.chars.size then if s.starts i w then some (i + w.length) else after? w (i + 1)
    else none
termination_by s.chars.size - i

def declaration? (i : Nat) : Option Nat := do
  let c ← s.at? i
  if c == '-' then
    if !s.has (i + 1) '-' then none
    else if s.has (i + 2) '>' then some (i + 3)
    else if s.starts (i + 2) ['-', '>'] then some (i + 4)
    else s.after? ['-', '-', '>'] (i + 2)
  else if c == '[' then
    if s.starts (i + 1) "CDATA[".toList then
      let j ← s.find? ']' (i + 7)
      let k := s.skip (· == ']') j
      if s.has k '>' then some (k + 1) else none
    else none
  else if isLetter c then (s.find? '>' (i + 1)).map (· + 1)
  else none

def inlineHtml? (i : Nat) : Option (Nat × Text) := do
  let c ← s.at? (i + 1)
  if c == '!' then
    let j ← s.declaration? (i + 2)
    return (j, s.slice i j)
  else if c == '?' then
    let j ← s.after? ['?', '>'] (i + 2)
    return (j, s.slice i j)
  else s.tag? l i

def blockEnd? (i : Nat) : Option Text :=
  let named := ["pre", "style", "script", "textarea"].find? fun name =>
    Text.lowerAscii (s.slice (i + 1) (i + 1 + name.length)) = name.toList &&
      (s.at? (i + 1 + name.length)).all fun c => isAsciiSpace c || c == '>'
  match named with
  | some name => some ("</".toList ++ name.toList ++ ['>'])
  | none =>
    if s.starts (i + 1) "!--".toList then some "-->".toList
    else if s.starts (i + 1) ['?'] then some "?>".toList
    else if s.starts (i + 1) "![CDATA[".toList then some "]]>".toList
    else if s.has (i + 1) '!' && (s.at? (i + 2)).any isLetter then some ['>']
    else none

def blockElements : List String :=
  ["address", "article", "aside", "base", "basefont", "blockquote", "body", "caption", "center",
    "col", "colgroup", "dd", "details", "dialog", "dir", "div", "dl", "dt", "fieldset",
    "figcaption", "figure", "footer", "form", "frame", "frameset", "h1", "h2", "h3", "h4", "h5",
    "h6", "head", "header", "hr", "html", "iframe", "legend", "li", "link", "main", "menu",
    "menuitem", "nav", "noframes", "ol", "optgroup", "option", "p", "param", "search", "section",
    "summary", "table", "tbody", "td", "tfoot", "th", "thead", "title", "tr", "track", "ul"]

def opensBlockElement (i : Nat) : Bool :=
  let name := if s.has (i + 1) '/' then i + 2 else i + 1
  let j := s.skip isAlnum name
  let tag := String.ofList (Text.lowerAscii (s.slice name j))
  blockElements.contains tag &&
    ((s.at? j).all (fun c => isSpace c || isLineEnd c || c == '>') || s.starts j ['/', '>'])

def tagAlone (i : Nat) : Bool :=
  match s.tag? ⟨none⟩ i with
  | some (j, _) => (s.blank? j).isSome
  | none => false

/-- An absolute address: a scheme of two to thirty-two characters, a colon, and no blanks. -/
def address? (i : Nat) : Option (Nat × Text) := do
  let c ← s.at? i
  let j := s.skip (fun c => isAlnum c || c == '.' || c == '-' || c == '+') i
  if isLetter c && 2 ≤ j - i && j - i ≤ 32 && s.has j ':' then
    let k := s.skip (fun c => !(c.toNat ≤ 0x20 || c == '<' || c == '>')) (j + 1)
    if s.has k '>' then some (k + 1, s.slice i k) else none
  else none

def isMailbox (c : Char) : Bool := isAlnum c || ".!#$%&'*+/=?^_\x60\x7b|\x7d~-".toList.contains c

/-- The labels of a host, each of at most sixty-three characters and without a hyphen at its
ends. -/
def hostLabels? (i : Nat) : Option Nat :=
  let j := s.skip (fun c => isAlnum c || c == '-') i
  if s.has i '-' || j ≤ i || 63 < j - i || s.has (j - 1) '-' then none
  else if s.has j '.' then if _ : i < j + 1 ∧ i < s.chars.size then hostLabels? (j + 1) else none
  else some j
termination_by s.chars.size - i

def mail? (i : Nat) : Option (Nat × Text) := do
  let j := s.skip isMailbox i
  if i < j && s.has j '@' then
    let k ← s.hostLabels? (j + 1)
    if s.has k '>' then some (k + 1, s.slice i k) else none
  else none

end Source
end StaticSite.Markdown
