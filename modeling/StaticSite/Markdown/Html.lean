import StaticSite.Markdown.Block
import StaticSite.Text.Utf8

/-! A document as HTML. Blocks begin on a line of their own; notes stand where they are defined and
are numbered in the order in which they are first named. -/
namespace StaticSite.Markdown

def escapeText (t : Text) : Text := t.flatMap fun c =>
  if c == '&' then "&amp;".toList
  else if c == '<' then "&lt;".toList
  else if c == '>' then "&gt;".toList
  else [c]

def escapeValue (t : Text) : Text := t.flatMap fun c =>
  if c == '"' then "&quot;".toList
  else if c == '\'' then "&#39;".toList
  else escapeText [c]

def hexDigit (n : Nat) : Char := if n < 10 then Char.ofNat (0x30 + n) else Char.ofNat (0x37 + n)

def isAddressByte (n : Nat) : Bool :=
  (0x40 ≤ n && n ≤ 0x5A) || (0x61 ≤ n && n ≤ 0x7A) || (0x28 ≤ n && n ≤ 0x3B) || n == 0x5F ||
    n == 0x21 || n == 0x23 || n == 0x24 || n == 0x25 || n == 0x3D || n == 0x3F || n == 0x7E

def escapeAddress (t : Text) : Text := (Text.Utf8.encode t).flatMap fun b =>
  let n := b.toNat
  if isAddressByte n then [Char.ofNat n]
  else if n = 0x26 then "&amp;".toList
  else if n = 0x27 then "&#x27;".toList
  else ['%', hexDigit (n / 16), hexDigit (n % 16)]

/-- HTML so far, last character first, whether a line has just ended, and the notes named so far. -/
structure Writer where
  out : Text
  lineEnded : Bool
  notes : List Text

namespace Writer

def write (w : Writer) (t : Text) : Writer :=
  match t.getLast? with
  | none => w
  | some c => { w with out := t.reverse ++ w.out, lineEnded := c == '\n' }

def tag (w : Writer) (t : String) : Writer := w.write t.toList

def newLine (w : Writer) : Writer := if w.lineEnded then w else w.tag "\n"

/-- Text counts as the end of a line if it ends in one, and empty text does not. -/
def writeText (w : Writer) (t : Text) : Writer :=
  { w with out := (escapeText t).reverse ++ w.out, lineEnded := t.getLast? == some '\n' }

def number (w : Writer) (label : Text) : Nat × Writer :=
  match w.notes.findIdx? (· == label) with
  | some i => (i + 1, w)
  | none => (w.notes.length + 1, { w with notes := w.notes ++ [label] })

def title (w : Writer) (t : Text) : Writer :=
  if t.isEmpty then w else (w.tag "\" title=\"").write (escapeValue t)

mutual
def plain (w : Writer) : Inline → Writer
  | .text t =>
    { w with out := (escapeValue t).reverse ++ w.out, lineEnded := t.getLast? == some '\n' }
  | .code t =>
    { w with out := (escapeValue t).reverse ++ w.out, lineEnded := t.getLast? == some '\n' }
  | .html t =>
    { w with out := (escapeValue t).reverse ++ w.out, lineEnded := t.getLast? == some '\n' }
  | .softBreak => w.tag " "
  | .hardBreak => w.tag " "
  | .run c n _ _ tail => w.write (escapeValue (List.replicate n c ++ tail))
  | .emphasis content => w.plains content
  | .strong content => w.plains content
  | .deleted content => w.plains content
  | .link _ _ _ content => w.plains content
  | .image _ _ content => w.plains content
  | .noteRef label => let (n, w) := w.number label; w.write ('[' :: Text.ofNat n ++ [']'])

def plains (w : Writer) : List Inline → Writer
  | [] => w
  | x :: xs => (w.plain x).plains xs
end

mutual
def inline (w : Writer) : Inline → Writer
  | .text t => w.writeText t
  | .code t => ((w.tag "<code>").writeText t).tag "</code>"
  | .html t => w.write t
  | .softBreak => w.tag "\n"
  | .hardBreak => w.tag "<br />\n"
  | .run c n _ _ tail => w.writeText (List.replicate n c ++ tail)
  | .emphasis content => ((w.tag "<em>").inlines content).tag "</em>"
  | .strong content => ((w.tag "<strong>").inlines content).tag "</strong>"
  | .deleted content => ((w.tag "<del>").inlines content).tag "</del>"
  | .link mail target title content =>
    let w := (w.tag (if mail then "<a href=\"mailto:" else "<a href=\"")).write
      (escapeAddress target)
    (((w.title title).tag "\">").inlines content).tag "</a>"
  | .image target title content =>
    let w := ((w.tag "<img src=\"").write (escapeAddress target)).tag "\" alt=\""
    ((w.plains content).title title).tag "\" />"
  | .noteRef label =>
    let w := ((w.tag "<sup class=\"footnote-reference\"><a href=\"#").write (escapeValue label)).tag
      "\">"
    let (n, w) := w.number label
    (w.write (Text.ofNat n)).tag "</a></sup>"

def inlines (w : Writer) : List Inline → Writer
  | [] => w
  | x :: xs => (w.inline x).inlines xs
end

variable (src : Source) (defs : Definitions)

def leaf (w : Writer) (l : Leaf) : Writer := w.inlines (l.inlines src defs)

def cells (tag : String) : Writer → List Alignment → List Leaf → Writer
  | w, _, [] => w
  | w, columns, l :: ls =>
    let style := match columns.head? with
      | some .left => " style=\"text-align: left\">"
      | some .center => " style=\"text-align: center\">"
      | some .right => " style=\"text-align: right\">"
      | _ => ">"
    let w := ((w.tag ("<" ++ tag)).tag style).leaf src defs l
    cells tag (w.tag ("</" ++ tag ++ ">")) columns.tail ls

def rows (columns : List Alignment) : Writer → List (List Leaf) → Writer
  | w, [] => w
  | w, r :: rs => rows columns ((((w.tag "<tr>").cells src defs "td" columns r)).tag "</tr>\n") rs

def codeBlock (w : Writer) (info : Option Text) (content : Text) : Writer :=
  let language := (info.getD []).takeWhile (· != ' ')
  let w := w.newLine
  let w := if language.isEmpty then w.tag "<pre><code>"
    else ((w.tag "<pre><code class=\"language-").write (escapeValue language)).tag "\">"
  (if content.isEmpty then w else w.writeText content).tag "</code></pre>\n"

mutual
def block (w : Writer) : Block → Writer
  | .paragraph true text => w.leaf src defs text
  | .paragraph false text => ((w.newLine.tag "<p>").leaf src defs text).tag "</p>\n"
  | .heading level text =>
    let name := 'h' :: Text.ofNat level
    let w := w.newLine.write ('<' :: name ++ ['>'])
    (w.leaf src defs text).write ('<' :: '/' :: name ++ ['>', '\n'])
  | .rule => w.newLine.tag "<hr />\n"
  | .code info content => w.codeBlock info content
  | .html content => w.write content
  | .table columns head body =>
    let w := (w.tag "<table><thead><tr>").cells src defs "th" columns head
    ((w.tag "</tr></thead><tbody>\n").rows src defs columns body).tag "</tbody></table>\n"
  | .quote content => ((w.newLine.tag "<blockquote>\n").blocks content).tag "</blockquote>\n"
  | .list none items => ((w.newLine.tag "<ul>\n").blocks items).tag "</ul>\n"
  | .list (some n) items =>
    let w := if n = 1 then w.newLine.tag "<ol>\n"
      else ((w.newLine.tag "<ol start=\"").write (Text.ofNat n)).tag "\">\n"
    (w.blocks items).tag "</ol>\n"
  | .item content => ((w.newLine.tag "<li>").blocks content).tag "</li>\n"
  | .note label content =>
    let w := (w.newLine.tag "<div class=\"footnote-definition\" id=\"").write (escapeValue label)
    let (n, w) := (w.tag "\"><sup class=\"footnote-definition-label\">").number label
    let w := (w.write (Text.ofNat n)).tag "</sup>"
    (w.blocks content).tag "</div>\n"

def blocks (w : Writer) : List Block → Writer
  | [] => w
  | b :: bs => (w.block b).blocks bs
end

end Writer

def toHtml (t : Text) : Text :=
  let src : Source := ⟨t.toArray⟩
  let (blocks, defs) := readDocument src
  ((Writer.mk [] true []).blocks src defs blocks).out.reverse

end StaticSite.Markdown
