import StaticSite.Text

/-! Names of documents, written with either separator. Splitting never fails: a name without a part
gives an empty one. -/
namespace StaticSite.Name

def isSeparator (c : Char) : Bool := c == '/' || c == '\\'

def parts (t : Text) : List Text := Text.splitBy isSeparator t

def basename (t : Text) : Text := (parts t).getLast?.getD []

/-- What follows the last dot of the last part. -/
def extension? (t : Text) : Option Text :=
  let name := basename t
  if name.contains '.' then some (name.reverse.takeWhile (· != '.')).reverse else none

/-- A prefix such as `C:`; one character may take several bytes. -/
def isDrive (part : Text) : Bool := 2 ≤ Text.byteLength part && part.getLast? == some ':'

/-- The directories before the last part, without a drive and without empty parts. -/
def segments (t : Text) : List Text :=
  let dirs := (parts t).dropLast
  let dirs := if dirs.head?.any isDrive then dirs.tail else dirs
  dirs.filter (· ≠ [])

def trimRoot (t : Text) : Text := t.dropWhile isSeparator

end StaticSite.Name
