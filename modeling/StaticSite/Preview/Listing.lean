import StaticSite.FileSystem

/-! The page that lists a directory which has no index. -/
namespace StaticSite.Listing

def escapeChar (c : Char) : Text :=
  match c with
  | '&' => "&amp;".toList
  | '<' => "&lt;".toList
  | '>' => "&gt;".toList
  | '"' => "&quot;".toList
  | c => [c]

def escapeHtml (t : Text) : Text := t.flatMap escapeChar

/-- An item of the list. The target of its link is written as it is given. -/
def item (target label : Text) : Text :=
  "<li><a href=\"".toList ++ target ++ "\">".toList ++ label ++ "</a></li>".toList

/-- The item of an entry; a directory has a slash after its name, a link to one has not. -/
def entryItem (start : Text) (name : Text) (node : Node) : Text :=
  item (start ++ '/' :: escapeHtml name) (escapeHtml name ++ if node.isDirectory then ['/'] else [])

def parentItem (request : Text) : Text :=
  item ('/' :: (((Path.mk request).parent?).getD ⟨[]⟩).text) "..".toList

def isShown (name : Text) : Bool := name.head? != some '.'

def items (entries : List (Text × Node)) (request : Text) : List Text :=
  let start := if request = [] then [] else '/' :: request
  (if request = [] then [] else [parentItem request]) ++
    (entries.filter fun e => isShown e.1).map fun (name, node) => entryItem start name node

/-- The page for the entries of a directory, which is requested without slashes at its ends. -/
def page (entries : List (Text × Node)) (request : Text) : Text :=
  let title := escapeHtml ('/' :: request)
  "<!DOCTYPE html>\n<html>\n<head><meta charset=\"utf-8\"><title>".toList ++ title ++
    "</title></head>\n<body>\n<h1>".toList ++ title ++ "</h1>\n<ul>\n".toList ++
    Text.join ['\n'] (items entries request) ++ "\n</ul>\n</body>\n</html>\n".toList

end StaticSite.Listing
