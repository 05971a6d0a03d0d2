import StaticSite.Preview.Listing
import StaticSite.Preview.Percent

/-! What the preview answers to a request. -/
namespace StaticSite

inductive Resolved
  | file (path : Path)
  | listing (html : Text)
  | notFound
  deriving DecidableEq, Repr

structure Response where
  status : Nat
  contentType : Text
  body : Bytes
  deriving DecidableEq, Repr

namespace Preview

def isSlash (c : Char) : Bool := c == '/'

def trimSlashes (t : Text) : Text := (((t.dropWhile isSlash).reverse).dropWhile isSlash).reverse

/-- The path that a URL asks for. It is decoded as a whole before its query is cut off; what does
not decode asks for the root. -/
def requestPath (url : Text) : Text :=
  let decoded := match Percent.decode url with
    | .ok t => t
    | .error _ => []
  trimSlashes (decoded.takeWhile (· != '?'))

def climbs (request : Text) : Bool := (Text.splitBy isSlash request).contains ['.', '.']

def indexName : Text := "index.html".toList

/-- A file, or the index or else the listing of a directory. -/
def resolve (fs : FileSystem) (root : Path) (url : Text) : Resolved :=
  let request := requestPath url
  if climbs request then .notFound
  else
    let path := root.joinText request
    if fs.isFile path then .file path
    else if fs.isDirectory path then
      if fs.isFile (path.joinText indexName) then .file (path.joinText indexName)
      else match fs.list path with
        | .ok entries => .listing (Listing.page entries request)
        | .error _ => .notFound
    else .notFound

def contentTypes : List (String × String) :=
  [("html", "text/html; charset=utf-8"), ("htm", "text/html; charset=utf-8"),
    ("css", "text/css; charset=utf-8"), ("js", "application/javascript; charset=utf-8"),
    ("mjs", "application/javascript; charset=utf-8"),
    ("json", "application/json; charset=utf-8"), ("xml", "application/xml; charset=utf-8"),
    ("svg", "image/svg+xml"), ("png", "image/png"), ("jpg", "image/jpeg"), ("jpeg", "image/jpeg"),
    ("gif", "image/gif"), ("webp", "image/webp"), ("ico", "image/x-icon"), ("woff", "font/woff"),
    ("woff2", "font/woff2"), ("ttf", "font/ttf"), ("pdf", "application/pdf"),
    ("txt", "text/plain; charset=utf-8"), ("md", "text/markdown; charset=utf-8")]

def contentType (p : Path) : Text :=
  match p.extension? with
  | none => "application/octet-stream".toList
  | some ext =>
    match contentTypes.find? fun e => e.1.toList == ext with
    | some (_, type) => type.toList
    | none => "application/octet-stream".toList

/-- The answer to a request; a file that cannot be read is none. -/
def respond (fs : FileSystem) (root : Path) (url : Text) : Option Response :=
  match resolve fs root url with
  | .file path =>
    match fs.read path with
    | .ok body => some ⟨200, contentType path, body⟩
    | .error _ => none
  | .listing html => some ⟨200, "text/html; charset=utf-8".toList, Text.Utf8.encode html⟩
  | .notFound => some ⟨404, "text/plain".toList, Text.Utf8.encode "404 Not Found".toList⟩

end Preview
end StaticSite
