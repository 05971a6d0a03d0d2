import StaticSite.Page.Error

/-! Why a build fails. Each error has a message, and below it those of its causes. -/
namespace StaticSite

inductive BuildError
  | createDestination (path : Path) (cause : IoError)
  | createDirectory (path : Path) (cause : IoError)
  | stat (path : Path) (cause : IoError)
  | read (path : Path) (cause : IoError)
  | notText (path : Path) (flaw : Text.Utf8.Flaw)
  | render (cause : RenderError)
  | write (path : Path) (cause : IoError)
  | copy (source destination : Path) (cause : IoError)
  | clear (path : Path) (cause : IoError)
  deriving Repr

namespace BuildError

def chain : BuildError → List Text
  | .createDestination p e =>
    ["Failed to create destination directory: ".toList ++ p.text, e.message]
  | .createDirectory p e => ["Failed to create directory ".toList ++ p.text, e.message]
  | .stat p e => ["Failed to stat ".toList ++ p.text, e.message]
  | .read p e => ["Failed to read ".toList ++ p.text, e.message]
  | .notText p f => [p.text ++ " is not valid UTF-8".toList, f.message]
  | .render e => e.chain
  | .write p e => ["Failed to write ".toList ++ p.text, e.message]
  | .copy p q e => ["Failed to copy ".toList ++ p.text ++ " to ".toList ++ q.text, e.message]
  | .clear p e => ["Failed to clear output directory: ".toList ++ p.text, e.message]

def message (e : BuildError) : Text := Text.join [':', ' '] e.chain

end BuildError
end StaticSite
