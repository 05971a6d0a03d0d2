import StaticSite.FileSystem
import StaticSite.Yaml.Value

/-! Why a page cannot be rendered. -/
namespace StaticSite

/-- What is wrong with the text of a page. An invalid block is kept; the words that the parser has
for it, with which the message goes on, are left out. -/
inductive Malformed
  | unterminatedBlock
  | invalidBlock (block : Text)
  | notMapping
  | unsupportedKey (key : Yaml.Value)
  | missingFileName
  deriving Repr

def Malformed.message : Malformed → Text
  | .unterminatedBlock => "unterminated metadata block".toList
  | .invalidBlock _ => "invalid metadata block".toList
  | .notMapping => "metadata block is not a key/value mapping".toList
  | .unsupportedKey key => "unsupported metadata key: ".toList ++ key.show_
  | .missingFileName => "\x60include\x60 needs a file name".toList

inductive Fragment
  | layout
  | snippet
  deriving DecidableEq, Repr

def Fragment.word : Fragment → Text
  | .layout => "layout".toList
  | .snippet => "include".toList

inductive RenderError
  | malformed (reason : Malformed)
  | notFound (kind : Fragment) (name : Text) (path : Path) (cause : IoError)
  | cycle (chain : List Text)
  deriving Repr

namespace RenderError

def quoted (t : Text) : Text := '\x60' :: t ++ ['\x60']

def message : RenderError → Text
  | .malformed reason => "malformed input: ".toList ++ reason.message
  | .notFound kind name path _ =>
    kind.word ++ ' ' :: quoted name ++ " not found at ".toList ++ quoted path.text
  | .cycle chain => "layout cycle detected: ".toList ++ Text.join " -> ".toList chain

def chain (e : RenderError) : List Text :=
  match e with
  | .notFound _ _ _ cause => [e.message, cause.message]
  | _ => [e.message]

end RenderError
end StaticSite
