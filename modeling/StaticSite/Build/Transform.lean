import StaticSite.Page.Basic
import StaticSite.Name

/-! What is done to a file, by the extension of its name. -/
namespace StaticSite

inductive Transform
  | copy
  | render (conversion : Option Conversion)
  deriving DecidableEq, Repr

/-- The extensions of templates; all other files are copied. -/
structure TransformTable where
  extensions : List Text
  deriving DecidableEq, Repr

namespace TransformTable

def conversionOf (ext : Text) : Option Conversion :=
  if ext = "md".toList || ext = "markdown".toList then some .markdown else none

def transformFor (table : TransformTable) (rel : Path) : Transform :=
  match Name.extension? rel.text with
  | none => .copy
  | some ext => if table.extensions.contains ext then .render (conversionOf ext) else .copy

end TransformTable
end StaticSite
