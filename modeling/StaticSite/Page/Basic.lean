import StaticSite.Page.Layout
import StaticSite.Markdown.Html

/-! Pages: a document is rendered, converted and wrapped in its layouts, in this order. -/
namespace StaticSite

inductive Conversion
  | markdown
  deriving DecidableEq, Repr

namespace Conversion

def outputExtension : Conversion → Text
  | .markdown => "html".toList

def apply : Conversion → Text → Text
  | .markdown => Markdown.toHtml

def optional : Option Conversion → Text → Text
  | none => id
  | some c => c.apply

end Conversion

/-- The page that a document becomes, or that it is copied as it stands. -/
inductive PageOutput
  | rendered (r : Rendered)
  | verbatim
  deriving DecidableEq, Repr

structure PageRules where
  includes : Path
  layouts : Path
  requireFrontMatter : Bool := true
  deriving DecidableEq, Repr

namespace PageRules

def resolver (rules : PageRules) (fs : FileSystem) : LayoutResolver :=
  ⟨fs, rules.includes, rules.layouts⟩

def copiesVerbatim (rules : PageRules) (content : Bytes) : Bool :=
  rules.requireFrontMatter && !(Text.Utf8.encode Document.fence).isPrefixOf content

def compose (rules : PageRules) (fs : FileSystem) (page : FrontMatter) (source : Path)
    (convert : Text → Text) (body : Text) : Except RenderError Rendered :=
  match Template.render (rules.resolver fs).snippets ⟨page, none⟩ source body with
  | .error e => .error e
  | .ok r => (rules.resolver fs).wrap page ⟨convert r.text, r.advisories⟩

def build (rules : PageRules) (fs : FileSystem) (source : Path) (text : Text)
    (conversion : Option Conversion) :
    Except RenderError PageOutput :=
  match Document.ofText text with
  | .error e => .error e
  | .ok document =>
    match document.metadata, rules.requireFrontMatter with
    | none, true => .ok .verbatim
    | metadata, _ =>
      (rules.compose fs (metadata.getD .empty) source (Conversion.optional conversion)
        document.body).map .rendered

end PageRules
end StaticSite
