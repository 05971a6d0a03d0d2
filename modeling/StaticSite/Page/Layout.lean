import StaticSite.Page.Template

/-! Layouts. A layout is a template that wraps what is rendered so far, and may itself name the next
one. The variables are always those of the page. -/
namespace StaticSite

/-- Where pages find the files they refer to. -/
structure LayoutResolver where
  files : FileSystem
  includes : Path
  layouts : Path
  deriving Repr

namespace LayoutResolver

def snippets (s : LayoutResolver) : Template.Snippets := ⟨s.files, s.includes⟩

def layoutPath (s : LayoutResolver) (name : Text) : Path :=
  s.layouts.joinText (name ++ ".html".toList)

def layout (s : LayoutResolver) (name : Text) : Except RenderError Document :=
  match s.files.readText (s.layoutPath name) with
  | .error e => .error (.notFound .layout name (s.layoutPath name) e)
  | .ok t => Document.ofText t

def next? (d : Document) : Option Text := d.metadata.bind FrontMatter.layout?

def wrapOnce (s : LayoutResolver) (page : FrontMatter) (name : Text) (inner : Rendered)
    (layout : Document) :
    Except RenderError Rendered :=
  (Template.render s.snippets ⟨page, some inner.text⟩ (s.layoutPath name) layout.body).map
    fun outer =>
    ⟨outer.text, inner.advisories ++ outer.advisories⟩

/-- Wraps by the named layout and those it leads to; `chain` holds the names followed before. A name
that comes again ends the walk. -/
def wrapFrom (s : LayoutResolver) (page : FrontMatter) :
    Nat → List Text → Option Text → Rendered → Except RenderError Rendered
  | _, _, none, inner => .ok inner
  | 0, chain, some name, _ => .error (.cycle (chain ++ [name]))
  | fuel + 1, chain, some name, inner =>
    if name ∈ chain then .error (.cycle (chain ++ [name]))
    else match s.layout name with
      | .error e => .error e
      | .ok layout =>
        match wrapOnce s page name inner layout with
        | .error e => .error e
        | .ok outer => wrapFrom s page fuel (chain ++ [name]) (next? layout) outer

/-- Wraps a rendered body in the layouts of its page. All names but the first are found in different
files, which bounds how many there are before one comes again. -/
def wrap (s : LayoutResolver) (page : FrontMatter) (body : Rendered) :
    Except RenderError Rendered :=
  s.wrapFrom page (s.files.nodes.length + 2) [] page.layout? body

end LayoutResolver
end StaticSite
