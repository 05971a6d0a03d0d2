import StaticSite.Config
import StaticSite.Name

/-! What is left out of the source tree: names given in the configuration, private names, and the
places that the program itself uses. -/
namespace StaticSite

/-- `reserved` are paths relative to the source, hidden with all that is below them. -/
structure ExclusionPolicy where
  names : List Text
  reserved : List Path
  deriving DecidableEq, Repr

namespace ExclusionPolicy

def alwaysExcluded : List Text := [".git".toList, "node_modules".toList]

def privateMark : Char := '_'

def isPrivate (name : Text) : Bool := name.head? == some privateMark

def ofNames (names : List Text) : ExclusionPolicy := ⟨alwaysExcluded ++ names, []⟩

def below? (source p : Path) : Option Path :=
  match p.stripPrefix? source with
  | some rel => if rel.text = [] then none else some rel
  | none => none

def ofConfig (c : Config) : ExclusionPolicy :=
  { ofNames c.exclude with
    reserved := [c.configPath, c.destination, c.layouts, c.includes].filterMap (below? c.source) }

def isReserved (policy : ExclusionPolicy) (name : Text) : Bool :=
  policy.reserved.any fun p => (Path.mk (Name.trimRoot name)).startsWith p

def excludes (policy : ExclusionPolicy) (name : Text) : Bool :=
  policy.names.contains (Name.basename name) || policy.names.contains name ||
    isPrivate (Name.basename name) ||
    (Name.segments name).any (fun dir => isPrivate dir || policy.names.contains dir) ||
    policy.isReserved name

def excludesPath (policy : ExclusionPolicy) (rel : Path) : Bool := policy.excludes rel.text

end ExclusionPolicy
end StaticSite
