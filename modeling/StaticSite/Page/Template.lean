import StaticSite.Page.FrontMatter

/-! Tags of a template. A tag begins and ends on one line; it stands for the value of a variable or
for the result of a command, and what it puts in is not looked at again. -/
namespace StaticSite

inductive TagKind
  | value
  | command
  deriving DecidableEq, Repr

namespace TagKind

def opening : TagKind → Text
  | .value => ['\x7b', '\x7b']
  | .command => ['\x7b', '%']

def closing : TagKind → Text
  | .value => ['\x7d', '\x7d']
  | .command => ['%', '\x7d']

end TagKind

structure TagSpan where
  before : Text
  kind : TagKind
  inner : Text
  deriving DecidableEq, Repr

/-- A line as its tags and the text after the last of them. The tail may hold an opening marker that
is not closed. -/
structure Line where
  tags : List TagSpan
  tail : Text
  unclosed : Option TagKind
  deriving DecidableEq, Repr

namespace Line

def nextTag? : Text → Option (Text × TagKind × Text)
  | [] => none
  | '\x7b' :: '\x7b' :: after => some ([], .value, after)
  | '\x7b' :: '%' :: after => some ([], .command, after)
  | c :: rest => (nextTag? rest).map fun (before, kind, after) => (c :: before, kind, after)

theorem eq_of_nextTag? {t b a : Text} {k : TagKind} (h : nextTag? t = some (b, k, a)) :
    t = b ++ k.opening ++ a := by
  fun_induction nextTag? t generalizing b k a with
  | case1 => simp at h
  | case2 after =>
    simp only [Option.some.injEq, Prod.mk.injEq] at h
    obtain ⟨rfl, rfl, rfl⟩ := h
    rfl
  | case3 after =>
    simp only [Option.some.injEq, Prod.mk.injEq] at h
    obtain ⟨rfl, rfl, rfl⟩ := h
    rfl
  | case4 c rest _ _ ih =>
    obtain ⟨⟨b', k', a'⟩, h', he⟩ := Option.map_eq_some_iff.1 h
    simp only [Prod.mk.injEq] at he
    obtain ⟨rfl, rfl, rfl⟩ := he
    simp [ih h']

theorem length_lt_of_tag {t b a inner rest : Text} {k : TagKind} (h : nextTag? t = some (b, k, a))
    (h' : Text.cut? k.closing a = some (inner, rest)) : rest.length < t.length := by
  rw [eq_of_nextTag? h, Text.eq_of_cut? h']
  cases k <;> simp [TagKind.opening, TagKind.closing] <;> omega

def scan (t : Text) : Line :=
  match h : nextTag? t with
  | none => ⟨[], t, none⟩
  | some (before, kind, after) =>
    match h' : Text.cut? kind.closing after with
    | none => ⟨[], t, some kind⟩
    | some (inner, rest) =>
      have := length_lt_of_tag h h'
      let line := scan rest
      { line with tags := ⟨before, kind, inner⟩ :: line.tags }
termination_by t.length

end Line

/-- The variables that a template sees: those of the page, and the content if it is a layout. -/
structure Environment where
  page : FrontMatter
  content : Option Text := none
  deriving Repr

namespace Environment

def contentName : Text := "content".toList

def lookup (env : Environment) (name : Text) : Option Text :=
  if name = contentName then env.content else env.page.text? name

end Environment

/-- A tag that is not closed on its line; lines are counted from one. -/
structure Advisory where
  source : Path
  line : Nat
  kind : TagKind
  deriving DecidableEq, Repr

def Advisory.message (a : Advisory) : Text :=
  "no closing ".toList ++ RenderError.quoted a.kind.closing ++ " for ".toList ++
    RenderError.quoted a.kind.opening ++ " on line ".toList ++ Text.ofNat a.line ++ " of ".toList ++
    a.source.text

structure Rendered where
  text : Text
  advisories : List Advisory
  deriving DecidableEq, Repr

namespace Template

structure Snippets where
  files : FileSystem
  directory : Path
  deriving Repr

def Snippets.read (s : Snippets) (name : Text) : Except RenderError Text :=
  match s.files.readText (s.directory.joinText name) with
  | .ok t => .ok t
  | .error e => .error (.notFound .snippet name (s.directory.joinText name) e)

def includeWord : Text := "include".toList

/-- What a tag stands for. Unknown names and commands stand for nothing. -/
def tagText (s : Snippets) (env : Environment) (kind : TagKind) (inner : Text) :
    Except RenderError Text :=
  match kind with
  | .value => .ok ((env.lookup (Text.trim inner)).getD [])
  | .command =>
    match Text.words inner with
    | [] => .ok []
    | [word] => if word = includeWord then .error (.malformed .missingFileName) else .ok []
    | word :: name :: _ => if word = includeWord then s.read name else .ok []

def tagsText (s : Snippets) (env : Environment) : List TagSpan → Except RenderError Text
  | [] => .ok []
  | tag :: tags =>
    match tagText s env tag.kind tag.inner with
    | .error e => .error e
    | .ok t => (tagsText s env tags).map fun rest => tag.before ++ t ++ rest

/-- A line that ends in a line feed, whatever ended it before. -/
def lineText (s : Snippets) (env : Environment) (line : Line) : Except RenderError Text :=
  (tagsText s env line.tags).map fun t => t ++ line.tail ++ ['\n']

def renderLines (s : Snippets) (env : Environment) (source : Path) :
    Nat → List Text → Except RenderError Rendered
  | _, [] => .ok ⟨[], []⟩
  | n, t :: ts =>
    let line := Line.scan t
    match lineText s env line with
    | .error e => .error e
    | .ok text =>
      (renderLines s env source (n + 1) ts).map fun rest =>
        ⟨text ++ rest.text, (line.unclosed.map fun kind => ⟨source, n, kind⟩).toList ++
          rest.advisories⟩

/-- Puts in every tag of a body. The source is only named in advisories. -/
def render (s : Snippets) (env : Environment) (source : Path) (body : Text) :
    Except RenderError Rendered :=
  renderLines s env source 1 (Text.splitBy (· == '\n') body)

end Template
end StaticSite
