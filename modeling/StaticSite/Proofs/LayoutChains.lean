import Mathlib
import StaticSite.Page.Layout
import StaticSite.Proofs.Lookup

/-! The layouts around a body, as the names lead from one to the next. As long as no name comes
again, the loop over them stands where the names that it has followed lead to; so what it ends in is
told by the names alone, and a chain that ends comes to the nested rendering of its layouts. -/
namespace StaticSite

namespace Template

variable {s : Snippets} {env : Environment} {source : Path} {chain : List Text} {a : Advisory}
  {r : Rendered}

theorem tagText_ne_cycle {kind : TagKind} {inner : Text} :
    tagText s env kind inner ≠ .error (.cycle chain) := by
  cases kind with
  | value => simp [tagText]
  | command =>
    rw [tagText]
    split
    · simp
    · split <;> simp
    · split
      · rw [Snippets.read]
        split <;> simp
      · simp

theorem tagsText_ne_cycle {tags : List TagSpan} : tagsText s env tags ≠ .error (.cycle chain) := by
  induction tags with
  | nil => simp [tagsText]
  | cons tag tags ih =>
    rw [tagsText]
    split
    next e he =>
      intro heq
      cases heq
      exact tagText_ne_cycle he
    next t ht =>
      cases htags : tagsText s env tags with
      | error e =>
        intro heq
        cases heq
        exact ih htags
      | ok rest => simp [Except.map]

/-- Rendering never finds a cycle; only following layouts does. -/
theorem renderLines_ne_cycle {n : Nat} {lines : List Text} :
    renderLines s env source n lines ≠ .error (.cycle chain) := by
  induction lines generalizing n with
  | nil => simp [renderLines]
  | cons t ts ih =>
    rw [renderLines]
    split
    next e he =>
      intro heq
      cases heq
      rw [lineText] at he
      cases htags : tagsText s env (Line.scan t).tags with
      | error e =>
        rw [htags] at he
        cases he
        exact tagsText_ne_cycle htags
      | ok text => simp [htags, Except.map] at he
    next text ht =>
      cases hrest : renderLines s env source (n + 1) ts with
      | error e =>
        intro heq
        cases heq
        exact ih hrest
      | ok rest => simp [Except.map]

theorem source_of_mem_renderLines {n : Nat} {lines : List Text}
    (h : renderLines s env source n lines = .ok r) (ha : a ∈ r.advisories) : a.source = source := by
  induction lines generalizing n r with
  | nil =>
    cases h
    cases ha
  | cons t ts ih =>
    rw [renderLines] at h
    split at h
    · cases h
    next text ht =>
      cases hrest : renderLines s env source (n + 1) ts with
      | error e => simp [hrest, Except.map] at h
      | ok rest =>
        rw [hrest] at h
        cases h
        cases List.mem_append.1 ha with
        | inl hown =>
          cases hkind : (Line.scan t).unclosed with
          | none => simp [hkind] at hown
          | some kind =>
            rw [hkind] at hown
            rw [List.mem_singleton.1 hown]
        | inr hlater => exact ih hrest hlater

end Template

namespace LayoutResolver

variable {s : LayoutResolver} {page : FrontMatter} {body inner outer : Rendered} {names : List Text}
  {name : Text} {next : Option Text} {layout : Document} {layouts : List (Text × Document)}

/-- That names lead on from the page, each by the layout of the one before, and that these layouts
are there and can be rendered, each around what the one before has been rendered to. Names may come
again. -/
inductive Followed (s : LayoutResolver) (page : FrontMatter) (body : Rendered) :
    List Text → Option Text → Rendered → Prop
  | start : Followed s page body [] page.layout? body
  | wrap {names : List Text} {name : Text} {inner outer : Rendered} {layout : Document}
      (before : Followed s page body names (some name) inner) (found : s.layout name = .ok layout)
      (rendered : s.wrapOnce page name inner layout = .ok outer) :
      Followed s page body (names ++ [name]) (next? layout) outer

theorem wrapFrom_none (s : LayoutResolver) (page : FrontMatter) (fuel : Nat) (names : List Text)
    (inner : Rendered) :
    s.wrapFrom page fuel names none inner = .ok inner := by
  cases fuel <;> rfl

theorem wrapFrom_again (fuel : Nat) (hmem : name ∈ names) :
    s.wrapFrom page fuel names (some name) inner = .error (.cycle (names ++ [name])) := by
  cases fuel with
  | zero => rfl
  | succ fuel => rw [wrapFrom, if_pos hmem]

theorem wrapFrom_wrapped (fuel : Nat) (hmem : name ∉ names) (hfound : s.layout name = .ok layout)
    (hrendered : s.wrapOnce page name inner layout = .ok outer) :
    s.wrapFrom page (fuel + 1) names (some name) inner =
      s.wrapFrom page fuel (names ++ [name]) (next? layout) outer := by
  rw [wrapFrom, if_neg hmem, hfound]
  simp only [hrendered]

/-! ### Names and the files that name them -/

theorem node_of_walk {fs : FileSystem} {followLast : Bool} {links : Nat} {p q : Place}
    {path : List Text} {n : Node} (h : fs.walk followLast links p path = .ok (.found q n)) :
    n = (fs.at? q).getD (.directory 0) := by
  fun_induction FileSystem.walk fs followLast links p path with
  | case1 links p =>
    simp only [Except.ok.injEq, Spot.found.injEq] at h
    obtain ⟨rfl, hnode⟩ := h
    exact hnode.symm
  | case2 _ _ _ ih | case3 _ _ _ _ ih => exact ih h
  | case4 | case5 | case6 | case9 | case11 | case12 => simp at h
  | case7 _ _ _ _ _ _ _ _ _ ih => exact ih h
  | case8 | case10 =>
    simp only [Except.ok.injEq, Spot.found.injEq] at h
    obtain ⟨rfl, rfl⟩ := h
    simp_all
  | case13 =>
    rename_i ih
    exact ih h

theorem node_of_stat {fs : FileSystem} {p : Path} {q : Place} {n : Node}
    (h : fs.stat p = .ok (q, n)) :
    n = (fs.at? q).getD (.directory 0) :=
  node_of_walk (FileSystem.find_of_ok (FileSystem.stat_eq_ok.1 h)).2

theorem at?_of_stat_file {fs : FileSystem} {p : Path} {q : Place} {content : Bytes} {t : Nat}
    (h : fs.stat p = .ok (q, .file content t)) : fs.at? q = some (.file content t) := by
  have hnode := node_of_stat h
  cases hat : fs.at? q with
  | none => simp [hat] at hnode
  | some n => simpa [hat] using hnode.symm

/-- That some places hold every file that the name of a layout leads to. -/
def Holds (s : LayoutResolver) (places : List Place) : Prop :=
  ∀ name q content t, s.files.stat (s.layoutPath name) = .ok (q, .file content t) → q ∈ places

def namedAt (s : LayoutResolver) (places : List Place) : List Text :=
  places.filterMap fun q =>
    match s.files.at? q with
    | some (.file content _) =>
      ((Text.Utf8.decode content).toOption.bind fun t => (Document.ofText t).toOption).bind next?
    | _ => none

theorem mem_namedAt {places : List Place} (hplaces : s.Holds places)
    (hfound : s.layout name = .ok layout) {m : Text} (hm : next? layout = some m) :
    m ∈ s.namedAt places := by
  rw [LayoutResolver.layout, FileSystem.readText, FileSystem.read] at hfound
  cases hstat : s.files.stat (s.layoutPath name) with
  | error e => simp [hstat] at hfound
  | ok r =>
    obtain ⟨q, node⟩ := r
    cases node with
    | directory | link => simp [hstat] at hfound
    | file content t =>
      cases hdecode : Text.Utf8.decode content with
      | error e => simp [hstat, hdecode] at hfound
      | ok text =>
        simp only [hstat, hdecode] at hfound
        refine List.mem_filterMap.2 ⟨q, hplaces name q content t hstat, ?_⟩
        simp [at?_of_stat_file hstat, hdecode, hfound, hm, Except.toOption]

theorem holds_nodes (s : LayoutResolver) : s.Holds (s.files.nodes.map (·.1)) := by
  intro name q content t hstat
  have hat := at?_of_stat_file hstat
  have hne : q ≠ [] := by
    rintro rfl
    cases hat
  exact List.mem_map.2 ⟨_, FileSystem.mem_nodes_of_at? hne hat, rfl⟩

theorem Followed.named {places : List Place} (hplaces : s.Holds places)
    (h : Followed s page body names next inner) :
    ∀ m ∈ (names ++ next.toList).tail, m ∈ s.namedAt places := by
  induction h with
  | start =>
    intro m hm
    cases hnext : page.layout? <;> simp [hnext] at hm
  | wrap before hfound hrendered ih =>
    intro m hm
    rw [List.tail_append_of_ne_nil (by simp)] at hm
    cases List.mem_append.1 hm with
    | inl hfollowed => exact ih m hfollowed
    | inr hnext =>
      exact mem_namedAt hplaces hfound (Option.mem_toList.1 hnext)

theorem Followed.length_le {places : List Place} (hplaces : s.Holds places)
    (h : Followed s page body names next inner) (hnodup : names.Nodup) :
    names.length ≤ places.length + 1 := by
  have htail : ∀ m ∈ names.tail, m ∈ s.namedAt places := by
    intro m hm
    refine h.named hplaces m ?_
    cases names with
    | nil => cases hm
    | cons n names => exact List.mem_append_left _ hm
  have hcount := ((hnodup.sublist (List.tail_sublist names)).subperm htail).length_le
  have hnamed : (s.namedAt places).length ≤ places.length := List.length_filterMap_le ..
  rw [List.length_tail] at hcount
  omega

/-! ### The loop -/

theorem wrap_of_followed (h : Followed s page body names next inner) (hnodup : names.Nodup) :
    s.wrap page body = s.wrapFrom page (s.files.nodes.length + 2 - names.length) names
    next inner := by
  induction h with
  | start => rfl
  | @wrap names name inner outer layout before hfound hrendered ih =>
    obtain ⟨hbefore, -, hnew⟩ := List.nodup_append.1 hnodup
    have hmem : name ∉ names := fun hin => hnew name hin name (List.mem_singleton_self _) rfl
    have hlen := before.length_le s.holds_nodes hbefore
    rw [List.length_map] at hlen
    have hfuel : s.files.nodes.length + 2 - names.length =
        (s.files.nodes.length + 2 - (names ++ [name]).length) + 1 := by
      rw [List.length_append, List.length_singleton]
      omega
    rw [ih hbefore, hfuel, wrapFrom_wrapped _ hmem hfound hrendered]

/-! ### Nested rendering -/

/-- That names lead through some layouts and then to no other. -/
def Linked (s : LayoutResolver) : Option Text → List (Text × Document) → Prop
  | next, [] => next = none
  | next, (name, layout) :: rest =>
    next = some name ∧ s.layout name = .ok layout ∧ Linked s (next? layout) rest

/-- The rendering of the first of some layouts, which are given from the outermost in: its content
is the rendering of those in it, and of no layout it is the text itself. -/
def nested (s : LayoutResolver) (page : FrontMatter) (text : Text) :
    List (Text × Document) → Except RenderError Rendered
  | [] => .ok ⟨text, []⟩
  | (name, layout) :: inner =>
    match nested s page text inner with
    | .error e => .error e
    | .ok content =>
      Template.render s.snippets ⟨page, some content.text⟩ (s.layoutPath name) layout.body

/-- The advisories of the renderings of some layouts, which are given from the outermost in: those
of the innermost first. -/
def nestedAdvisories (s : LayoutResolver) (page : FrontMatter) (text : Text) :
    List (Text × Document) → List Advisory
  | [] => []
  | l :: inner =>
    nestedAdvisories s page text inner ++
      ((s.nested page text (l :: inner)).toOption.map (·.advisories)).getD []

variable {text : Text} {r : Rendered}

theorem nested_cons_eq_ok (h : s.nested page text ((name, layout) :: layouts) = .ok r) :
    ∃ content, s.nested page text layouts = .ok content ∧
      Template.render s.snippets ⟨page, some content.text⟩ (s.layoutPath name) layout.body =
        .ok r := by
  rw [nested] at h
  cases hinner : s.nested page text layouts with
  | error e => simp [hinner] at h
  | ok content =>
    rw [hinner] at h
    exact ⟨content, rfl, h⟩

theorem nestedAdvisories_cons (h : s.nested page text ((name, layout) :: layouts) = .ok r) :
    s.nestedAdvisories page text ((name, layout) :: layouts) = s.nestedAdvisories page text
    layouts ++ r.advisories := by
  rw [nestedAdvisories, h]
  rfl

theorem nested_of_append {outers : List (Text × Document)}
    (h : s.nested page text (outers ++ layouts) = .ok r) :
    ∃ content, s.nested page text layouts = .ok content := by
  induction outers generalizing r with
  | nil => exact ⟨r, h⟩
  | cons l outers ih =>
    obtain ⟨content, hcontent, -⟩ := nested_cons_eq_ok h
    exact ih hcontent

theorem source_of_mem_nested {a : Advisory}
    (h : s.nested page text ((name, layout) :: layouts) = .ok r) (ha : a ∈ r.advisories) :
    a.source = s.layoutPath name := by
  obtain ⟨content, -, hr⟩ := nested_cons_eq_ok h
  exact Template.source_of_mem_renderLines hr ha

theorem Followed.through {done : List (Text × Document)} {outer : Rendered}
    (h : Followed s page body names next ⟨r.text,
      body.advisories ++ s.nestedAdvisories page body.text done⟩)
    (hdone : s.nested page body.text done = .ok r) (hlinked : s.Linked next layouts)
    (hall : s.nested page body.text (layouts.reverse ++ done) = .ok outer) :
    Followed s page body (names ++ layouts.map (·.1)) none
      ⟨outer.text, body.advisories ++ s.nestedAdvisories page body.text
        (layouts.reverse ++ done)⟩ := by
  induction layouts generalizing names next done r with
  | nil =>
    rw [Linked] at hlinked
    subst hlinked
    rw [List.reverse_nil, List.nil_append] at hall ⊢
    rw [hdone] at hall
    cases hall
    simpa using h
  | cons l layouts ih =>
    obtain ⟨name, layout⟩ := l
    obtain ⟨rfl, hfound, hrest⟩ := hlinked
    rw [List.reverse_cons, List.append_assoc, List.singleton_append] at hall ⊢
    obtain ⟨wrapped, hwrapped⟩ := nested_of_append hall
    obtain ⟨content, hcontent, hr⟩ := nested_cons_eq_ok hwrapped
    rw [hdone] at hcontent
    cases hcontent
    have honce : s.wrapOnce page name ⟨r.text,
        body.advisories ++ s.nestedAdvisories page body.text done⟩ layout =
        .ok ⟨wrapped.text, body.advisories ++ s.nestedAdvisories page body.text
          ((name, layout) :: done)⟩ := by
      rw [wrapOnce, hr, nestedAdvisories_cons hwrapped, ← List.append_assoc]
      rfl
    have hnext := h.wrap hfound honce
    simpa using ih hnext hwrapped hrest hall

theorem document_of_parse {t b : Text}
    (hparse : (Document.ofText t).toOption.map (fun d => (next? d, d.body)) = some (next, b)) :
    ∃ d, Document.ofText t = .ok d ∧ next? d = next ∧ d.body = b := by
  cases hdoc : Document.ofText t with
  | error e => simp [hdoc, Except.toOption] at hparse
  | ok d =>
    rw [hdoc] at hparse
    cases hparse
    exact ⟨d, rfl, rfl, rfl⟩

theorem layout_of_readText {t : Text} {b : Text}
    (hread : s.files.readText (s.layoutPath name) = .ok t)
    (hparse : (Document.ofText t).toOption.map (fun d => (next? d, d.body)) = some (next, b)) :
    ∃ d, s.layout name = .ok d ∧ next? d = next ∧ d.body = b := by
  rw [LayoutResolver.layout, hread]
  exact document_of_parse hparse

theorem nested_of_body {content : Rendered} {b : Text}
    (hinner : s.nested page text layouts = .ok content) (hbody : layout.body = b)
    (hr : (Template.render s.snippets ⟨page, some content.text⟩ (s.layoutPath name) b).toOption =
      some r) :
    s.nested page text ((name, layout) :: layouts) = .ok r := by
  subst hbody
  rw [nested, hinner]
  cases hrender : Template.render s.snippets ⟨page, some content.text⟩ (s.layoutPath name)
    layout.body with
  | error e => simp [hrender, Except.toOption] at hr
  | ok wrapped =>
    rw [hrender] at hr
    cases hr
    exact hrender

/-- A chain of layouts comes to their nested rendering: around the body, each is rendered with the
rendering before as its content, all for the variables of the page, and the advisories stand in the
order of the chain, after those of the body, each with the file of its layout. No layout leaves the
body as it is. -/
theorem wrap_eq_nested (s : LayoutResolver) (page : FrontMatter) (body : Rendered) :
    (page.layout? = none → s.wrap page body = .ok body) ∧
      ∀ layouts outer, s.Linked page.layout? layouts → (layouts.map (·.1)).Nodup →
        s.nested page body.text layouts.reverse = .ok outer →
          s.wrap page body =
              .ok ⟨outer.text, body.advisories ++ s.nestedAdvisories page body.text
                layouts.reverse⟩ ∧
            ∀ inner name layout rest, layouts = inner ++ (name, layout) :: rest →
              ∃ content r, s.nested page body.text inner.reverse = .ok content ∧
                Template.render s.snippets ⟨page, some content.text⟩ (s.layoutPath name)
                layout.body = .ok r ∧
                  s.nestedAdvisories page body.text ((name, layout) :: inner.reverse) =
                      s.nestedAdvisories page body.text inner.reverse ++ r.advisories ∧
                    ∀ a ∈ r.advisories, a.source = s.layoutPath name := by
  refine ⟨fun hnone => by rw [wrap, hnone, wrapFrom_none], ?_⟩
  intro layouts outer hlinked hnodup hnested
  constructor
  · have hstart : Followed s page body [] page.layout?
        ⟨body.text, body.advisories ++ s.nestedAdvisories page body.text []⟩ := by
      rw [nestedAdvisories, List.append_nil]
      exact .start
    have hthrough := hstart.through (r := ⟨body.text, []⟩) rfl hlinked (by rwa [List.append_nil])
    rw [List.nil_append, List.append_nil] at hthrough
    rw [wrap_of_followed hthrough hnodup, wrapFrom_none]
  · rintro inner name layout rest rfl
    rw [List.reverse_append, List.reverse_cons, List.append_assoc, List.singleton_append] at hnested
    obtain ⟨r, hr⟩ := nested_of_append hnested
    obtain ⟨content, hcontent, hrendered⟩ := nested_cons_eq_ok hr
    exact ⟨content, r, hcontent, hrendered, nestedAdvisories_cons hr,
      fun a ha => source_of_mem_nested hr ha⟩

/-- A layout that names another, each with a tag that is not closed. -/
def framedLayouts : LayoutResolver where
  files :=
    { nodes := [(["l".toList], .directory 0),
        (["l".toList, "post.html".toList], .file (Text.Utf8.encode
          "---\nlayout: base\ntitle: p\n---\n<\x7b\x7bcontent\x7d\x7d>\n\x7b%".toList) 1),
        (["l".toList, "base.html".toList], .file (Text.Utf8.encode
          "---\ntitle: b\n---\n[\x7b\x7btitle\x7d\x7d\x7b\x7bcontent\x7d\x7d]\n\x7b\x7b".toList) 1)]
      here := []
      clock := 1 }
  includes := .ofString "/i"
  layouts := .ofString "/l"

def framedPage : FrontMatter :=
  ⟨[("layout".toList, .string "post".toList), ("title".toList, .string "t".toList)]⟩

theorem framedLayouts_post :
    ∃ post, framedLayouts.layout "post".toList = .ok post ∧ next? post = some "base".toList ∧
      post.body = "<\x7b\x7bcontent\x7d\x7d>\n\x7b%".toList :=
  layout_of_readText
    (t := "---\nlayout: base\ntitle: p\n---\n<\x7b\x7bcontent\x7d\x7d>\n\x7b%".toList) (by cbv)
    (by decide +kernel)

theorem framedLayouts_base :
    ∃ base, framedLayouts.layout "base".toList = .ok base ∧ next? base = none ∧
      base.body = "[\x7b\x7btitle\x7d\x7d\x7b\x7bcontent\x7d\x7d]\n\x7b\x7b".toList :=
  layout_of_readText
    (t := "---\ntitle: b\n---\n[\x7b\x7btitle\x7d\x7d\x7b\x7bcontent\x7d\x7d]\n\x7b\x7b".toList)
    (by cbv)
    (by decide +kernel)

def framedBody : Rendered := ⟨"x".toList, [⟨.ofString "/w/a.html", 7, .value⟩]⟩

/-- The title is that of the page at every level, and the advisories come from the innermost layout
out. -/
theorem framedLayouts_wrap :
    framedLayouts.wrap framedPage framedBody =
      .ok ⟨"[t<x>\n\x7b%\n]\n\x7b\x7b\n".toList, [⟨.ofString "/w/a.html", 7, .value⟩,
        ⟨.ofString "/l/post.html", 2, .command⟩, ⟨.ofString "/l/base.html", 2, .value⟩]⟩ := by
  obtain ⟨post, hpost, hpostNext, hpostBody⟩ := framedLayouts_post
  obtain ⟨base, hbase, hbaseNext, hbaseBody⟩ := framedLayouts_base
  have hlinked : framedLayouts.Linked framedPage.layout?
      [("post".toList, post), ("base".toList, base)] :=
    ⟨by decide, hpost, hpostNext, hbase, hbaseNext⟩
  have hstart : framedLayouts.nested framedPage framedBody.text [] = .ok ⟨"x".toList, []⟩ := rfl
  have hinner : framedLayouts.nested framedPage framedBody.text [("post".toList, post)] =
      .ok ⟨"<x>\n\x7b%\n".toList, [⟨.ofString "/l/post.html", 2, .command⟩]⟩ :=
    nested_of_body hstart hpostBody (by decide +kernel)
  have hnested : framedLayouts.nested framedPage framedBody.text
      [("base".toList, base), ("post".toList, post)] =
      .ok ⟨"[t<x>\n\x7b%\n]\n\x7b\x7b\n".toList, [⟨.ofString "/l/base.html", 2, .value⟩]⟩ :=
    nested_of_body hinner hbaseBody (by decide +kernel)
  have hnames : (["post".toList, "base".toList] : List Text).Nodup := by decide
  have hwrap := ((wrap_eq_nested framedLayouts framedPage framedBody).2
    [("post".toList, post), ("base".toList, base)] _
    hlinked hnames hnested).1
  have hreverse : [("post".toList, post), ("base".toList, base)].reverse =
      [("base".toList, base), ("post".toList, post)] := rfl
  rw [hwrap, hreverse, nestedAdvisories_cons hnested, nestedAdvisories_cons hinner]
  rfl

end LayoutResolver
end StaticSite
