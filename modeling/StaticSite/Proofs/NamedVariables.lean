import Mathlib
import StaticSite.Proofs.LayoutCycles
import StaticSite.Proofs.Reads
import StaticSite.Proofs.TagGrammar
import StaticSite.Proofs.Updates
import StaticSite.Proofs.Utf8Coding

/-! What of a page its rendering depends on. Of the variables it is only those that value tags of
the body or of a layout of its chain name, and never one under the name of the content. Of a layout
it is the body and the layout that it names; the rest of its front matter can be seen only where the
file is also included as it is. -/
namespace StaticSite

variable {env env' : Environment} {page other : FrontMatter} {body inner : Text} {source : Path}

namespace Template

variable {s : Snippets} {tags : List TagSpan} {lines : List Text} {n : Nat} {p : Path}

def tagsOf (body : Text) : List TagSpan := (Text.splitBy (· == '\n') body).flatMap fun t =>
    (Line.scan t).tags

def named? : TagSpan → Option Text
  | ⟨_, .value, inner⟩ => some (Text.trim inner)
  | ⟨_, .command, _⟩ => none

def names (body : Text) : List Text := (tagsOf body).filterMap named?

def mentions (s : Snippets) (body : Text) : List Path :=
  (tagsOf body).flatMap fun tag => tagReads s tag.kind tag.inner

theorem mem_mentions_of_mem_reads (h : p ∈ reads s env body) : p ∈ mentions s body := by
  have htags {tags : List TagSpan} (hp : p ∈ tagsReads s env tags) :
      ∃ tag ∈ tags, p ∈ tagReads s tag.kind tag.inner := by
    induction tags with
    | nil => simp [tagsReads] at hp
    | cons tag tags ih =>
      rw [tagsReads] at hp
      cases List.mem_append.1 hp with
      | inl hown => exact ⟨tag, List.mem_cons_self, hown⟩
      | inr hlater =>
        split at hlater
        · cases hlater
        · obtain ⟨later, hmem, hread⟩ := ih hlater
          exact ⟨later, List.mem_cons_of_mem _ hmem, hread⟩
  have hlines {lines : List Text} (hp : p ∈ linesReads s env lines) :
      ∃ t ∈ lines, p ∈ tagsReads s env (Line.scan t).tags := by
    induction lines with
    | nil => simp [linesReads] at hp
    | cons t lines ih =>
      rw [linesReads] at hp
      cases List.mem_append.1 hp with
      | inl hown => exact ⟨t, List.mem_cons_self, hown⟩
      | inr hlater =>
        split at hlater
        · cases hlater
        · obtain ⟨later, hmem, hread⟩ := ih hlater
          exact ⟨later, List.mem_cons_of_mem _ hmem, hread⟩
  obtain ⟨t, ht, hline⟩ := hlines h
  obtain ⟨tag, htag, hread⟩ := htags hline
  exact List.mem_flatMap.2 ⟨tag, List.mem_flatMap.2 ⟨t, ht, htag⟩, hread⟩

theorem tagText_env {tag : TagSpan} (h : ∀ x, named? tag = some x → env'.lookup x = env.lookup x) :
    tagText s env' tag.kind tag.inner = tagText s env tag.kind tag.inner := by
  obtain ⟨before, kind, inner⟩ := tag
  cases kind with
  | value => simp only [tagText, h _ rfl]
  | command => rfl

theorem tagsText_env (h : ∀ x ∈ tags.filterMap named?, env'.lookup x = env.lookup x) :
    tagsText s env' tags = tagsText s env tags := by
  induction tags with
  | nil => rfl
  | cons tag tags ih =>
    have htag := tagText_env (s := s) fun x hx =>
      h x (List.mem_filterMap.2 ⟨tag, List.mem_cons_self, hx⟩)
    have hrest : ∀ x ∈ tags.filterMap named?, env'.lookup x = env.lookup x := by
      intro x hx
      obtain ⟨later, hmem, hname⟩ := List.mem_filterMap.1 hx
      exact h x (List.mem_filterMap.2 ⟨later, List.mem_cons_of_mem _ hmem, hname⟩)
    rw [tagsText, tagsText, htag, ih hrest]

theorem renderLines_env
    (h : ∀ x ∈ (lines.flatMap fun t => (Line.scan t).tags).filterMap named?,
      env'.lookup x = env.lookup x) :
    renderLines s env' source n lines = renderLines s env source n lines := by
  induction lines generalizing n with
  | nil => rfl
  | cons t lines ih =>
    rw [List.flatMap_cons, List.filterMap_append] at h
    have hline : lineText s env' (Line.scan t) = lineText s env (Line.scan t) := by
      rw [lineText, lineText, tagsText_env fun x hx => h x (List.mem_append_left _ hx)]
    rw [renderLines, renderLines, hline, ih fun x hx => h x (List.mem_append_right _ hx)]

theorem render_env (h : ∀ x ∈ names body, env'.lookup x = env.lookup x) :
    render s env' source body = render s env source body :=
  renderLines_env h

end Template

/-! ### Chains in lockstep -/

namespace LayoutResolver

variable {s s' : LayoutResolver} {next : Option Text} {names taken rendered : List Text}
  {result : Except RenderError Rendered}

/-- That names lead from one, the first, to another, each by the layout of the one before. -/
inductive LeadsTo (s : LayoutResolver) : Option Text → Text → Prop
  | here (name : Text) : LeadsTo s (some name) name
  | on {name later : Text} {layout : Document} (hfound : s.layout name = .ok layout)
      (hlater : LeadsTo s (next? layout) later) : LeadsTo s (some name) later

/-- The bodies that a page is rendered from: its own, and those of the layouts of its chain. -/
inductive Composes (s : LayoutResolver) (next : Option Text) (body : Text) : Text → Prop
  | own : Composes s next body body
  | layout {name : Text} {layout : Document} (hlead : s.LeadsTo next name)
      (hfound : s.layout name = .ok layout) :
      Composes s next body layout.body

/-- That a layout is the same for two pages, each with its resolver: where it is not found the error
is the same, and where it is, it names the same layout and is rendered alike around everything. -/
def SameLayout (s s' : LayoutResolver) (page other : FrontMatter) (name : Text) : Prop :=
  match s.layout name with
  | .error e => s'.layout name = .error e
  | .ok layout => ∃ layout', s'.layout name = .ok layout' ∧ next? layout' = next? layout ∧
      ∀ inner, s'.wrapOnce other name inner layout' = s.wrapOnce page name inner layout

theorem Loop.congr {inner : Rendered} (h : Loop s page names next inner taken rendered result)
    (hsame : ∀ name, s.LeadsTo next name → s.SameLayout s' page other name) :
    Loop s' other names next inner taken rendered result := by
  induction h with
  | done => exact .done
  | again hmem => exact .again hmem
  | @lost names name inner e hmem hlost =>
    have hname := hsame name (.here name)
    rw [SameLayout, hlost] at hname
    exact .lost hmem hname
  | @failed names name inner layout e hmem hfound hfailed =>
    have hname := hsame name (.here name)
    rw [SameLayout, hfound] at hname
    obtain ⟨layout', hfound', -, hrender⟩ := hname
    exact .failed hmem hfound' ((hrender inner).trans hfailed)
  | @wrapped names taken rendered name inner outer layout result hmem hfound hrendered later ih =>
    have hname := hsame name (.here name)
    rw [SameLayout, hfound] at hname
    obtain ⟨layout', hfound', hnext, hrender⟩ := hname
    have hlater := ih fun later hlead => hsame later (.on hfound hlead)
    rw [← hnext] at hlater
    exact .wrapped hmem hfound' ((hrender inner).trans hrendered) hlater

theorem wrap_congr {inner : Rendered} (hnext : other.layout? = page.layout?)
    (hsame : ∀ name, s.LeadsTo page.layout? name → s.SameLayout s' page other name) :
    s'.wrap other inner = s.wrap page inner := by
  obtain ⟨taken, rendered, hloop⟩ :=
    exists_loop (.start : Followed s page inner [] _ inner) List.nodup_nil
  obtain ⟨taken', rendered', hloop'⟩ :=
    exists_loop (.start : Followed s' other inner [] _ inner) List.nodup_nil
  rw [hnext] at hloop'
  rw [wrap, wrap, hnext]
  exact ((hloop.congr hsame).unique hloop').2.2

/-- That a state is another one with the file at a place written anew, as a document with the same
body, whose front matter names the same layout. -/
inductive Refronted (fs : FileSystem) (q : Place) : FileSystem → Prop
  | mk {content content' : Bytes} {time time' : Nat} {text text' : Text}
      {document document' : Document}
      (hat : fs.at? q = some (.file content time)) (hdecode : Text.Utf8.decode content = .ok text)
      (hdecode' : Text.Utf8.decode content' = .ok text')
        (hparse : Document.ofText text = .ok document)
      (hparse' : Document.ofText text' = .ok document') (hbody : document'.body = document.body)
      (hnext : next? document' = next? document) : Refronted fs q (fs.put q (.file content' time'))

theorem Refronted.readText {fs fs' : FileSystem} {q : Place} {path : Path} (h : Refronted fs q fs')
    (hpath : ∀ n, fs.stat path ≠ .ok (q, n)) : fs'.readText path = fs.readText path := by
  cases h with
  | mk hat => exact FileSystem.readText_put_file hat hpath

theorem Refronted.layout {fs fs' : FileSystem} {q : Place} (h : Refronted fs q fs')
    (rules : PageRules) (name : Text) :
    match (rules.resolver fs).layout name with
    | .error e => (rules.resolver fs').layout name = .error e
    | .ok d =>
      ∃ d', (rules.resolver fs').layout name = .ok d' ∧ d'.body = d.body ∧ next? d' = next? d := by
  have hpath : (rules.resolver fs').layoutPath name = (rules.resolver fs).layoutPath name := rfl
  have hfiles (fs : FileSystem) : (rules.resolver fs).files = fs := rfl
  by_cases hfile : ∃ n, fs.stat ((rules.resolver fs).layoutPath name) = .ok (q, n)
  · obtain ⟨n, hs⟩ := hfile
    cases h with
    | @mk content content' time time' text text' d d' hat hdecode hdecode' hparse hparse' hbody
      hnext =>
      obtain rfl : n = .file content time := by rw [node_of_stat hs, hat, Option.getD_some]
      have hread : fs.readText ((rules.resolver fs).layoutPath name) = .ok text := by
        rw [FileSystem.readText, FileSystem.read, hs]
        simp only [hdecode]
      have hread' : (fs.put q (.file content' time')).readText
          ((rules.resolver fs).layoutPath name) = .ok text' :=
        FileSystem.readText_put_file_self hat hs hdecode'
      rw [LayoutResolver.layout, LayoutResolver.layout, hpath, hfiles, hfiles, hread, hread']
      simp only [hparse]
      exact ⟨d', hparse', hbody, hnext⟩
  · have hread := h.readText fun n hn => hfile ⟨n, hn⟩
    have hsame : (rules.resolver fs').layout name = (rules.resolver fs).layout name := by
      rw [LayoutResolver.layout, LayoutResolver.layout, hpath, hfiles, hfiles, hread]
    rw [hsame]
    cases (rules.resolver fs).layout name with
    | error e => rfl
    | ok d => exact ⟨d, rfl, rfl, rfl⟩

end LayoutResolver

namespace PageRules

variable {rules : PageRules} {fs fs' : FileSystem} {convert : Text → Text}

theorem compose_alike (hnext : other.layout? = page.layout?)
    (hrender : Template.render (rules.resolver fs').snippets ⟨other, none⟩ source body =
      Template.render (rules.resolver fs).snippets ⟨page, none⟩ source body)
    (hsame : ∀ name, (rules.resolver fs).LeadsTo page.layout? name →
      (rules.resolver fs).SameLayout (rules.resolver fs') page other name) :
    rules.compose fs' other source convert body = rules.compose fs page source convert body := by
  rw [compose, compose, hrender]
  cases Template.render (rules.resolver fs).snippets ⟨page, none⟩ source body with
  | error e => rfl
  | ok r => exact LayoutResolver.wrap_congr hnext hsame

theorem compose_of_named (hnext : other.layout? = page.layout?)
    (hnamed : ∀ b, (rules.resolver fs).Composes page.layout? body b → ∀ x ∈ Template.names b,
      x ≠ Environment.contentName → other.text? x = page.text? x) :
    rules.compose fs other source convert body = rules.compose fs page source convert body := by
  have hlookup {b : Text} (hb : (rules.resolver fs).Composes page.layout? body b)
      (content : Option Text) : ∀ x ∈ Template.names b, Environment.lookup ⟨other, content⟩ x =
      Environment.lookup ⟨page, content⟩ x := by
    intro x hx
    by_cases hcontent : x = Environment.contentName
    · simp [Environment.lookup, hcontent]
    · simpa [Environment.lookup, hcontent] using hnamed b hb x hx hcontent
  apply compose_alike hnext (Template.render_env (hlookup .own none))
  intro name hlead
  rw [LayoutResolver.SameLayout]
  split
  next e hlost => exact hlost
  next layout hfound =>
    refine ⟨layout, hfound, rfl, fun inner => ?_⟩
    rw [LayoutResolver.wrapOnce, LayoutResolver.wrapOnce,
      Template.render_env (hlookup (.layout hlead hfound) (some inner.text))]

theorem compose_of_get? (h : ∀ key, key ≠ Environment.contentName →
      other.get? key = page.get? key) :
    rules.compose fs other source convert body = rules.compose fs page source convert body := by
  have hlayout : FrontMatter.layoutKey ≠ Environment.contentName := by decide
  apply compose_of_named
  · rw [FrontMatter.layout?, FrontMatter.layout?, h _ hlayout]
  · intro b _ x _ hcontent
    rw [FrontMatter.text?, FrontMatter.text?, h x hcontent]

theorem compose_of_refronted {q : Place} (h : LayoutResolver.Refronted fs q fs')
    (hunread : ∀ b, (rules.resolver fs).Composes page.layout? body b →
      ∀ p ∈ Template.mentions (rules.resolver fs).snippets b, ∀ n, fs.stat p ≠ .ok (q, n)) :
    rules.compose fs' page source convert body = rules.compose fs page source convert body := by
  have hrender {b : Text} (hb : (rules.resolver fs).Composes page.layout? body b)
      (env : Environment) (label : Path) :
      Template.render (rules.resolver fs').snippets env label b =
      Template.render (rules.resolver fs).snippets env label b := by
    apply Template.render_congr
    intro p hp
    exact h.readText (hunread b hb p (Template.mem_mentions_of_mem_reads hp))
  apply compose_alike rfl (hrender .own _ _)
  intro name hlead
  rw [LayoutResolver.SameLayout]
  have hlayout := h.layout rules name
  split
  next e hlost =>
    rw [hlost] at hlayout
    exact hlayout
  next layout hfound =>
    rw [hfound] at hlayout
    obtain ⟨layout', hfound', hbody, hnext⟩ := hlayout
    refine ⟨layout', hfound', hnext, fun inner => ?_⟩
    rw [LayoutResolver.wrapOnce, LayoutResolver.wrapOnce, hbody, hrender (.layout hlead hfound)]
    rfl

/-- A page depends on the variables that it names alone: two front matters with the same layout and
the same under all names that its body or a layout of its chain uses come to the same text,
advisories or error, and so do two that differ under the name of the content. Nor does it depend on
the front matter of a layout beyond the layout that this names, as long as no include command of the
page or of its chain reads the file of the layout. -/
theorem compose_eq_of_named (rules : PageRules) (fs : FileSystem) (page : FrontMatter)
    (source : Path) (convert : Text → Text) (body : Text) :
    (∀ other : FrontMatter, other.layout? = page.layout? →
        (∀ b, (rules.resolver fs).Composes page.layout? body b → ∀ x ∈ Template.names b,
          x ≠ Environment.contentName → other.text? x = page.text? x) →
        rules.compose fs other source convert body = rules.compose fs page source convert body) ∧
      (∀ other : FrontMatter, (∀ key, key ≠ Environment.contentName →
        other.get? key = page.get? key) →
        rules.compose fs other source convert body = rules.compose fs page source convert body) ∧
      ∀ q fs', LayoutResolver.Refronted fs q fs' →
        (∀ b, (rules.resolver fs).Composes page.layout? body b →
          ∀ p ∈ Template.mentions (rules.resolver fs).snippets b, ∀ n, fs.stat p ≠ .ok (q, n)) →
        rules.compose fs' page source convert body = rules.compose fs page source convert body :=
  ⟨fun _ hnext hnamed => compose_of_named hnext hnamed, fun _ h => compose_of_get? h,
    fun _ _ h hunread => compose_of_refronted h hunread⟩

def sharedRules : PageRules where
  includes := .ofString "/l"
  layouts := .ofString "/l"

def sharedPlace : Place := ["l".toList, "a.html".toList]

def sharedText (x : String) : Text := ("---\nx: " ++ x ++ "\n---\n\x7b\x7bcontent\x7d\x7d").toList

def sharedSite (x : String) : FileSystem where
  nodes := [(sharedPlace, .file (Text.Utf8.encode (sharedText x)) 1), (["l".toList], .directory 0)]
  here := []
  clock := 1

def sharedPage : FrontMatter :=
  ⟨[("layout".toList, .string "a".toList), ("t".toList, .string "T".toList)]⟩

def contentBody : Text := "\x7b\x7bcontent\x7d\x7d".toList

theorem contentBody_reads :
    Template.Reads contentBody [⟨[⟨[], .value, "content".toList⟩], [], none⟩] := by
  have hscan : (Text.splitBy (· == '\n') contentBody).map Line.scan =
      [⟨[⟨[], .value, "content".toList⟩], [], none⟩] := by cbv
  rw [← hscan]
  exact Template.reads_scan contentBody

theorem contentBody_render (s : Template.Snippets) (page : FrontMatter) (content : Text)
    (source : Path) :
    Template.render s ⟨page, some content⟩ source contentBody = .ok ⟨content ++ ['\n'], []⟩ :=
  contentBody_reads.render_eq_ok_iff.2
    ⟨⟨[content ++ ['\n']], .cons ⟨[content], .cons .value .nil, by simp⟩ .nil, by simp⟩, rfl⟩

section
variable {x : String} (hx : x = "1" ∨ x = "2")
include hx

theorem sharedSite_readText : (sharedSite x).readText (.ofString "/l/a.html") =
      .ok (sharedText x) := by
  obtain rfl | rfl := hx
  · cbv
  · cbv

theorem sharedText_document :
    ∃ d, Document.ofText (sharedText x) = .ok d ∧ LayoutResolver.next? d = none ∧
      d.body = contentBody := by
  obtain rfl | rfl := hx
  · exact LayoutResolver.document_of_parse (by decide +kernel)
  · exact LayoutResolver.document_of_parse (by decide +kernel)

theorem sharedSite_layout :
    ∃ d, (sharedRules.resolver (sharedSite x)).layout "a".toList = .ok d ∧
      LayoutResolver.next? d = none ∧ d.body = contentBody := by
  obtain ⟨d, hdoc, hd⟩ := sharedText_document hx
  have hpath : (sharedRules.resolver (sharedSite x)).layoutPath "a".toList =
      .ofString "/l/a.html" := by cbv
  refine ⟨d, ?_, hd⟩
  rw [LayoutResolver.layout, hpath,
    show (sharedRules.resolver (sharedSite x)).files = sharedSite x from rfl,
    sharedSite_readText hx]
  exact hdoc

theorem sharedSite_wrap (inner : Rendered) :
    (sharedRules.resolver (sharedSite x)).wrap sharedPage inner =
      .ok ⟨inner.text ++ ['\n'], inner.advisories⟩ := by
  obtain ⟨d, hfound, hnext, hbody⟩ := sharedSite_layout hx
  have hwrapped : (sharedRules.resolver (sharedSite x)).wrapOnce sharedPage "a".toList inner d =
      .ok ⟨inner.text ++ ['\n'], inner.advisories⟩ := by
    rw [LayoutResolver.wrapOnce, hbody, contentBody_render]
    simp [Except.map]
  have hstart : LayoutResolver.Followed (sharedRules.resolver (sharedSite x)) sharedPage inner []
      (some "a".toList) inner := .start
  have honce := hstart.wrap hfound hwrapped
  rw [hnext] at honce
  rw [LayoutResolver.wrap_of_followed honce (by decide), LayoutResolver.wrapFrom_none]

theorem sharedSite_composes {b : Text}
    (h : (sharedRules.resolver (sharedSite x)).Composes sharedPage.layout? body b) :
    b = body ∨ b = contentBody := by
  obtain ⟨d, hfound, hnext, hbody⟩ := sharedSite_layout hx
  have hlayout : sharedPage.layout? = some "a".toList := by decide
  rw [hlayout] at h
  cases h with
  | own => exact .inl rfl
  | layout hlead hfound' =>
    cases hlead with
    | here =>
      rw [hfound] at hfound'
      cases hfound'
      exact .inr hbody
    | on hfirst hlater =>
      rw [hfound] at hfirst
      cases hfirst
      rw [hnext] at hlater
      cases hlater

end

theorem sharedSite_refronted :
    LayoutResolver.Refronted (sharedSite "1") sharedPlace (sharedSite "2") := by
  obtain ⟨d, hdoc, hnext, hbody⟩ := sharedText_document (.inl rfl)
  obtain ⟨d', hdoc', hnext', hbody'⟩ := sharedText_document (.inr rfl)
  have hput : sharedSite "2" = (sharedSite "1").put sharedPlace
      (.file (Text.Utf8.encode (sharedText "2")) 1) := by rfl
  rw [hput]
  exact .mk (by rfl) (Text.Utf8.decode_encode _) (Text.Utf8.decode_encode _) hdoc hdoc'
    (hbody'.trans hbody.symm) (hnext'.trans hnext.symm)

def valueBody : Text := "\x7b\x7b t \x7d\x7d".toList

theorem valueBody_names : Template.names valueBody = ["t".toList] := by cbv

theorem contentBody_names : Template.names contentBody = ["content".toList] := by cbv

/-- Another variable, an entry under the name of the content and another front matter of the layout:
none of them is seen. -/
theorem sharedSite_alike :
    sharedRules.compose (sharedSite "1") ⟨("s".toList, .string "S".toList) :: sharedPage.entries⟩
    (.ofString "p.html") id
        valueBody = sharedRules.compose (sharedSite "1") sharedPage (.ofString "p.html") id
        valueBody ∧
      sharedRules.compose (sharedSite "1") ⟨("content".toList, .string "C".toList) ::
        sharedPage.entries⟩
        (.ofString "p.html") id valueBody =
          sharedRules.compose (sharedSite "1") sharedPage (.ofString "p.html") id valueBody ∧
      sharedRules.compose (sharedSite "2") sharedPage (.ofString "p.html") id valueBody =
        sharedRules.compose (sharedSite "1") sharedPage (.ofString "p.html") id valueBody := by
  obtain ⟨hnamed, hcontent, hfronted⟩ :=
    compose_eq_of_named sharedRules (sharedSite "1") sharedPage (.ofString "p.html") id valueBody
  refine ⟨hnamed _ (by decide) ?_, hcontent _ ?_, hfronted sharedPlace _ sharedSite_refronted ?_⟩
  · intro b hb x hx hcontent
    obtain rfl | rfl := sharedSite_composes (.inl rfl) hb
    · rw [valueBody_names, List.mem_singleton] at hx
      subst hx
      decide
    · rw [contentBody_names, List.mem_singleton] at hx
      exact absurd hx hcontent
  · intro key hkey
    have hne : (key == "content".toList) = false := beq_false_of_ne hkey
    rw [FrontMatter.get?, List.lookup_cons, hne]
    rfl
  · intro b hb p hp
    have hnone : Template.mentions (sharedRules.resolver (sharedSite "1")).snippets b = [] := by
      obtain rfl | rfl := sharedSite_composes (.inl rfl) hb
      · cbv
      · cbv
    rw [hnone] at hp
    cases hp

def includeBody : Text := "\x7b%include a.html%\x7d".toList

theorem includeBody_reads : Template.Reads includeBody [⟨[⟨[], .command, "include a.html".toList⟩],
      [], none⟩] := by
  have hscan : (Text.splitBy (· == '\n') includeBody).map Line.scan =
      [⟨[⟨[], .command, "include a.html".toList⟩], [], none⟩] := by cbv
  rw [← hscan]
  exact Template.reads_scan includeBody

theorem sharedSite_compose {x : String} (hx : x = "1" ∨ x = "2") :
    sharedRules.compose (sharedSite x) sharedPage (.ofString "p.html") id includeBody =
      .ok ⟨sharedText x ++ "\n\n".toList, []⟩ := by
  have hwords : Text.words "include a.html".toList = Template.includeWord :: "a.html".toList ::
      [] := by decide
  have hrender : Template.render (sharedRules.resolver (sharedSite x)).snippets ⟨sharedPage, none⟩
      (.ofString "p.html") includeBody = .ok ⟨sharedText x ++ ['\n'], []⟩ :=
    includeBody_reads.render_eq_ok_iff.2 ⟨⟨[sharedText x ++ ['\n']],
      .cons ⟨[sharedText x], .cons (.file hwords (sharedSite_readText hx)) .nil, by simp⟩ .nil, by
      simp⟩, rfl⟩
  rw [compose, hrender]
  simp only [id_eq]
  rw [sharedSite_wrap hx]
  simp

/-- The file of a layout that is also included is part of the page as it is, with its front
matter. -/
theorem includes_see_front_matter :
    LayoutResolver.Refronted (sharedSite "1") sharedPlace (sharedSite "2") ∧
      sharedRules.compose (sharedSite "2") sharedPage (.ofString "p.html") id includeBody ≠
        sharedRules.compose (sharedSite "1") sharedPage (.ofString "p.html") id includeBody := by
  refine ⟨sharedSite_refronted, ?_⟩
  rw [sharedSite_compose (.inl rfl), sharedSite_compose (.inr rfl)]
  intro heq
  have htext := congrArg (fun r => r.toOption.map Rendered.text) heq
  revert htext
  decide

end PageRules
end StaticSite
