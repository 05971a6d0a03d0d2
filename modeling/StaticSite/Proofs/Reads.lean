import StaticSite.Build.Basic
import StaticSite.Proofs.Lookup

/-! What a page reads while it is rendered: the files it includes, and its layouts with what these
include, up to the first that fails. Two states that hold the same there render the page alike,
however many files they have besides. -/
namespace StaticSite

def FileSystem.SameTexts (fs fs' : FileSystem) (ps : List Path) : Prop :=
  ∀ p ∈ ps, fs'.readText p = fs.readText p

variable {fs fs' : FileSystem} {ps qs : List Path} {env : Environment} {page : FrontMatter}
  {dir lay source : Path}

theorem FileSystem.SameTexts.of_append (h : fs.SameTexts fs' (ps ++ qs)) :
    fs.SameTexts fs' ps ∧ fs.SameTexts fs' qs :=
  ⟨fun p hp => h p (List.mem_append_left qs hp), fun p hp => h p (List.mem_append_right ps hp)⟩

namespace Template

def tagReads (s : Snippets) : TagKind → Text → List Path
  | .value, _ => []
  | .command, inner =>
    match Text.words inner with
    | [] => []
    | [_] => []
    | word :: name :: _ => if word = includeWord then [s.directory.joinText name] else []

def tagsReads (s : Snippets) (env : Environment) : List TagSpan → List Path
  | [] => []
  | tag :: tags =>
    tagReads s tag.kind tag.inner ++ match tagText s env tag.kind tag.inner with
      | .error _ => []
      | .ok _ => tagsReads s env tags

def linesReads (s : Snippets) (env : Environment) : List Text → List Path
  | [] => []
  | t :: ts =>
    tagsReads s env (Line.scan t).tags ++ match lineText s env (Line.scan t) with
      | .error _ => []
      | .ok _ => linesReads s env ts

def reads (s : Snippets) (env : Environment) (body : Text) : List Path :=
  linesReads s env (Text.splitBy (· == '\n') body)

theorem mem_tagReads {s : Snippets} {kind : TagKind} {inner : Text} {p : Path}
    (h : p ∈ tagReads s kind inner) :
    ∃ name, p = s.directory.joinText name := by
  cases kind with
  | value => simp [tagReads] at h
  | command =>
    rw [tagReads] at h
    split at h
    · simp at h
    · simp at h
    next word name rest hwords =>
      split at h
      · exact ⟨name, List.mem_singleton.1 h⟩
      · simp at h

theorem mem_tagsReads {s : Snippets} {tags : List TagSpan} {p : Path}
    (h : p ∈ tagsReads s env tags) :
    ∃ name, p = s.directory.joinText name := by
  induction tags with
  | nil => simp [tagsReads] at h
  | cons tag tags ih =>
    rw [tagsReads] at h
    cases List.mem_append.1 h with
    | inl h => exact mem_tagReads h
    | inr h =>
      split at h
      · simp at h
      · exact ih h

theorem mem_reads {s : Snippets} {body : Text} {p : Path} (h : p ∈ reads s env body) :
    ∃ name, p = s.directory.joinText name := by
  rw [reads] at h
  generalize Text.splitBy (· == '\n') body = lines at h
  induction lines with
  | nil => simp [linesReads] at h
  | cons t ts ih =>
    rw [linesReads] at h
    cases List.mem_append.1 h with
    | inl h => exact mem_tagsReads h
    | inr h =>
      split at h
      · simp at h
      · exact ih h

theorem tagText_congr {kind : TagKind} {inner : Text}
    (h : fs.SameTexts fs' (tagReads ⟨fs, dir⟩ kind inner)) :
    tagText ⟨fs', dir⟩ env kind inner = tagText ⟨fs, dir⟩ env kind inner := by
  cases kind with
  | value => rfl
  | command =>
    rw [tagReads] at h
    rw [tagText, tagText]
    split
    · rfl
    · rfl
    next word name rest hwords =>
      rw [hwords] at h
      by_cases hword : word = includeWord
      · rw [if_pos hword, if_pos hword, Snippets.read, Snippets.read]
        simp only [if_pos hword] at h
        rw [h (dir.joinText name) (by simp)]
      · rw [if_neg hword, if_neg hword]

theorem tagsText_congr {tags : List TagSpan} (h : fs.SameTexts fs' (tagsReads ⟨fs, dir⟩ env tags)) :
    tagsText ⟨fs', dir⟩ env tags = tagsText ⟨fs, dir⟩ env tags := by
  induction tags with
  | nil => rfl
  | cons tag tags ih =>
    rw [tagsReads] at h
    obtain ⟨htag, hrest⟩ := h.of_append
    rw [tagsText, tagsText, tagText_congr htag]
    cases htext : tagText ⟨fs, dir⟩ env tag.kind tag.inner with
    | error e => rfl
    | ok t =>
      rw [htext] at hrest
      simp only [ih hrest]

theorem renderLines_congr {n : Nat} {lines : List Text}
    (h : fs.SameTexts fs' (linesReads ⟨fs, dir⟩ env lines)) :
    renderLines ⟨fs', dir⟩ env source n lines = renderLines ⟨fs, dir⟩ env source n lines := by
  induction lines generalizing n with
  | nil => rfl
  | cons t ts ih =>
    rw [linesReads] at h
    obtain ⟨hline, hrest⟩ := h.of_append
    have htext : lineText ⟨fs', dir⟩ env (Line.scan t) = lineText ⟨fs, dir⟩ env (Line.scan t) := by
      rw [lineText, lineText, tagsText_congr hline]
    rw [renderLines, renderLines, htext]
    cases hline : lineText ⟨fs, dir⟩ env (Line.scan t) with
    | error e => rfl
    | ok text =>
      rw [hline] at hrest
      simp only [ih hrest]

theorem render_congr {body : Text} (h : fs.SameTexts fs' (reads ⟨fs, dir⟩ env body)) :
    render ⟨fs', dir⟩ env source body = render ⟨fs, dir⟩ env source body :=
  renderLines_congr h

end Template

namespace LayoutResolver

/-- What the layouts from a name on read, themselves among it. -/
def readsFrom (s : LayoutResolver) (page : FrontMatter) :
    Nat → List Text → Option Text → Rendered → List Path
  | _, _, none, _ => []
  | 0, _, some _, _ => []
  | fuel + 1, chain, some name, inner =>
    if chain.contains name then []
    else s.layoutPath name :: match s.layout name with
      | .error _ => []
      | .ok layout =>
        Template.reads s.snippets ⟨page, some inner.text⟩ layout.body ++
          match wrapOnce s page name inner layout with
          | .error _ => []
          | .ok outer => readsFrom s page fuel (chain ++ [name]) (next? layout) outer

theorem mem_readsFrom {s : LayoutResolver} {fuel : Nat} {chain : List Text} {next : Option Text}
    {inner : Rendered} {p : Path} (h : p ∈ s.readsFrom page fuel chain next inner) :
    ∃ name, p = s.includes.joinText name ∨ p = s.layouts.joinText name := by
  induction fuel generalizing chain next inner with
  | zero => cases next <;> simp [readsFrom] at h
  | succ fuel ih =>
    cases next with
    | none => simp [readsFrom] at h
    | some name =>
      rw [readsFrom] at h
      split at h
      · simp at h
      cases List.mem_cons.1 h with
      | inl heq =>
        subst heq
        exact ⟨_, .inr rfl⟩
      | inr h =>
        split at h
        · simp at h
        cases List.mem_append.1 h with
        | inl h => exact (Template.mem_reads h).imp fun _ => .inl
        | inr h =>
          split at h
          · simp at h
          · exact ih h

def named (fs : FileSystem) : List Text :=
  fs.nodes.filterMap fun e =>
    match e.2 with
    | .file content _ =>
      ((Text.Utf8.decode content).toOption.bind fun t => (Document.ofText t).toOption).bind next?
    | _ => none

theorem mem_named (hwf : fs.WellFormed) {s : LayoutResolver} (hs : s.files = fs)
    (hlay : s.layouts.isAbsolute) {name m : Text} {layout : Document}
    (h : s.layout name = .ok layout) (hm : next? layout = some m) : m ∈ named fs := by
  rw [LayoutResolver.layout, hs, FileSystem.readText, FileSystem.read] at h
  cases hstat : fs.stat (s.layoutPath name) with
  | error e => simp [hstat] at h
  | ok r =>
    obtain ⟨q, node⟩ := r
    obtain ⟨hat, -⟩ := hwf.at?_of_stat (Path.isAbsolute_joinText hlay _) hstat
    cases node with
    | directory | link => simp [hstat] at h
    | file content t =>
      cases hdecode : Text.Utf8.decode content with
      | error e => simp [hstat, hdecode] at h
      | ok text =>
        simp only [hstat, hdecode] at h
        have hne : q ≠ [] := by
          intro heq
          subst heq
          simp at hat
        refine List.mem_filterMap.2 ⟨_, FileSystem.mem_nodes_of_at? hne hat, ?_⟩
        simp [hdecode, h, hm, Except.toOption]

/-- What holds of the names followed and the next one: they are all different, and all but the first
are named in files. -/
structure Chained (fs : FileSystem) (chain : List Text) (next : Option Text) : Prop where
  nodup : chain.Nodup
  tail : ∀ m ∈ chain.tail, m ∈ named fs
  next : chain ≠ [] → ∀ m, next = some m → m ∈ named fs

theorem Chained.start (fs : FileSystem) (next : Option Text) :
    Chained fs [] next := ⟨.nil, by simp, by simp⟩

theorem Chained.step {chain : List Text} {name : Text} {next : Option Text}
    (h : Chained fs chain (some name)) (hname : name ∉ chain)
    (hnext : ∀ m, next = some m → m ∈ named fs) : Chained fs (chain ++ [name]) next := by
  refine ⟨?_, fun m hm => ?_, fun _ => hnext⟩
  · rw [List.nodup_append]
    refine ⟨h.nodup, by simp, fun a ha c hc => ?_⟩
    rw [List.mem_singleton.1 hc]
    exact fun he => hname (he ▸ ha)
  · cases chain with
    | nil => simp at hm
    | cons c cs =>
      rw [List.cons_append, List.tail_cons, List.mem_append] at hm
      cases hm with
      | inl hm => exact h.tail m hm
      | inr hm =>
        rw [List.mem_singleton.1 hm]
        exact h.next (by simp) name rfl

theorem Chained.length_le {chain : List Text} {next : Option Text} (h : Chained fs chain next) :
    chain.length ≤ fs.nodes.length + 1 := by
  have htail : chain.tail.length ≤ (named fs).length :=
    ((h.nodup.sublist (List.tail_sublist chain)).subperm h.tail).length_le
  have hnamed : (named fs).length ≤ fs.nodes.length := List.length_filterMap_le ..
  rw [List.length_tail] at htail
  omega

theorem wrapFrom_congr (hwf : fs.WellFormed) (hwf' : fs'.WellFormed) (hlay : lay.isAbsolute)
    {fuel fuel' : Nat} {chain : List Text} {next : Option Text} {inner : Rendered}
    (hchain : Chained fs chain next) (hchain' : Chained fs' chain next)
    (hfuel : fuel + chain.length = fs.nodes.length + 2)
    (hfuel' : fuel' + chain.length = fs'.nodes.length + 2)
    (h : fs.SameTexts fs' (readsFrom ⟨fs, dir, lay⟩ page fuel chain next inner)) :
    wrapFrom ⟨fs', dir, lay⟩ page fuel' chain next inner = wrapFrom ⟨fs, dir, lay⟩ page fuel chain
    next inner := by
  -- The two states may hold different numbers of files, so each loop has a bound of its own;
  -- neither is met, as the names followed are all different.
  induction fuel generalizing fuel' chain next inner with
  | zero =>
    have := hchain.length_le
    omega
  | succ fuel ih =>
    cases fuel' with
    | zero =>
      have := hchain'.length_le
      omega
    | succ fuel' =>
      cases next with
      | none => simp [wrapFrom]
      | some name =>
        rw [readsFrom] at h
        rw [wrapFrom, wrapFrom]
        by_cases hmem : name ∈ chain
        · rw [if_pos hmem, if_pos hmem]
        rw [if_neg fun hc => hmem (List.contains_iff_mem.1 hc)] at h
        rw [if_neg hmem, if_neg hmem]
        have hlayout : layout ⟨fs', dir, lay⟩ name = layout ⟨fs, dir, lay⟩ name := by
          have hread := h _ List.mem_cons_self
          rw [layout, layout]
          rw [show layoutPath ⟨fs', dir, lay⟩ name = layoutPath ⟨fs, dir, lay⟩ name from rfl]
          rw [show fs'.readText (layoutPath ⟨fs, dir, lay⟩ name) =
            fs.readText (layoutPath ⟨fs, dir, lay⟩ name) from hread]
        rw [hlayout]
        cases hl : layout ⟨fs, dir, lay⟩ name with
        | error e => rfl
        | ok document =>
          have hrest : fs.SameTexts fs' _ := fun p hp => h p (List.mem_cons_of_mem _ hp)
          simp only [hl] at hrest
          obtain ⟨hbody, hmore⟩ := hrest.of_append
          have hwrap : wrapOnce ⟨fs', dir, lay⟩ page name inner document =
              wrapOnce ⟨fs, dir, lay⟩ page name inner document := by
            rw [wrapOnce, wrapOnce]
            exact congrArg _ (Template.render_congr hbody)
          simp only [hwrap]
          cases hw : wrapOnce ⟨fs, dir, lay⟩ page name inner document with
          | error e => rfl
          | ok outer =>
            simp only [hw] at hmore
            refine ih ?_ ?_ ?_ ?_ hmore
            · exact hchain.step hmem fun m hm => mem_named hwf rfl hlay hl hm
            · exact hchain'.step hmem fun m hm => mem_named hwf' rfl hlay (hlayout.trans hl) hm
            · rw [List.length_append, List.length_singleton]
              omega
            · rw [List.length_append, List.length_singleton]
              omega

end LayoutResolver

namespace PageRules

variable {rules : PageRules}

def composeReads (rules : PageRules) (fs : FileSystem) (page : FrontMatter) (source : Path)
    (convert : Text → Text) (body : Text) : List Path :=
  Template.reads (rules.resolver fs).snippets ⟨page, none⟩ body ++
    match Template.render (rules.resolver fs).snippets ⟨page, none⟩ source body with
    | .error _ => []
    | .ok r =>
      (rules.resolver fs).readsFrom page (fs.nodes.length + 2) [] page.layout?
        ⟨convert r.text, r.advisories⟩

def reads (rules : PageRules) (fs : FileSystem) (source : Path) (text : Text)
    (conversion : Option Conversion) : List Path :=
  match Document.ofText text with
  | .error _ => []
  | .ok document =>
    match document.metadata, rules.requireFrontMatter with
    | none, true => []
    | metadata, _ =>
      rules.composeReads fs (metadata.getD .empty) source (Conversion.optional conversion)
        document.body

theorem mem_reads {text : Text} {conversion : Option Conversion} {p : Path}
    (h : p ∈ rules.reads fs source text conversion) :
    ∃ name, p = rules.includes.joinText name ∨ p = rules.layouts.joinText name := by
  rw [reads] at h
  split at h
  · simp at h
  split at h
  · simp at h
  cases List.mem_append.1 h with
  | inl h => exact (Template.mem_reads h).imp fun _ => .inl
  | inr h =>
    split at h
    · simp at h
    · exact LayoutResolver.mem_readsFrom h

theorem compose_congr (hwf : fs.WellFormed) (hwf' : fs'.WellFormed)
    (hlay : rules.layouts.isAbsolute) {convert : Text → Text} {body : Text}
    (h : fs.SameTexts fs' (rules.composeReads fs page source convert body)) :
    rules.compose fs' page source convert body = rules.compose fs page source convert body := by
  obtain ⟨hbody, hrest⟩ := h.of_append
  have hrender : Template.render (rules.resolver fs').snippets ⟨page, none⟩ source body =
      Template.render (rules.resolver fs).snippets ⟨page, none⟩ source body :=
    Template.render_congr hbody
  rw [compose, compose, hrender]
  cases hr : Template.render (rules.resolver fs).snippets ⟨page, none⟩ source body with
  | error e => rfl
  | ok r =>
    rw [hr] at hrest
    exact LayoutResolver.wrapFrom_congr hwf hwf' hlay (.start fs _) (.start fs' _) rfl rfl hrest

theorem build_congr (hwf : fs.WellFormed) (hwf' : fs'.WellFormed) (hlay : rules.layouts.isAbsolute)
    {text : Text} {conversion : Option Conversion}
    (h : fs.SameTexts fs' (rules.reads fs source text conversion)) :
    rules.build fs' source text conversion = rules.build fs source text conversion := by
  rw [reads] at h
  rw [build, build]
  cases hdoc : Document.ofText text with
  | error e => rfl
  | ok document =>
    rw [hdoc] at h
    obtain ⟨metadata, body⟩ := document
    cases metadata with
    | some metadata => simp only [compose_congr hwf hwf' hlay h]
    | none =>
      cases hrequire : rules.requireFrontMatter with
      | true => rfl
      | false =>
        simp only [hrequire] at h
        simp only [compose_congr hwf hwf' hlay h]

end PageRules

namespace Builder

variable {b : Builder} {rel : Path}

/-- What the build of a file reads besides the file itself: nothing, unless it is rendered. -/
def reads (b : Builder) (fs : FileSystem) (rel : Path) : List Path :=
  if b.policy.excludesPath rel then []
  else match b.decide fs rel with
  | .ok (.render conversion) =>
    match fs.read (b.source.join rel) with
    | .error _ => []
    | .ok content =>
      if b.pages.copiesVerbatim content then []
      else match Text.Utf8.decode content with
        | .error _ => []
        | .ok text => b.pages.reads fs rel text conversion
  | _ => []

theorem mem_reads {p : Path} (h : p ∈ b.reads fs rel) :
    ∃ name, p = b.pages.includes.joinText name ∨ p = b.pages.layouts.joinText name := by
  rw [reads] at h
  split at h
  · simp at h
  split at h
  case h_2 => simp at h
  split at h
  · simp at h
  split at h
  · simp at h
  split at h
  · simp at h
  · exact PageRules.mem_reads h

theorem plan_congr (hwf : fs.WellFormed) (hwf' : fs'.WellFormed) (hlay : b.pages.layouts.isAbsolute)
    (hdecide : b.decide fs' rel = b.decide fs rel)
    (hread : fs'.read (b.source.join rel) = fs.read (b.source.join rel))
    (h : fs.SameTexts fs' (b.reads fs rel)) :
    b.plan fs' rel = b.plan fs rel := by
  rw [reads] at h
  rw [plan, plan, hdecide]
  by_cases hexcluded : b.policy.excludesPath rel = true
  · rw [if_pos hexcluded, if_pos hexcluded]
  rw [if_neg hexcluded] at h
  rw [if_neg hexcluded, if_neg hexcluded]
  cases hd : b.decide fs rel with
  | error e => rfl
  | ok decision =>
    cases decision with
    | skip | copy => rfl
    | render conversion =>
      rw [hd] at h
      simp only [renderFile, hread]
      cases hcontent : fs.read (b.source.join rel) with
      | error e => rfl
      | ok content =>
        simp only [hcontent] at h
        by_cases hverbatim : b.pages.copiesVerbatim content
        · simp [hverbatim]
        simp only [if_neg hverbatim] at h ⊢
        cases hdecode : Text.Utf8.decode content with
        | error flaw => rfl
        | ok text =>
          simp only [hdecode] at h
          simp only [PageRules.build_congr hwf hwf' hlay h]

end Builder
end StaticSite
