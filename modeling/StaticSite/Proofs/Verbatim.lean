import Mathlib
import StaticSite.Build.Basic
import StaticSite.Proofs.Utf8Coding

/-! Copies of templates. Whether a template is copied as it stands is told by its bytes before they
are decoded, and told again by the parse of its text. The two agree, so a template whose text has
been parsed is never copied. -/
namespace StaticSite

theorem Document.opening_eq_plain_iff {t : Text} : opening t = .plain ↔ ¬fence <+: t := by
  rw [← Text.after?_eq_none_iff, opening]
  cases hafter : Text.after? fence t with
  | none => simp
  | some rest =>
    refine iff_of_false ?_ (by simp)
    cases hcut : Text.cut? fence rest with
    | none => simp [hcut]
    | some parts => simp [hcut]

theorem Document.ofText_of_fence {t : Text} (h : fence <+: t) (body : Text) :
    ofText t ≠ .ok ⟨none, body⟩ := by
  have hopening : opening t ≠ .plain := fun hplain => opening_eq_plain_iff.1 hplain h
  rw [ofText]
  cases hcase : opening t with
  | plain => exact absurd hcase hopening
  | unclosed => simp
  | fenced block rest =>
    cases hblock : FrontMatter.ofBlock block with
    | error reason => simp [hblock]
    | ok metadata => simp [hblock]

namespace PageRules

variable {rules : PageRules} {fs : FileSystem} {source : Path} {text : Text}
  {conversion : Option Conversion}

theorem copiesVerbatim_iff {content : Bytes} :
    rules.copiesVerbatim content = true ↔
      rules.requireFrontMatter = true ∧ ¬Text.Utf8.encode Document.fence <+: content := by
  rw [copiesVerbatim, Bool.and_eq_true, Bool.not_eq_true', ← Bool.not_eq_true,
    List.isPrefixOf_iff_prefix]

theorem build_eq_verbatim_iff :
    rules.build fs source text conversion = .ok .verbatim ↔
      rules.requireFrontMatter = true ∧ ¬Document.fence <+: text := by
  have hrendered (result : Except RenderError Rendered) :
      result.map PageOutput.rendered ≠ .ok .verbatim := by
    cases result <;> simp [Except.map]
  by_cases hfence : Document.fence <+: text
  · refine iff_of_false ?_ (fun h => h.2 hfence)
    rw [build]
    cases hdocument : Document.ofText text with
    | error e => simp
    | ok document =>
      obtain ⟨metadata, body⟩ := document
      cases metadata with
      | none => exact absurd hdocument (Document.ofText_of_fence hfence body)
      | some metadata => exact hrendered _
  · have hdocument : Document.ofText text = .ok ⟨none, text⟩ := by
      rw [Document.ofText, Document.opening_eq_plain_iff.2 hfence]
    rw [build, hdocument]
    cases hrequire : rules.requireFrontMatter with
    | true => simp [hfence]
    | false =>
      refine iff_of_false ?_ (by simp)
      exact hrendered _

theorem copiesVerbatim_encode_iff :
    rules.copiesVerbatim (Text.Utf8.encode text) = true ↔
    rules.build fs source text conversion = .ok .verbatim := by
  rw [copiesVerbatim_iff, build_eq_verbatim_iff, Text.Utf8.encode_prefix_iff]

theorem build_ne_verbatim {content : Bytes} (hcopies : rules.copiesVerbatim content = false)
    (hdecode : Text.Utf8.decode content = .ok text) :
    rules.build fs source text conversion ≠ .ok .verbatim := by
  intro hbuild
  rw [← copiesVerbatim_encode_iff, ← Text.Utf8.decode_eq_ok_iff.1 hdecode, hcopies] at hbuild
  exact Bool.noConfusion hbuild

end PageRules

namespace Builder

variable {b : Builder} {fs : FileSystem} {rel : Path} {conversion : Option Conversion}

theorem renderFile_eq_copyVerbatim_iff :
    b.renderFile fs rel conversion = .ok .copyVerbatim ↔
      ∃ content, fs.read (b.source.join rel) = .ok content ∧
        b.pages.copiesVerbatim content = true := by
  rw [renderFile]
  cases hread : fs.read (b.source.join rel) with
  | error e => simp
  | ok content =>
    simp only [Except.ok.injEq, exists_eq_left']
    cases hcopies : b.pages.copiesVerbatim content with
    | true => simp
    | false =>
      refine iff_of_false ?_ (by simp)
      cases hdecode : Text.Utf8.decode content with
      | error flaw => simp
      | ok text =>
        have hparsed : b.pages.build fs rel text conversion ≠ .ok .verbatim :=
          PageRules.build_ne_verbatim hcopies hdecode
        cases hbuild : b.pages.build fs rel text conversion with
        | error e => simp [hbuild]
        | ok output =>
          cases output with
          | verbatim => exact absurd hbuild hparsed
          | rendered page => simp [hbuild]

/-- The check of the bytes and the parse agree on the code of a text, for all rules. So a template
is copied exactly if front matter is required and its bytes do not begin with the fence, whether or
not they are the code of a text; and what is parsed is not copied. -/
theorem copies_without_fence :
    (∀ (rules : PageRules) (fs : FileSystem) (source : Path) (text : Text)
      (conversion : Option Conversion),
      rules.copiesVerbatim (Text.Utf8.encode text) = true ↔
        rules.build fs source text conversion = .ok .verbatim) ∧
    ∀ (b : Builder) (fs : FileSystem) (rel : Path) (conversion : Option Conversion),
      (b.renderFile fs rel conversion = .ok .copyVerbatim ↔
        ∃ content, fs.read (b.source.join rel) = .ok content ∧ b.pages.requireFrontMatter = true ∧
          ¬Text.Utf8.encode Document.fence <+: content) ∧
      ∀ content text, b.pages.copiesVerbatim content = false → Text.Utf8.decode content = .ok text →
        b.pages.build fs rel text conversion ≠ .ok .verbatim := by
  refine ⟨fun _ _ _ _ _ => PageRules.copiesVerbatim_encode_iff, fun b fs rel conversion => ⟨?_, ?_⟩⟩
  · rw [renderFile_eq_copyVerbatim_iff]
    simp only [PageRules.copiesVerbatim_iff]
  · intro content text hcopies hdecode
    exact PageRules.build_ne_verbatim hcopies hdecode

def fencelessSite : FileSystem where
  nodes := [(["w".toList], .directory 0), (["w".toList, "a.md".toList], .file [0xFF, 0x2D] 1),
    (["w".toList, "b.md".toList], .file (Text.Utf8.encode "-é-".toList) 1)]
  here := ["w".toList]
  clock := 5

def fencelessSiteConfig : Config where
  root := some (.ofString "/w")
  configPath := .ofString "/w/_config.toml"
  source := .ofString "/w"
  destination := .ofString "/w/_site"
  layouts := .ofString "/w/_layouts"
  includes := .ofString "/w/_includes"

/-- Both are copied, the second also if its text is built; a text with a fence, though it ends
there, is not. -/
theorem fencelessSite_copied :
    (ofConfig fencelessSiteConfig).renderFile fencelessSite (.ofString "a.md") (some .markdown) =
      .ok .copyVerbatim ∧
    (ofConfig fencelessSiteConfig).renderFile fencelessSite (.ofString "b.md") (some .markdown) =
      .ok .copyVerbatim ∧
    (ofConfig fencelessSiteConfig).pages.build fencelessSite (.ofString "b.md") "-é-".toList
    (some .markdown) = .ok .verbatim ∧
    (ofConfig fencelessSiteConfig).pages.build fencelessSite (.ofString "b.md") "---".toList
    (some .markdown) ≠ .ok .verbatim := by
  have hread : fencelessSite.read ((ofConfig fencelessSiteConfig).source.join (.ofString "a.md")) =
      .ok [0xFF, 0x2D] := by cbv
  have hread' : fencelessSite.read ((ofConfig fencelessSiteConfig).source.join (.ofString "b.md")) =
      .ok (Text.Utf8.encode "-é-".toList) := by cbv
  obtain ⟨hagree, htransform⟩ := copies_without_fence
  obtain ⟨hcopied, -⟩ := htransform (ofConfig fencelessSiteConfig) fencelessSite (.ofString "a.md")
    (some .markdown)
  obtain ⟨hcopied', hparsed⟩ := htransform (ofConfig fencelessSiteConfig) fencelessSite
    (.ofString "b.md") (some .markdown)
  refine ⟨hcopied.2 ⟨_, hread, rfl, by decide⟩, hcopied'.2 ⟨_, hread', rfl, by decide⟩,
    (hagree _ _ _ _ _).1 (by decide), ?_⟩
  exact hparsed (Text.Utf8.encode "---".toList) "---".toList (by decide) (Text.Utf8.decode_encode _)

end Builder
end StaticSite
