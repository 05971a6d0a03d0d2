import Mathlib
import StaticSite.Proofs.Outputs

/-! Which documents share an output. Only documents of one directory can, and only by the extension
that converted ones take; every other two have outputs of their own. -/
namespace StaticSite

namespace Path

variable {m n ext : Text}

theorem length_renamed_html (hn : (splitName n).1 ≠ ['.']) :
    5 ≤ (renamed n "html".toList).length := by
  rw [renamed, if_neg hn]
  simp

theorem renamed_eq_iff :
    renamed m "html".toList = renamed n "html".toList ↔ (splitName m).1 = (splitName n).1 := by
  by_cases h : (splitName m).1 = ['.'] <;> by_cases h' : (splitName n).1 = ['.']
  · simp [renamed, h, h']
  · have := length_renamed_html h'
    rw [renamed, if_pos h, h]
    refine ⟨fun he => ?_, fun he => absurd he.symm h'⟩
    rw [← he] at this
    simp at this
  · have := length_renamed_html h
    rw [show renamed n "html".toList = ['.', '.'] by rw [renamed, if_pos h'], h']
    refine ⟨fun he => ?_, fun he => absurd he h⟩
    rw [he] at this
    simp at this
  · rw [renamed, renamed, if_neg h, if_neg h']
    exact List.append_left_inj _

theorem renamed_eq_name_iff (hn : ValidName n) :
    renamed m "html".toList = n ↔ (splitName m).1 ≠ ['.'] ∧
    n = (splitName m).1 ++ ".html".toList := by
  by_cases h : (splitName m).1 = ['.']
  · rw [renamed, if_pos h]
    simp only [h, ne_eq, not_true_eq_false, false_and, iff_false]
    exact fun he => hn.ne_dots he.symm
  · rw [renamed, if_neg h]
    exact ⟨fun he => ⟨h, he.symm⟩, fun he => he.2.symm⟩

end Path

namespace Name

theorem basename_append {a b : Text}
    (ha : a = [] ∨ ∃ front c, a = front ++ [c] ∧ isSeparator c = true)
    (hb : ∀ c ∈ b, isSeparator c = false) : basename (a ++ b) = b := by
  have hpiece : Text.splitBy isSeparator b = [b] := Text.splitBy_of_none hb
  rcases ha with rfl | ⟨front, c, rfl, hc⟩
  · rw [List.nil_append, basename, parts, hpiece]
    rfl
  · rw [List.append_assoc, List.singleton_append, basename, parts,
      Text.splitBy_append_cons _ _ _ hc, hpiece, List.getLast?_concat]
    rfl

theorem extension?_eq_some_iff {t ext : Text} :
    extension? t = some ext ↔ ∃ stem, basename t = stem ++ '.' :: ext ∧ '.' ∉ ext := by
  rw [extension?]
  constructor
  · intro h
    split at h
    next hdot =>
      obtain ⟨stem, rest, hname, hrest⟩ := Text.exists_last_of_mem (List.contains_iff_mem.1 hdot)
      rw [hname, Text.reverse_takeWhile_append hrest, Option.some.injEq] at h
      exact ⟨stem, h ▸ hname, h ▸ hrest⟩
    next => cases h
  · rintro ⟨stem, hname, hext⟩
    rw [hname, if_pos (by simp), Text.reverse_takeWhile_append hext]

theorem extension?_append (a : Text) {ext : Text} (hdot : '.' ∉ ext)
    (hsep : ∀ c ∈ ext, isSeparator c = false) :
    extension? (a ++ '.' :: ext) = some ext := by
  obtain ⟨above, stem, rfl, hstem, habove⟩ := Text.exists_last isSeparator a
  have hname : ∀ c ∈ stem ++ '.' :: ext, isSeparator c = false :=
    List.forall_mem_append.2 ⟨hstem, List.forall_mem_cons.2 ⟨by decide, hsep⟩⟩
  refine extension?_eq_some_iff.2 ⟨stem, ?_, hdot⟩
  rw [List.append_assoc, basename_append habove hname]

end Name

namespace Builder

open FileSystem SourceEntry

variable {b : Builder} {c : Config} {cli : CommandLine} {fs₀ fs : FileSystem}

/-- What makes two documents of one directory share an output: both are converted and have the same
stem, or one is converted and the other has that stem and the extension of the new form. -/
def Collide (b : Builder) (f g : Path) : Prop :=
  ∃ dirs m n, ValidNames dirs ∧ ValidName m ∧ ValidName n ∧ f = .ofNames (dirs ++ [m]) ∧
    g = .ofNames (dirs ++ [n]) ∧
    (b.Converts f ∧ b.Converts g ∧ (Path.splitName m).1 = (Path.splitName n).1 ∨
      b.Converts f ∧ (Path.splitName m).1 ≠ ['.'] ∧ n = (Path.splitName m).1 ++ ".html".toList ∨
      b.Converts g ∧ (Path.splitName n).1 ≠ ['.'] ∧ m = (Path.splitName n).1 ++ ".html".toList)

theorem exists_conversionOf {ext : Text} :
    (∃ conversion, TransformTable.conversionOf ext = some conversion) ↔ ext = "md".toList ∨
    ext = "markdown".toList := by
  rw [TransformTable.conversionOf]
  split
  next h =>
    rw [Bool.or_eq_true, decide_eq_true_eq, decide_eq_true_eq] at h
    exact ⟨fun _ => h, fun _ => ⟨_, rfl⟩⟩
  next h =>
    rw [Bool.or_eq_true, decide_eq_true_eq, decide_eq_true_eq] at h
    exact ⟨fun ⟨_, he⟩ => absurd he.symm (Option.some_ne_none _), fun he => absurd he h⟩

theorem converts_iff {rel : Path} :
    b.Converts rel ↔ ∃ ext, Name.extension? rel.text = some ext ∧ ext ∈ b.transforms.extensions ∧
      (ext = "md".toList ∨ ext = "markdown".toList) := by
  rw [Converts, TransformTable.transformFor]
  cases hext : Name.extension? rel.text with
  | none => simp
  | some ext =>
    simp only [Option.some.injEq, exists_eq_left', ← exists_conversionOf]
    by_cases hmem : b.transforms.extensions.contains ext = true
    · simp only [hmem, if_true, Transform.render.injEq]
      exact ⟨fun h => ⟨List.contains_iff_mem.1 hmem, h⟩, fun h => h.2⟩
    · simp only [hmem, Bool.false_eq_true, if_false]
      refine ⟨fun ⟨_, h⟩ => ?_, fun h => absurd (List.contains_iff_mem.2 h.1) hmem⟩
      simp at h

theorem not_converts_html (dirs : List Text) (stem : Text) :
    ¬b.Converts (.ofNames (dirs ++ [stem ++ ".html".toList])) := by
  rw [converts_iff]
  intro h
  obtain ⟨ext, hext, -, hmd⟩ := h
  obtain ⟨a, ha⟩ : ∃ a, (Path.ofNames (dirs ++ [stem ++ ".html".toList])).text = a ++
    ".html".toList := by
    by_cases hne : dirs = []
    · subst hne
      exact ⟨stem, rfl⟩
    · refine ⟨Text.join ['/'] dirs ++ ['/'] ++ stem, ?_⟩
      rw [Path.ofNames, Text.join_append _ hne (by simp)]
      simp [Text.join]
  have hplain : "html".toList.all (fun c => !Name.isSeparator c) = true := by decide
  have hhtml : Name.extension? (a ++ ".html".toList) = some "html".toList :=
    Name.extension?_append a (by decide) fun c hc => by simpa using List.all_eq_true.1 hplain c hc
  rw [ha, hhtml, Option.some.injEq] at hext
  subst hext
  revert hmd
  decide

theorem outputName_eq_iff {dirs : List Text} {m n : Text} (hm : ValidName m) (hn : ValidName n)
    (hne : m ≠ n) :
    b.outputName dirs m = b.outputName dirs n ↔
      b.Converts (.ofNames (dirs ++ [m])) ∧ b.Converts (.ofNames (dirs ++ [n])) ∧
          (Path.splitName m).1 = (Path.splitName n).1 ∨
        b.Converts (.ofNames (dirs ++ [m])) ∧ (Path.splitName m).1 ≠ ['.'] ∧
          n = (Path.splitName m).1 ++ ".html".toList ∨
        b.Converts (.ofNames (dirs ++ [n])) ∧ (Path.splitName n).1 ≠ ['.'] ∧
          m = (Path.splitName n).1 ++ ".html".toList := by
  have hlate {k l : Text} (hl : b.Converts (.ofNames (dirs ++ [l]))) :
      l ≠ (Path.splitName k).1 ++ ".html".toList := by
    intro heq
    subst heq
    exact not_converts_html dirs _ hl
  rw [outputName, outputName]
  by_cases hfm : b.Converts (.ofNames (dirs ++ [m])) <;> by_cases hfn :
    b.Converts (.ofNames (dirs ++ [n]))
  · rw [if_pos hfm, if_pos hfn, Path.renamed_eq_iff]
    simp only [hfm, hfn, true_and, hlate hfn, hlate hfm, and_false, or_false]
  · rw [if_pos hfm, if_neg hfn, Path.renamed_eq_name_iff hn]
    simp only [hfm, hfn, false_and, and_false, true_and, false_or, or_false]
  · rw [if_neg hfm, if_pos hfn, eq_comm, Path.renamed_eq_name_iff hm]
    simp only [hfm, hfn, false_and, true_and, false_or]
  · rw [if_neg hfm, if_neg hfn]
    simp [hfm, hfn, hne]

/-- Two listed documents have one destination exactly if they collide. -/
theorem destination_eq_iff_collide (hfs₀ : fs₀.WellFormed) (hload : Config.load fs₀ cli = .ok c)
    (hfs : fs.WellFormed) {f g : Path} (hf : f ∈ files ((ofConfig c).collect fs).1)
    (hg : g ∈ files ((ofConfig c).collect fs).1) (hfg : f ≠ g) :
    ((ofConfig c).destinationFor f).components = ((ofConfig c).destinationFor g).components ↔
      (ofConfig c).Collide f g := by
  have hc := Config.loaded_of_load hfs₀ hload
  have hdest : (ofConfig c).destination.isAbsolute := hc.destination.isAbsolute
  have hsource : (ofConfig c).source.isAbsolute := by
    obtain ⟨s, t, hs, -⟩ := hc.source
    exact (congrArg Path.isAbsolute hs).trans (Path.isAbsolute_ofPlace s)
  obtain ⟨dirs, m, hdirs, hm, rfl⟩ := names_of_mem_collect hfs hsource (mem_files.1 hf)
  obtain ⟨dirs', n, hdirs', hn, rfl⟩ := names_of_mem_collect hfs hsource (mem_files.1 hg)
  have hplain {dirs : List Text} {m : Text} (hdirs : ValidNames dirs) (hm : ValidName m) :
      ∀ k ∈ dirs ++ [(ofConfig c).outputName dirs m], Path.Plain k := fun k hk =>
    (List.mem_append.1 hk).elim (hdirs.plain k) ((plain_outputName hm).singleton k)
  have hvalid {dirs : List Text} {m : Text} (hdirs : ValidNames dirs) (hm : ValidName m) :
      ValidNames (dirs ++ [m]) :=
    hdirs.append (by simpa [ValidNames] using hm)
  -- Destinations are the same just if the directories and the names of the outputs are.
  rw [destinationFor_ofNames hdest hdirs hm, destinationFor_ofNames hdest hdirs' hn,
    Path.components_descend hdest (hplain hdirs hm),
    Path.components_descend hdest (hplain hdirs' hn),
    List.append_right_inj, Path.Component.ofName_injective.list_map.eq_iff]
  constructor
  · intro h
    obtain ⟨rfl, hlast⟩ := List.append_inj' h rfl
    have hne : m ≠ n := fun hmn => hfg (by rw [hmn])
    exact ⟨dirs, m, n, hdirs, hm, hn, rfl, rfl,
      (outputName_eq_iff hm hn hne).1 (by simpa using hlast)⟩
  · intro hcase
    obtain ⟨dirs₀, m₀, n₀, hdirs₀, hm₀, hn₀, hf₀, hg₀, hcollide⟩ := hcase
    have hleft := Path.ofNames_inj (hvalid hdirs hm) (hvalid hdirs₀ hm₀) (by simp) (by simp) hf₀
    have hright := Path.ofNames_inj (hvalid hdirs' hn) (hvalid hdirs₀ hn₀) (by simp) (by simp) hg₀
    obtain ⟨rfl, hmm⟩ := List.append_inj' hleft rfl
    obtain ⟨rfl, hnn⟩ := List.append_inj' hright rfl
    obtain rfl := List.singleton_inj.1 hmm
    obtain rfl := List.singleton_inj.1 hnn
    have hne : m ≠ n := fun hmn => hfg (by rw [hmn])
    rw [(outputName_eq_iff hm hn hne).2 hcollide]

def twoForms : FileSystem where
  nodes := [(["w".toList], .directory 0), (["w".toList, "a.md".toList], .file [] 2),
    (["w".toList, "a.html".toList], .file [] 1)]
  here := ["w".toList]
  clock := 5

def twoFormsConfig : Config where
  root := some (.ofString "/w")
  configPath := .ofString "/w/_config.toml"
  source := .ofString "/w"
  destination := .ofString "/w/_site"
  layouts := .ofString "/w/_layouts"
  includes := .ofString "/w/_includes"

theorem twoForms_wellFormed : twoForms.WellFormed := by decide

theorem twoForms_load :
    Config.load twoForms ⟨none, .ofString "_config.toml", none, none,
      .build false⟩ = .ok twoFormsConfig := by
  cbv

theorem twoForms_listed {name : Text} {n : Node} (hname : ValidName name)
    (hat : twoForms.at? ["w".toList, name] = some n)
    (hkind : kindAt? twoForms ((Path.ofString "/w").joinText name) = some .file)
    (hshown : (ofConfig twoFormsConfig).policy.excludesPath (.ofNames [name]) = false) :
    Path.ofNames [name] ∈ files ((ofConfig twoFormsConfig).collect twoForms).1 := by
  have hstat : twoForms.stat ((Path.ofString "/w").join ⟨[]⟩) =
      .ok (["w".toList], .directory 0) := by cbv
  refine mem_files.2 ((mem_collect_iff twoForms_wellFormed rfl hstat).2 ?_)
  refine ⟨[name], n, by simp, by simpa [ValidNames] using hname, rfl, hat, hkind,
    fun a ha hpre => ?_⟩
  cases List.prefix_cons_iff.1 hpre with
  | inl heq =>
    subst heq
    exact absurd rfl ha
  | inr h =>
    obtain ⟨b, rfl, hb⟩ := h
    rw [List.prefix_nil.1 hb]
    exact hshown

theorem twoForms_markdown : Path.ofNames ["a.md".toList] ∈
      files ((ofConfig twoFormsConfig).collect twoForms).1 :=
  twoForms_listed (by decide) rfl (by cbv) (by cbv)

theorem twoForms_html : Path.ofNames ["a.html".toList] ∈
      files ((ofConfig twoFormsConfig).collect twoForms).1 :=
  twoForms_listed (by decide) rfl (by cbv) (by cbv)

theorem twoForms_converts : (ofConfig twoFormsConfig).Converts (.ofNames ["a.md".toList]) :=
  ⟨.markdown, by cbv⟩

/-- The two forms collide, and so the criterion is not empty. -/
theorem twoForms_share_destination :
    ((ofConfig twoFormsConfig).destinationFor (.ofNames ["a.md".toList])).components =
      ((ofConfig twoFormsConfig).destinationFor (.ofNames ["a.html".toList])).components :=
  (destination_eq_iff_collide twoForms_wellFormed twoForms_load twoForms_wellFormed
    twoForms_markdown twoForms_html
    (by decide)).2
    ⟨[], "a.md".toList, "a.html".toList, by decide, by decide, by decide, rfl, rfl,
      .inr (.inl ⟨twoForms_converts, by decide, by decide⟩)⟩

/-- Not all listed documents of a loaded site have destinations of their own. -/
theorem destinations_not_distinct :
    ¬∀ (fs₀ fs : FileSystem) (cli : CommandLine) (c : Config), fs₀.WellFormed →
      Config.load fs₀ cli = .ok c →
      fs.WellFormed → ∀ f g, f ∈ files ((ofConfig c).collect fs).1 →
      g ∈ files ((ofConfig c).collect fs).1 →
        f ≠ g → ((ofConfig c).destinationFor f).components ≠
          ((ofConfig c).destinationFor g).components := by
  intro h
  have hdestination (name : Text) (hname : ValidName name) :
      (ofConfig twoFormsConfig).destinationFor (.ofNames [name]) =
        (Path.ofString "/w/_site").descend [(ofConfig twoFormsConfig).outputName [] name] :=
    destinationFor_ofNames rfl (show ValidNames [] by decide) hname
  have hname : (ofConfig twoFormsConfig).outputName [] "a.md".toList =
      (ofConfig twoFormsConfig).outputName [] "a.html".toList :=
    (outputName_eq_iff (by decide) (by decide) (by decide)).2
      (.inr (.inl ⟨twoForms_converts, by decide, by decide⟩))
  refine h twoForms twoForms _ _ twoForms_wellFormed twoForms_load twoForms_wellFormed
    _ _ twoForms_markdown twoForms_html (by decide) ?_
  rw [hdestination _ (by decide), hdestination _ (by decide), hname]

end Builder
end StaticSite
