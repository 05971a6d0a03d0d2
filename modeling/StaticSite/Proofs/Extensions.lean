import Mathlib
import StaticSite.Proofs.Collisions
import StaticSite.Proofs.PathRests

/-! The extension of a converted document is told twice. That which selects the conversion is what
follows the last dot in the last part of its name, behind either separator; that which is exchanged
follows the rules for the names of files. They are the same unless the file has a name that begins
with its extension, or with one more dot. -/
namespace StaticSite

namespace Path

variable {d a old ext m n : Text}

theorem join_append (hd : d = [] ∨ ∃ front, d = front ++ ['/']) (hm : '/' ∉ m) (p : Path) :
    p.join ⟨d ++ m⟩ = (p.join ⟨d⟩).joinText m := by
  have hfront : (Path.mk d).front = d := by
    rcases hd with rfl | ⟨front, rfl⟩
    · rfl
    · simp [Path.front, stemText]
  rw [joinText, join_assoc, join_of_relative (isAbsolute_of_noSlash hm), hfront]

theorem components_join_append_iff (hd : d = [] ∨ ∃ front, d = front ++ ['/']) (hm : Plain m)
    (hn : Plain n) (p : Path) :
    (p.join ⟨d ++ m⟩).components = (p.join ⟨d ++ n⟩).components ↔ m = n := by
  rw [join_append hd hm.noSlash, join_append hd hn.noSlash, components_joinText hm,
    components_joinText hn, List.append_right_inj, List.singleton_inj,
    Component.ofName_injective.eq_iff]

theorem ne_dots_of_last (hold : '.' ∉ old) (hne : old ≠ []) : a ++ '.' :: old ≠ ['.', '.'] := by
  intro h
  cases a with
  | nil =>
    obtain rfl : old = ['.'] := (List.cons.inj h).2
    simp at hold
  | cons c a =>
    have hlength := congrArg List.length h
    have hpos := List.length_pos_of_ne_nil hne
    simp only [List.length_append, List.length_cons, List.length_nil] at hlength
    omega

theorem renamed_of_last (hold : '.' ∉ old) (hne : old ≠ []) (ext : Text) :
    renamed (a ++ '.' :: old) ext =
      if a = [] then '.' :: old ++ '.' :: ext else if a = ['.'] then ['.', '.'] else a ++ '.' ::
        ext := by
  rw [renamed, splitName_of_last hold (ne_dots_of_last hold hne)]
  by_cases ha : a = []
  · subst ha
    rw [if_pos rfl, if_pos rfl, if_neg (by simpa using hne)]
    rfl
  · rw [if_neg ha, if_neg ha]

theorem plain_append (hm : '/' ∉ m) (hn : '/' ∉ n) (hlength : 2 ≤ n.length) : Plain (m ++ n) := by
  refine ⟨fun h => ?_, List.not_mem_append hm hn, fun h => ?_⟩ <;>
  · have hsame := congrArg List.length h
    simp only [List.length_append, List.length_cons, List.length_nil] at hsame
    omega

end Path

theorem Name.exists_front {above : Text}
    (h : above = [] ∨ ∃ front c, above = front ++ [c] ∧ isSeparator c = true) :
    ∃ dirs start, above = dirs ++ start ∧ '/' ∉ start ∧
      (dirs = [] ∨ ∃ front, dirs = front ++ ['/']) ∧
      (above.getLast? = some '\\' ↔ start ≠ []) ∧ start ≠ ['.'] := by
  obtain ⟨dirs, start, rfl, hstart, hdirs⟩ := Text.exists_last (· == '/') above
  have hnone : '/' ∉ start := fun hmem => by simpa using hstart '/' hmem
  have hslash : dirs = [] ∨ ∃ front, dirs = front ++ ['/'] := by
    rcases hdirs with rfl | ⟨front, c, rfl, hc⟩
    · exact .inl rfl
    · obtain rfl : c = '/' := by simpa using hc
      exact .inr ⟨front, rfl⟩
  refine ⟨dirs, start, rfl, hnone, hslash, ?_⟩
  rcases List.eq_nil_or_concat' start with rfl | ⟨front, c, rfl⟩
  · rcases hslash with rfl | ⟨front, rfl⟩ <;> simp
  · have hlast : (dirs ++ (front ++ [c])).getLast? = some c := by simp
    have hc : isSeparator c = true := by
      rcases h with hnil | ⟨front', c', heq, hc'⟩
      · simp at hnil
      · rw [heq, List.getLast?_concat] at hlast
        exact Option.some.inj hlast ▸ hc'
    obtain rfl : c = '\\' := by
      have hne : c ≠ '/' := fun heq => hnone (by simp [heq])
      simpa [isSeparator, hne] using hc
    refine ⟨by simp, fun hdot => ?_⟩
    obtain ⟨-, hcons⟩ := List.append_inj' (show front ++ ['\\'] = [] ++ ['.'] from hdot) rfl
    exact absurd hcons (by decide)

namespace Builder

variable {b : Builder} {c : Config} {cli : CommandLine} {fs₀ : FileSystem} {rel : Path}
  {above stem ext : Text}

/-- The name of the output of a converted document, by what stands before the last part of its own
name, the stem of this part and its extension. -/
def convertedName (above stem ext : Text) : Text :=
  if above.getLast? = some '\\' then stem ++ ".html".toList
  else if stem = [] then '.' :: ext ++ ".html".toList
  else if stem = ['.'] then ['.', '.']
  else stem ++ ".html".toList

theorem convertedName_eq_iff :
    convertedName above stem ext = stem ++ ".html".toList ↔
      (stem ≠ [] ∧ stem ≠ ['.']) ∨ above.getLast? = some '\\' := by
  rw [convertedName]
  split
  next hlast => simp [hlast]
  next hlast =>
    split
    next hnil =>
      subst hnil
      refine iff_of_false (fun h => ?_) (by simp [hlast])
      have hnone : '.' :: ext = [] := List.append_left_eq_self.1 h
      cases hnone
    next hne =>
      split
      next hdot => simp [hdot, hlast]
      next hdot => simp [hne, hdot]

theorem length_convertedName (above stem ext : Text) :
    2 ≤ (convertedName above stem ext).length := by
  rw [convertedName]
  split
  · simp
  · split
    · simp
    · split <;> simp

theorem noSlash_convertedName (above : Text) (hstem : '/' ∉ stem) (hext : '/' ∉ ext) :
    '/' ∉ convertedName above stem ext := by
  rw [convertedName]
  split
  · simp [hstem]
  · split
    · simp [hext]
    · split <;> simp [hstem]

theorem renamed_start {start : Text} (hstart : above.getLast? = some '\\' ↔ start ≠ [])
    (hdot : start ≠ ['.']) (hext : '.' ∉ ext) (hne : ext ≠ []) :
    Path.renamed (start ++ (stem ++ '.' :: ext)) "html".toList = start ++
      convertedName above stem ext := by
  rw [← List.append_assoc, Path.renamed_of_last hext hne, convertedName]
  by_cases hnil : start = []
  · subst hnil
    have hlast : ¬above.getLast? = some '\\' := fun h => hstart.1 h rfl
    rw [if_neg hlast]
    rfl
  · have hone : start ++ stem ≠ ['.'] := by
      intro h
      rcases List.append_eq_singleton_iff.1 h with ⟨hnone, -⟩ | ⟨hsingle, -⟩
      · exact hnil hnone
      · exact hdot hsingle
    rw [if_neg (by simp [hnil]), if_neg hone, if_pos (hstart.2 hnil), List.append_assoc]
    rfl

theorem validName_start {start : Text} (hstart : '/' ∉ start) (hstem : '/' ∉ stem)
    (hslash : '/' ∉ ext) (hext : '.' ∉ ext) (hne : ext ≠ []) :
    ValidName (start ++ (stem ++ '.' :: ext)) := by
  have hpos := List.length_pos_of_ne_nil hne
  have hlength : 2 ≤ (stem ++ '.' :: ext).length := by
    rw [List.length_append, List.length_cons]
    omega
  have hplain := Path.plain_append hstart (n := stem ++ '.' :: ext) (by simp [hstem, hslash])
    hlength
  refine ⟨hplain.ne_nil, hplain.noSlash, hplain.ne_dot, ?_⟩
  rw [← List.append_assoc]
  exact Path.ne_dots_of_last hext hne

theorem destinationFor_renamed (hb : b.destination.isAbsolute) {dirs name : Text}
    (hdirs : dirs = [] ∨ ∃ front, dirs = front ++ ['/']) (hname : ValidName name)
    (h : b.Converts ⟨dirs ++ name⟩) :
    b.destinationFor ⟨dirs ++ name⟩ =
      b.destination.join ⟨dirs ++ Path.renamed name "html".toList⟩ := by
  obtain ⟨conversion, hconversion⟩ := h
  have hrenamed : Path.Plain (Path.renamed name "html".toList) :=
    Path.plain_renamed hname (by decide)
  rw [destinationFor, hconversion]
  simp only
  rw [conversion.outputExtension_eq, Path.join_append hdirs hname.noSlash,
    Path.join_append hdirs hrenamed.noSlash]
  exact Path.withExtension_joinText (Path.isAbsolute_join_left hb) hname (by decide) (by decide)

/-- The output of a converted document has the name that is exchanged by the rules for the names of
files. Its extension is that which selected the conversion, exactly if the stem before it is neither
empty nor one dot, or if it stands behind a backslash. -/
theorem converted_destination_iff (hfs₀ : fs₀.WellFormed) (hload : Config.load fs₀ cli = .ok c)
    (hconverts : (ofConfig c).Converts rel) :
    ∃ above stem ext, rel.text = above ++ (stem ++ '.' :: ext) ∧
      Name.basename rel.text = stem ++ '.' :: ext ∧
      Name.extension? rel.text = some ext ∧
      (ofConfig c).destinationFor rel = c.destination.join ⟨above ++ convertedName above stem ext⟩ ∧
      (((ofConfig c).destinationFor rel).components =
        (c.destination.join ⟨above ++ (stem ++ ".html".toList)⟩).components ↔
        (stem ≠ [] ∧ stem ≠ ['.']) ∨ above.getLast? = some '\\') := by
  have hdest : c.destination.isAbsolute := (Config.loaded_of_load hfs₀ hload).destination.isAbsolute
  obtain ⟨ext, hextension, -, hmarkdown⟩ := converts_iff.1 hconverts
  obtain ⟨above, last, htext, hlast, habove⟩ := Text.exists_last Name.isSeparator rel.text
  obtain ⟨stem, hname, hext⟩ := Name.extension?_eq_some_iff.1 hextension
  have hbase : Name.basename rel.text = last := by rw [htext, Name.basename_append habove hlast]
  rw [hbase] at hname
  subst hname
  obtain ⟨dirs, start, rfl, hstart, hdirs, hback, hdot⟩ := Name.exists_front habove
  have hslash {t : Text} (ht : ∀ c ∈ t, Name.isSeparator c = false) : '/' ∉ t := fun hmem =>
    absurd (ht '/' hmem) (by decide)
  have hstem : '/' ∉ stem := hslash (List.forall_mem_append.1 hlast).1
  have hslashext : '/' ∉ ext := hslash (List.forall_mem_cons.1 (List.forall_mem_append.1 hlast).2).2
  have hne : ext ≠ [] := by rcases hmarkdown with rfl | rfl <;> decide
  have hvalid := validName_start hstart hstem hslashext hext hne
  have houtput : (ofConfig c).destinationFor rel =
      c.destination.join ⟨dirs ++ start ++ convertedName (dirs ++ start) stem ext⟩ := by
    rw [List.append_assoc] at htext
    obtain rfl : rel = ⟨dirs ++ (start ++ (stem ++ '.' :: ext))⟩ := Path.ext_text htext
    rw [destinationFor_renamed hdest hdirs hvalid hconverts, renamed_start hback hdot hext hne,
      List.append_assoc]
    rfl
  refine ⟨dirs ++ start, stem, ext, htext, hbase, hextension, houtput, ?_⟩
  have hmade := Path.plain_append hstart (noSlash_convertedName (dirs ++ start) hstem hslashext)
    (length_convertedName _ _ _)
  have hmeant : Path.Plain (start ++ (stem ++ ".html".toList)) :=
    Path.plain_append hstart (List.not_mem_append hstem (by decide)) (by simp)
  rw [houtput, List.append_assoc, List.append_assoc,
    Path.components_join_append_iff hdirs hmade hmeant, List.append_right_inj]
  exact convertedName_eq_iff

/-- The stem is one dot, but a backslash stands before it. -/
theorem twoForms_converted_destination :
    (ofConfig twoFormsConfig).Converts (.ofString "d/e\\..md") ∧
      ((ofConfig twoFormsConfig).destinationFor (.ofString "d/e\\..md")).components =
        (twoFormsConfig.destination.join (.ofString "d/e\\..html")).components := by
  have hconverts : (ofConfig twoFormsConfig).Converts (.ofString "d/e\\..md") := ⟨.markdown, by cbv⟩
  obtain ⟨above, stem, ext, htext, hname, hextension, -, hiff⟩ :=
    converted_destination_iff twoForms_wellFormed twoForms_load hconverts
  have hmarkdown : Name.extension? (Path.ofString "d/e\\..md").text = some "md".toList := by cbv
  have hlast : Name.basename (Path.ofString "d/e\\..md").text = "..md".toList := by cbv
  obtain rfl : "md".toList = ext := Option.some.inj (hmarkdown.symm.trans hextension)
  obtain rfl : ['.'] = stem := List.append_cancel_right (hlast.symm.trans hname)
  obtain rfl : "d/e\\".toList = above := List.append_cancel_right htext
  exact ⟨hconverts, hiff.2 (.inr (by decide))⟩

/-- Of two documents whose names begin with the dot of their extension, or with one more, the one
keeps its extension, and the other one has the directory above the destination for its output. -/
theorem extension_not_always_exchanged :
    ((ofConfig twoFormsConfig).Converts (.ofString ".md") ∧
      (ofConfig twoFormsConfig).destinationFor (.ofString ".md") = .ofString "/w/_site/.md.html" ∧
      ((ofConfig twoFormsConfig).destinationFor (.ofString ".md")).components ≠
        (twoFormsConfig.destination.join (.ofString ".html")).components) ∧
    ((ofConfig twoFormsConfig).Converts (.ofString "..md") ∧
      (ofConfig twoFormsConfig).destinationFor (.ofString "..md") = .ofString "/w/_site/.." ∧
      ((ofConfig twoFormsConfig).destinationFor (.ofString "..md")).components ≠
        (twoFormsConfig.destination.join (.ofString "..html")).components) := by
  have hkept : (ofConfig twoFormsConfig).destinationFor (.ofString ".md") =
      .ofString "/w/_site/.md.html" := by cbv
  have hup : (ofConfig twoFormsConfig).destinationFor (.ofString "..md") =
      .ofString "/w/_site/.." := by cbv
  rw [hkept, hup]
  exact ⟨⟨⟨.markdown, by cbv⟩, rfl, by decide⟩, ⟨.markdown, by cbv⟩, rfl, by decide⟩

end Builder
end StaticSite
