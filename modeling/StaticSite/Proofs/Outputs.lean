import StaticSite.Proofs.Listing

/-! Where outputs go. The destination of a document keeps its directory; a converted one has the
extension of its new form, by the rules for the names of files. -/
namespace StaticSite

namespace Path

variable {p : Path} {n ext : Text}

theorem splitName_of_last {a b : Text} (hb : '.' ∉ b) (ht : a ++ '.' :: b ≠ ['.', '.']) :
    splitName (a ++ '.' :: b) = if a = [] then (a ++ '.' :: b, none) else (a, some b) := by
  have hstem : (a ++ '.' :: b).take ((a ++ '.' :: b).length - b.length - 1) = a := by
    have hlen : (a ++ '.' :: b).length - b.length - 1 = a.length := by
      simp only [List.length_append, List.length_cons]
      omega
    rw [hlen, List.take_left]
  rw [splitName, if_neg (by simp [ht]), Text.reverse_takeWhile_append hb]
  simp only [hstem]

theorem splitName_cases (hn : ValidName n) :
    splitName n = (n, none) ∨
      ∃ stem old, stem ≠ [] ∧ '.' ∉ old ∧ n = stem ++ '.' :: old ∧
        splitName n = (stem, some old) := by
  by_cases hdot : '.' ∈ n
  · obtain ⟨a, b, rfl, hb⟩ := Text.exists_last_of_mem hdot
    have hsplit := splitName_of_last hb hn.ne_dots
    by_cases ha : a = []
    · subst ha
      exact .inl hsplit
    · rw [if_neg ha] at hsplit
      exact .inr ⟨a, b, ha, hb, rfl, hsplit⟩
  · refine .inl ?_
    rw [splitName, if_pos (by simp [hdot])]

theorem splitName_stem_ne_nil (hn : ValidName n) : (splitName n).1 ≠ [] := by
  cases splitName_cases hn with
  | inl h =>
    rw [h]
    exact hn.ne_nil
  | inr hcase =>
    obtain ⟨stem, old, hstem, -, -, h⟩ := hcase
    rwa [h]

theorem splitName_stem_noSlash (hn : ValidName n) : '/' ∉ (splitName n).1 := by
  cases splitName_cases hn with
  | inl h =>
    rw [h]
    exact hn.noSlash
  | inr hcase =>
    obtain ⟨stem, old, -, -, rfl, h⟩ := hcase
    rw [h]
    exact fun hs => hn.noSlash (List.mem_append_left _ hs)

/-- A name with another extension. The stem that is one dot gives way to two dots and no
extension. -/
def renamed (n ext : Text) : Text :=
  if (splitName n).1 = ['.'] then ['.', '.'] else (splitName n).1 ++ '.' :: ext

theorem plain_renamed (hn : ValidName n) (hext : '/' ∉ ext) : Plain (renamed n ext) := by
  rw [renamed]
  split
  · exact plain_dots
  · refine ⟨by simp, ?_, ?_⟩
    · simp only [List.mem_append, List.mem_cons, not_or]
      exact ⟨splitName_stem_noSlash hn, by decide, hext⟩
    · intro h
      have hlen := congrArg List.length h
      have hpos := List.length_pos_of_ne_nil (splitName_stem_ne_nil hn)
      simp only [List.length_append, List.length_cons, List.length_nil] at hlen
      omega

theorem getLast?_parts_joinText (hp : p.isAbsolute) (hn : Plain n) :
    (p.joinText n).parts.getLast? =
      some ⟨p.stemText.length, p.stemText.length + n.length, Component.ofName n⟩ := by
  rw [show p.joinText n = p.descend [n] from rfl, parts_descend hp hn.singleton]
  simp [placed]

theorem fileName?_joinText (hp : p.isAbsolute) (hn : ValidName n) :
    (p.joinText n).fileName? = some n := by
  rw [fileName?, getLast?_parts_joinText hp hn.plain, Component.ofName_valid hn]

theorem text_take_joinText (hp : p.isAbsolute) {a b : Text} (h : Plain (a ++ b)) :
    (p.joinText (a ++ b)).text.take (p.stemText.length + a.length) = p.stemText ++ a := by
  rw [text_joinText hp h, ← List.append_assoc, List.take_left' (by simp)]

theorem plain_stem_dot {stem old : Text} (hn : ValidName (stem ++ '.' :: old)) (hstem : stem ≠ []) :
    Plain (stem ++ ['.']) := by
  refine ⟨by simp, ?_, ?_⟩
  · intro hs
    refine hn.noSlash ?_
    simp only [List.mem_append, List.mem_singleton] at hs
    cases hs with
    | inl hs => simp [hs]
    | inr hs => simp at hs
  · intro he
    have hlen := congrArg List.length he
    have hpos := List.length_pos_of_ne_nil hstem
    simp only [List.length_append, List.length_cons, List.length_nil] at hlen
    omega

theorem cut_joinText {stem old : Text} (hp : p.isAbsolute) (hn : Plain (stem ++ '.' :: old))
    (hdot : Plain (stem ++ ['.'])) :
    Path.mk ((p.joinText (stem ++ '.' :: old)).text.take
      ((p.joinText (stem ++ '.' :: old)).text.length - old.length)) =
        p.joinText (stem ++ ['.']) := by
  refine ext_text ?_
  have hlen : (p.stemText ++ (stem ++ '.' :: old)).length - old.length =
      (p.stemText ++ (stem ++ ['.'])).length := by
    simp only [List.length_append, List.length_cons, List.length_nil]
    omega
  have happ : p.stemText ++ (stem ++ '.' :: old) = p.stemText ++ (stem ++ ['.']) ++ old := by simp
  rw [text_joinText hp hn, text_joinText hp hdot, hlen, happ, List.take_left]

theorem withExtension_joinText (hp : p.isAbsolute) (hn : ValidName n) (hext : ext ≠ [])
    (hslash : '/' ∉ ext) :
    (p.joinText n).withExtension ext = p.joinText (renamed n ext) := by
  have hrenamed := plain_renamed hn hslash
  rw [withExtension, extension?, fileName?_joinText hp hn, Option.bind_some]
  cases splitName_cases hn with
  | inl h =>
    have hstem : (splitName n).1 = n := by rw [h]
    rw [renamed, hstem, if_neg hn.ne_dot] at hrenamed ⊢
    simp only [h]
    rw [setExtension, getLast?_parts_joinText hp hn.plain, Component.ofName_valid hn]
    simp only [h, if_neg hext]
    refine ext_text ?_
    rw [text_joinText hp hrenamed, text_joinText hp hn.plain, List.take_of_length_le (by simp),
      List.append_assoc]
  | inr hcase =>
    obtain ⟨stem, old, hstem, hold, rfl, h⟩ := hcase
    have hdot := plain_stem_dot hn hstem
    have hcut := cut_joinText hp hn.plain hdot
    simp only [h]
    rw [hcut, setExtension, getLast?_parts_joinText hp hdot]
    rw [renamed, h] at hrenamed ⊢
    by_cases hone : stem = ['.']
    · subst hone
      simp [Component.ofName]
    · have hne : stem ++ ['.'] ≠ ['.', '.'] := by
        intro he
        exact hone (List.append_cancel_right (show stem ++ ['.'] = ['.'] ++ ['.'] from he))
      have hsplit : splitName (stem ++ ['.']) = (stem, some []) := by
        rw [splitName_of_last (b := []) (by simp) hne, if_neg hstem]
      simp only [Component.ofName, if_neg hne, hsplit, if_neg hext, if_neg hone] at hrenamed ⊢
      refine ext_text ?_
      rw [text_take_joinText hp hdot, text_joinText hp hrenamed, List.append_assoc]

theorem Component.ofName_injective : Function.Injective Component.ofName := by
  intro a b h
  rw [ofName, ofName] at h
  split at h <;> split at h <;> simp_all

end Path

theorem Conversion.outputExtension_eq (conversion : Conversion) :
    conversion.outputExtension = "html".toList := by
  cases conversion
  rfl

namespace Builder

variable {b : Builder}

def Converts (b : Builder) (rel : Path) : Prop :=
  ∃ conversion, b.transforms.transformFor rel = .render (some conversion)

instance (b : Builder) (rel : Path) : Decidable (b.Converts rel) :=
  match h : b.transforms.transformFor rel with
  | .copy => isFalse fun ⟨_, he⟩ => by simp [h] at he
  | .render none => isFalse fun ⟨_, he⟩ => by simp [h] at he
  | .render (some conversion) => isTrue ⟨conversion, h⟩

def outputName (b : Builder) (dirs : List Text) (name : Text) : Text :=
  if b.Converts (.ofNames (dirs ++ [name])) then Path.renamed name "html".toList else name

theorem plain_outputName {dirs : List Text} {name : Text} (hn : ValidName name) :
    Path.Plain (b.outputName dirs name) := by
  rw [outputName]
  split
  · exact Path.plain_renamed hn (by decide)
  · exact hn.plain

theorem destinationFor_ofNames (hb : b.destination.isAbsolute) {dirs : List Text} {name : Text}
    (hd : ValidNames dirs) (hn : ValidName name) :
    b.destinationFor (.ofNames (dirs ++ [name])) =
      b.destination.descend (dirs ++ [b.outputName dirs name]) := by
  have hplain : ∀ m ∈ dirs ++ [name], Path.Plain m :=
    fun m hm => (List.mem_append.1 hm).elim (fun h => (hd m h).plain) (hn.plain.singleton m)
  have hjoin := Path.join_ofNames b.destination (by simp) hplain
  have hdir := Path.isAbsolute_descend hb dirs
  rw [Path.descend_concat] at hjoin ⊢
  rw [destinationFor, hjoin, outputName]
  split
  next conversion h =>
    rw [if_pos ⟨conversion, h⟩, conversion.outputExtension_eq]
    exact Path.withExtension_joinText hdir hn (by decide) (by decide)
  next h =>
    rw [if_neg]
    intro hcase
    obtain ⟨conversion, hc⟩ := hcase
    exact h conversion hc

end Builder
end StaticSite
