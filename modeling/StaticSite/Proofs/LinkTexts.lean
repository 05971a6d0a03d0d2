import Mathlib
import StaticSite.Proofs.Attributes

/-! The texts of a listing. Escaping leaves no markup, begins an entity with every ampersand, and is
undone by decoding; so a listing shows no two names as the same text. -/
namespace StaticSite.Listing

variable {c : Char} {s t before after request : Text} {e e' : Text × Node}
  {entries : List (Text × Node)}

theorem escapeHtml_append (s t : Text) : escapeHtml (s ++ t) = escapeHtml s ++ escapeHtml t :=
  List.flatMap_append

theorem escapeChar_cases (c : Char) : escapeChar c ∈ entities ∨ c ≠ '&' ∧ escapeChar c = [c] := by
  rw [escapeChar.eq_def]
  split
  next => exact .inl (by decide)
  next => exact .inl (by decide)
  next => exact .inl (by decide)
  next => exact .inl (by decide)
  next hamp hlt hgt hquot => exact .inr ⟨hamp, rfl⟩

theorem eq_nil_of_escapeChar (h : escapeChar c = before ++ '&' :: after) :
    before = [] ∧ escapeChar c ∈ entities := by
  have hfirst : ∀ e ∈ entities, '&' ∉ e.tail := by decide
  rcases escapeChar_cases c with hentity | ⟨hne, hself⟩
  · refine ⟨?_, hentity⟩
    have htail := hfirst _ hentity
    rw [h] at htail
    cases before with
    | nil => rfl
    | cons d before => simp at htail
  · rw [hself] at h
    rcases List.append_eq_singleton_iff.1 h.symm with ⟨-, hsame⟩ | ⟨-, hnil⟩
    · exact absurd (List.cons.inj hsame).1.symm hne
    · cases hnil

theorem exists_entity (h : escapeHtml s = before ++ '&' :: after) :
    ∃ e ∈ entities, e <+: '&' :: after := by
  induction s generalizing before with
  | nil => simp [escapeHtml] at h
  | cons c s ih =>
    rw [escapeHtml, List.flatMap_cons, ← escapeHtml, List.append_eq_append_iff] at h
    rcases h with ⟨more, -, hrest⟩ | ⟨more, hcode, hrest⟩
    · exact ih hrest
    · cases more with
      | nil =>
        have hstart : escapeHtml s = [] ++ '&' :: after := hrest.symm
        exact ih hstart
      | cons d more =>
        obtain ⟨rfl, -⟩ := List.cons.inj hrest
        obtain ⟨rfl, hentity⟩ := eq_nil_of_escapeChar hcode
        refine ⟨escapeChar c, hentity, escapeHtml s, ?_⟩
        rw [hcode, List.nil_append, hrest]

/-! ### The texts of links -/

/-- The text of the link to an entry. A directory has a slash after its name. -/
def label (e : Text × Node) : Text := escapeHtml e.1 ++ if e.2.isDirectory then ['/'] else []

theorem map_snd_links (entries : List (Text × Node)) (request : Text) :
    (links entries request).map (·.2) =
      (if request = [] then [] else ["..".toList]) ++ (entries.filter fun e => isShown e.1).map
      label := by
  rw [links, List.map_append, List.map_map]
  split <;> rfl

theorem unescape_label (e : Text × Node) :
    unescape (label e) = e.1 ++ if e.2.isDirectory then ['/'] else [] := by
  rw [label, unescape_escapeHtml_append]
  split <;> rfl

theorem label_inj (he : '/' ∉ e.1) (he' : '/' ∉ e'.1) (h : label e = label e') : e.1 = e'.1 := by
  have hread := congrArg unescape h
  rw [unescape_label, unescape_label] at hread
  split at hread <;> split at hread
  · exact List.append_cancel_right hread
  · rw [List.append_nil] at hread
    exact absurd (hread ▸ List.mem_append_right _ (List.mem_singleton_self '/')) he'
  · rw [List.append_nil] at hread
    exact absurd (hread ▸ List.mem_append_right _ (List.mem_singleton_self '/')) he
  · simpa using hread

theorem label_ne_up (h : isShown e.1 = true) : label e ≠ "..".toList := by
  intro hup
  have hread := congrArg unescape hup
  rw [unescape_label, show unescape "..".toList = ['.', '.'] from rfl] at hread
  cases hname : e.1 with
  | nil =>
    rw [hname] at hread
    split at hread <;> simp at hread
  | cons c name =>
    rw [hname] at h hread
    obtain rfl : c = '.' := (List.cons.inj hread).1
    simp [isShown] at h

theorem nodup_labels (hslash : ∀ e ∈ entries, '/' ∉ e.1) (hnames : (entries.map (·.1)).Nodup)
    (request : Text) :
    ((links entries request).map (·.2)).Nodup := by
  have hlabels : ((entries.filter fun e => isShown e.1).map label).Nodup := by
    have hentries : (entries.filter fun e => isShown e.1).Nodup := hnames.of_map.filter _
    refine hentries.map_on fun e he e' he' hsame => ?_
    have hmem := (List.mem_filter.1 he).1
    have hmem' := (List.mem_filter.1 he').1
    exact List.inj_on_of_nodup_map hnames hmem hmem'
      (label_inj (hslash e hmem) (hslash e' hmem') hsame)
  rw [map_snd_links]
  split
  next => exact hlabels
  next =>
    refine List.nodup_cons.2 ⟨fun hup => ?_, hlabels⟩
    obtain ⟨e, he, heq⟩ := List.mem_map.1 hup
    exact label_ne_up (List.mem_filter.1 he).2 heq

/-- A text that is escaped has no markup, only entities begin with its ampersands, and decoding them
gives the text back; different texts are escaped differently, and texts one after the other are
escaped one after the other. So all links of a listing have different texts. -/
theorem escapeHtml_invertible (s : Text) :
    (∀ c, c = '<' ∨ c = '>' ∨ c = '"' → c ∉ escapeHtml s) ∧
    (∀ before after, escapeHtml s = before ++ '&' :: after → ∃ e ∈ entities, e <+: '&' :: after) ∧
    unescape (escapeHtml s) = s ∧
    (∀ t, escapeHtml s = escapeHtml t → s = t) ∧
    (∀ t, escapeHtml (s ++ t) = escapeHtml s ++ escapeHtml t) ∧
    ∀ (entries : List (Text × Node)) (request : Text), (∀ e ∈ entries, '/' ∉ e.1) →
      (entries.map (·.1)).Nodup →
      ((links entries request).map (·.2)).Nodup :=
  ⟨fun _ hc => notMem_escapeHtml hc s, fun _ _ h => exists_entity h, unescape_escapeHtml s,
    fun _ h => escapeHtml_inj h, escapeHtml_append s, fun _ request hslash hnames =>
      nodup_labels hslash hnames request⟩

/-- A text that looks as if it had been escaped before, in a directory with what it would come
from. -/
theorem nestedEntity_invertible :
    escapeHtml "&amp;lt;".toList = "&amp;amp;lt;".toList ∧ '<' ∉ "&amp;amp;lt;".toList ∧
      (∃ e ∈ entities, e <+: "&amp;amp;lt;".toList) ∧
      unescape "&amp;amp;lt;".toList = "&amp;lt;".toList ∧
      ((links [("&amp;lt;".toList, .file [] 1), ("&lt;".toList, .directory 1),
        ("<".toList, .file [] 1)]
        "d".toList).map (·.2)).Nodup := by
  obtain ⟨hmarkup, hentity, hdecoded, -, -, hlisting⟩ := escapeHtml_invertible "&amp;lt;".toList
  exact ⟨by decide, hmarkup '<' (.inl rfl), hentity [] "amp;amp;lt;".toList (by decide), hdecoded,
    hlisting _ _ (by decide) (by decide)⟩

end StaticSite.Listing
