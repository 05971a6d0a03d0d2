import Mathlib
import StaticSite.Proofs.Ancestry
import StaticSite.Proofs.Collisions

/-! The parts of a name. What is below a name has its parts for directories, and it does not matter
which of the two separators stands between them. -/
namespace StaticSite

theorem Text.splitBy_congr {sep : Char → Bool} {s t : Text}
    (h : List.Forall₂ (fun c d => c = d ∨ sep c = true ∧ sep d = true) s t) :
    splitBy sep s = splitBy sep t := by
  induction h with
  | nil => rfl
  | cons hchar _ ih =>
    rcases hchar with rfl | ⟨hc, hd⟩
    · rw [splitBy, splitBy, ih]
    · rw [splitBy, splitBy, if_pos hc, if_pos hd, ih]

namespace Name

variable {s t p n dir : Text} {sep : Char} {dirs : List Text}

theorem parts_append_separator (h : isSeparator sep = true) (p n : Text) :
    parts (p ++ sep :: n) = parts p ++ parts n :=
  Text.splitBy_append_cons isSeparator p n h

theorem parts_of_none (h : ∀ c ∈ n, isSeparator c = false) : parts n = [n] := Text.splitBy_of_none h

theorem none_of_mem_parts (h : n ∈ parts t) : ∀ c ∈ n, isSeparator c = false := Text.mem_splitBy h

theorem basename_mem_parts (t : Text) : basename t ∈ parts t := by
  obtain ⟨dirs, hparts⟩ := exists_parts t
  rw [hparts]
  exact List.mem_append_right _ (List.mem_singleton_self _)

theorem isDrive_iff : isDrive n = true ↔ 2 ≤ Text.byteLength n ∧ n.getLast? = some ':' := by
  simp [isDrive]

theorem segments_eq (t : Text) : segments t = (withoutDrive (parts t).dropLast).filter (· ≠ []) :=
  rfl

theorem withoutDrive_subset : withoutDrive dirs ⊆ dirs := by
  rw [withoutDrive]
  split
  · exact List.tail_subset dirs
  · exact List.Subset.refl dirs

theorem mem_parts_of_mem_segments (h : dir ∈ segments t) : dir ∈ parts t ∧ dir ≠ [] := by
  obtain ⟨hdir, hne⟩ := mem_segments.1 h
  exact ⟨List.dropLast_subset _ (withoutDrive_subset hdir), hne⟩

theorem none_iff_parts : (∀ c ∈ p, isSeparator c = false) ↔ parts p = [basename p] := by
  constructor
  · intro hnone
    have hbase : basename p = p := basename_append (.inl rfl) hnone
    rw [hbase, parts_of_none hnone]
  · intro hparts
    have hmem := basename_mem_parts p
    rw [← eq_basename_of_parts hparts] at hmem
    exact none_of_mem_parts hmem

theorem segments_append_separator (hsep : isSeparator sep = true)
    (hn : ∀ c ∈ n, isSeparator c = false) (p : Text) :
    segments (p ++ sep :: n) =
      if (∀ c ∈ p, isSeparator c = false) ∧ 2 ≤ Text.byteLength p ∧ p.getLast? = some ':' then []
      else segments p ++ if basename p = [] then [] else [basename p] := by
  have hbelow : segments (p ++ sep :: n) = (withoutDrive (parts p)).filter (· ≠ []) := by
    rw [segments_eq, parts_append_separator hsep, parts_of_none hn, List.dropLast_concat]
  have hlast : [basename p].filter (· ≠ []) = if basename p = [] then [] else [basename p] := by
    by_cases hempty : basename p = [] <;> simp [hempty]
  rw [hbelow, segments_eq, ← hlast]
  by_cases hnone : ∀ c ∈ p, isSeparator c = false
  · have hparts := none_iff_parts.1 hnone
    have hwhole : p = basename p := eq_basename_of_parts hparts
    rw [hparts, withoutDrive_cons, ← hwhole]
    by_cases hdrive : isDrive p = true
    · rw [if_pos hdrive, if_pos ⟨hnone, isDrive_iff.1 hdrive⟩]
      rfl
    · rw [if_neg hdrive, if_neg fun h => hdrive (isDrive_iff.2 h.2)]
      rfl
  · obtain ⟨dirs, hparts⟩ := exists_parts p
    have hdirs : dirs ≠ [] := by
      rintro rfl
      exact hnone (none_iff_parts.2 hparts)
    rw [if_neg fun h => hnone h.1, hparts, List.dropLast_concat, withoutDrive_append hdirs,
      List.filter_append]

/-! ### Separators -/

/-- The same text, but for which separators stand in it. -/
def Respelled (s t : Text) : Prop :=
  List.Forall₂ (fun c d => c = d ∨ isSeparator c = true ∧ isSeparator d = true) s t

theorem Respelled.parts_eq (h : Respelled s t) : parts s = parts t := Text.splitBy_congr h

theorem Respelled.basename_eq (h : Respelled s t) :
    basename s = basename t := by rw [basename, basename, h.parts_eq]

theorem Respelled.segments_eq (h : Respelled s t) :
    segments s = segments t := by rw [segments, segments, h.parts_eq]

theorem Respelled.extension?_eq (h : Respelled s t) : extension? s = extension? t := by
  rw [extension?, extension?, h.basename_eq]

/-- What is below a name by one part more: this part is the last one, with an extension of its own,
and the name has become directories. No part has a separator, and none depends on which separators
stand in the name. -/
theorem below_splits (hsep : isSeparator sep = true) (hn : ∀ c ∈ n, isSeparator c = false)
    (p : Text) :
    basename (p ++ sep :: n) = n ∧
    segments (p ++ sep :: n) =
      (if (∀ c ∈ p, isSeparator c = false) ∧ 2 ≤ Text.byteLength p ∧ p.getLast? = some ':' then []
        else segments p ++ if basename p = [] then [] else [basename p]) ∧
    extension? (p ++ sep :: n) = extension? n ∧
    (∀ ext, extension? n = some ext ↔ ∃ stem, n = stem ++ '.' :: ext ∧ '.' ∉ ext) ∧
    (basename n = n ∧ segments n = []) ∧
    (∀ t, (∀ c ∈ basename t, isSeparator c = false) ∧
      ∀ dir ∈ segments t, dir ≠ [] ∧ ∀ c ∈ dir, isSeparator c = false) ∧
    ∀ s t, Respelled s t → basename s = basename t ∧ segments s = segments t ∧
      extension? s = extension? t := by
  have hname : basename n = n := basename_append (.inl rfl) hn
  have hbelow : basename (p ++ sep :: n) = n := by
    rw [List.append_cons]
    exact basename_append (.inr ⟨p, sep, rfl, hsep⟩) hn
  refine ⟨hbelow, segments_append_separator hsep hn p, ?_, fun ext => ?_, ⟨hname, ?_⟩,
    fun t => ⟨?_, fun dir hdir => ?_⟩, fun s t h => ⟨h.basename_eq, h.segments_eq, h.extension?_eq⟩⟩
  · rw [extension?, extension?, hbelow, hname]
  · rw [extension?_eq_some_iff, hname]
  · rw [segments_eq, parts_of_none hn]
    rfl
  · exact none_of_mem_parts (basename_mem_parts t)
  · obtain ⟨hpart, hne⟩ := mem_parts_of_mem_segments hdir
    exact ⟨hne, none_of_mem_parts hpart⟩

/-- A drive is a directory if a separator stands before it, and none if the name begins with it. -/
theorem drive_splits :
    segments "/C:\\a.b.c".toList = ["C:".toList] ∧ segments "C:\\a.b.c".toList = [] ∧
      basename "C:\\a.b.c".toList = "a.b.c".toList ∧
      extension? "C:\\a.b.c".toList = some "c".toList := by
  have hsep : isSeparator '\\' = true := by decide
  have hn : ∀ c ∈ "a.b.c".toList, isSeparator c = false := by simp [isSeparator]
  obtain ⟨-, hroot, -⟩ := below_splits hsep hn "/C:".toList
  obtain ⟨hlast, hdrive, hext, hdot, -⟩ := below_splits hsep hn "C:".toList
  have hplain : ∀ c ∈ "C:".toList, isSeparator c = false := by simp [isSeparator]
  rw [if_neg (by simp [isSeparator])] at hroot
  rw [if_pos ⟨hplain, by decide, by decide⟩] at hdrive
  exact ⟨hroot.trans (by cbv), hdrive, hlast,
    hext.trans ((hdot _).2 ⟨"a.b".toList, rfl, by decide⟩)⟩

end Name
end StaticSite
