import Mathlib
import StaticSite.Proofs.Answers

/-! The query of a URL. A query that decodes is cut off without a trace. One that does not decode
takes the path with it: the URL as a whole then asks for the root. -/
namespace StaticSite

namespace Percent

/-- That the bytes which a text stands for are a text again. -/
def Decodes (t : Text) : Prop := ∃ u, decode t = .ok u

theorem error_of_not_decodes {t : Text} (h : ¬Decodes t) : ∃ flaw, decode t = .error flaw := by
  cases ht : decode t with
  | ok u => exact absurd ⟨u, ht⟩ h
  | error flaw => exact ⟨flaw, rfl⟩

end Percent

namespace Preview

variable {fs : FileSystem} {root : Path} {url path query s t u : Text} {html : Text}

theorem decode_query_iff : Percent.decode (path ++ '?' :: query) = .ok u ↔
    ∃ s t, u = s ++ '?' :: t ∧ Percent.decode path = .ok s ∧ Percent.decode query = .ok t :=
  Percent.decode_append_cons_iff (by decide) (by decide) (by decide)

theorem decodes_query_iff : Percent.Decodes (path ++ '?' :: query) ↔ Percent.Decodes path ∧
    Percent.Decodes query := by
  simp only [Percent.Decodes, decode_query_iff]
  constructor
  · rintro ⟨-, s, t, -, hs, ht⟩
    exact ⟨⟨s, hs⟩, t, ht⟩
  · rintro ⟨⟨s, hs⟩, t, ht⟩
    exact ⟨_, s, t, rfl, hs, ht⟩

theorem requestPath_of_not_decodes (h : ¬Percent.Decodes url) : requestPath url = [] := by
  obtain ⟨flaw, hflaw⟩ := Percent.error_of_not_decodes h
  exact requestPath_of_error hflaw

theorem takeWhile_query (s t : Text) :
    (s ++ '?' :: t).takeWhile (· != '?') = s.takeWhile (· != '?') := by
  by_cases h : '?' ∈ s
  · obtain ⟨a, b, rfl, ha⟩ := List.eq_append_cons_of_mem h
    rw [List.append_assoc, List.cons_append, Text.takeWhile_append_cons ha,
      Text.takeWhile_append_cons ha]
  · rw [Text.takeWhile_append_cons h, Text.takeWhile_eq_self h]

theorem requestPath_query (h : Percent.Decodes query) :
    requestPath (path ++ '?' :: query) = requestPath path := by
  by_cases hpath : Percent.Decodes path
  · obtain ⟨s, hs⟩ := hpath
    obtain ⟨t, ht⟩ := h
    rw [requestPath, requestPath, decode_query_iff.2 ⟨s, t, rfl, hs, ht⟩, hs]
    exact congrArg trimSlashes (takeWhile_query s t)
  · have hurl : ¬Percent.Decodes (path ++ '?' :: query) :=
      fun hurl => hpath (decodes_query_iff.1 hurl).1
    rw [requestPath_of_not_decodes hurl, requestPath_of_not_decodes hpath]

theorem requestPath_query_of_not (h : ¬Percent.Decodes query) :
    requestPath (path ++ '?' :: query) = [] :=
  requestPath_of_not_decodes fun hurl => h (decodes_query_iff.1 hurl).2

theorem resolve_congr (h : requestPath s = requestPath t) :
    resolve fs root s = resolve fs root t := by
  rw [resolve, resolve, h]

theorem requestPath_eq_nil_of_listing (hroot : resolve fs root [] = .listing html)
    (hurl : resolve fs root url = resolve fs root []) : requestPath url = [] := by
  obtain ⟨entries, hpage⟩ := (resolve_eq_iff.1 hroot).exists_page
  obtain ⟨entries', hpage'⟩ := (resolve_eq_iff.1 (hurl.trans hroot)).exists_page
  exact (request_eq_of_page (hpage'.symm.trans hpage)).trans rfl

theorem servedSite_root : ∃ html, resolve servedSite servedRoot [] = .listing html :=
  ⟨_, resolve_eq_iff.2 (.listing (by decide) (by cbv) (by cbv) (by cbv) (by cbv))⟩

/-- At one site a query makes no difference exactly if it decodes, or if its path has the answer of
the root. Whatever the site, it makes none exactly if it decodes or its path asks for the root. -/
theorem query_ignored_iff (path query : Text) :
    (∀ (fs : FileSystem) (root : Path), resolve fs root (path ++ '?' :: query) =
      resolve fs root path ↔
      Percent.Decodes query ∨ resolve fs root path = resolve fs root []) ∧
    ((∀ (fs : FileSystem) (root : Path), resolve fs root (path ++ '?' :: query) =
      resolve fs root path) ↔
      Percent.Decodes query ∨ requestPath path = []) := by
  have hnil : requestPath [] = [] := rfl
  have hsite (fs : FileSystem) (root : Path) :
      resolve fs root (path ++ '?' :: query) = resolve fs root path ↔
      Percent.Decodes query ∨ resolve fs root path = resolve fs root [] := by
    by_cases hquery : Percent.Decodes query
    · exact iff_of_true (resolve_congr (requestPath_query hquery)) (.inl hquery)
    · have hroot : resolve fs root (path ++ '?' :: query) = resolve fs root [] :=
        resolve_congr ((requestPath_query_of_not hquery).trans hnil.symm)
      rw [hroot, or_iff_right hquery, eq_comm]
  refine ⟨hsite, ?_⟩
  simp only [hsite]
  constructor
  · intro h
    obtain ⟨html, hroot⟩ := servedSite_root
    exact (h servedSite servedRoot).imp_right (requestPath_eq_nil_of_listing hroot)
  · intro h fs root
    exact h.imp_right fun hpath => resolve_congr (hpath.trans hnil.symm)

/-- The file is there, but with a query of one byte that is no text the URL asks for the root. -/
theorem query_not_always_ignored :
    resolve servedSite servedRoot "/a%20b".toList = .file (.ofString "/s/a b") ∧
      (∃ html, resolve servedSite servedRoot ("/a%20b".toList ++ '?' :: "t=%FF".toList) =
        .listing html) ∧
      ¬∀ (fs : FileSystem) (root : Path) (path query : Text), '?' ∉ path →
        resolve fs root (path ++ '?' :: query) = resolve fs root path := by
  have hpath : requestPath "/a%20b".toList = "a b".toList := by cbv
  have hquery : requestPath ("/a%20b".toList ++ '?' :: "t=%FF".toList) = requestPath [] := by cbv
  have hfile : resolve servedSite servedRoot "/a%20b".toList = .file (.ofString "/s/a b") := by
    rw [resolve_eq_iff, hpath]
    exact .file (by decide) (by cbv)
  obtain ⟨html, hroot⟩ := servedSite_root
  rw [← resolve_congr hquery] at hroot
  refine ⟨hfile, ⟨html, hroot⟩, fun h => ?_⟩
  have hsame := h servedSite servedRoot "/a%20b".toList "t=%FF".toList (by decide)
  rw [hroot, hfile] at hsame
  cases hsame

end Preview
end StaticSite
