import Mathlib
import StaticSite.Proofs.Attributes
import StaticSite.Proofs.Requests

/-! Requests and their answers. The path of a request is never longer than its URL, and shorter if
something in the URL is decoded or cut off. Two requests have the same answer only if they are the
same, or if one of them asks for an index. -/
namespace StaticSite

namespace Preview

variable {fs : FileSystem} {root : Path} {url request name r s t u : Text} {answer : Resolved}

/-! ### The length of a request -/

theorem decode_slash_iff : Percent.decode ('/' :: t) = .ok u ↔
    ∃ v, u = '/' :: v ∧ Percent.decode t = .ok v := by
  have hnil : Percent.decode [] = .ok [] := rfl
  rw [← List.nil_append ('/' :: t),
    Percent.decode_append_cons_iff (by decide) (by decide) (by decide), hnil]
  constructor
  · rintro ⟨a, v, rfl, ha, hv⟩
    obtain rfl : [] = a := Except.ok.inj ha
    exact ⟨v, rfl, hv⟩
  · rintro ⟨v, rfl, hv⟩
    exact ⟨[], v, rfl, rfl, hv⟩

theorem trimSlashes_slash (t : Text) : trimSlashes ('/' :: t) = trimSlashes t := by
  rw [trimSlashes_eq, trimSlashes_eq, List.dropWhile_cons_of_pos (by rfl)]

theorem requestPath_slash (t : Text) : requestPath ('/' :: t) = requestPath t := by
  rw [requestPath, requestPath]
  cases ht : Percent.decode t with
  | ok u =>
    rw [decode_slash_iff.2 ⟨u, rfl, ht⟩]
    exact trimSlashes_slash _
  | error flaw =>
    cases hslash : Percent.decode ('/' :: t) with
    | error flaw' => rfl
    | ok u =>
      obtain ⟨v, -, hv⟩ := decode_slash_iff.1 hslash
      rw [ht] at hv
      cases hv

theorem sublist_trimSlashes (t : Text) : (trimSlashes t).Sublist t := by
  rw [trimSlashes_eq]
  exact (List.rdropWhile_prefix _ _).sublist.trans (List.dropWhile_suffix _).sublist

theorem sublist_requestPath (h : Percent.decode t = .ok u) :
    (requestPath t).Sublist (u.takeWhile (· != '?')) := by
  rw [requestPath, h]
  exact sublist_trimSlashes _

theorem requestPath_of_error {flaw : Text.Utf8.Flaw} (h : Percent.decode t = .error flaw) :
    requestPath t = [] := by
  rw [requestPath, h]
  rfl

theorem byteLength_requestPath_lt (h : Percent.hasCode t = true ∨ '?' ∈ t) :
    (requestPath t).byteLength < t.byteLength := by
  have hne : t ≠ [] := by
    rintro rfl
    rcases h with hcode | hquery
    · cases hcode
    · cases hquery
  cases ht : Percent.decode t with
  | error flaw =>
    rw [requestPath_of_error ht]
    exact Text.byteLength_pos hne
  | ok u =>
    have hle := Text.byteLength_le_of_sublist (sublist_requestPath ht)
    cases hcode : Percent.hasCode t with
    | true =>
      have hcut := Text.byteLength_le_of_sublist (List.takeWhile_sublist (l := u) (p := (· != '?')))
      have hlt := Percent.byteLength_lt_of_decode hcode ht
      omega
    | false =>
      rw [Percent.decode_eq_self hcode] at ht
      obtain rfl : t = u := Except.ok.inj ht
      obtain ⟨before, rest, rfl, hbefore⟩ :=
        List.eq_append_cons_of_mem (h.resolve_left (by simp [hcode]))
      have hpos := Text.byteLength_pos (t := '?' :: rest) (by simp)
      rw [Text.takeWhile_append_cons hbefore] at hle
      rw [Text.byteLength_append]
      omega

theorem requestPath_eq (hcode : Percent.hasCode t = false) (hquery : '?' ∉ t) :
    requestPath t = trimSlashes t := by
  rw [requestPath, Percent.decode_eq_self hcode]
  exact congrArg trimSlashes (Text.takeWhile_eq_self hquery)

theorem byteLength_requestPath_le (t : Text) : (requestPath t).byteLength ≤ t.byteLength := by
  by_cases h : Percent.hasCode t = true ∨ '?' ∈ t
  · exact Nat.le_of_lt (byteLength_requestPath_lt h)
  · obtain ⟨hcode, hquery⟩ := not_or.1 h
    rw [requestPath_eq (by simpa using hcode) hquery]
    exact Text.byteLength_le_of_sublist (sublist_trimSlashes t)

/-! ### Requests that have the same answer -/

structure Trimmed (t : Text) : Prop where
  relative : (Path.mk t).isAbsolute = false
  last : t.getLast? ≠ some '/'

theorem trimmed_requestPath (url : Text) : Trimmed (requestPath url) where
  relative := isAbsolute_requestPath url
  last := by
    intro hlast
    rw [requestPath, trimSlashes_eq] at hlast
    have hne := List.ne_nil_of_mem (List.mem_of_getLast? hlast)
    have hslash := List.rdropWhile_last_not isSlash _ hne
    rw [List.getLast?_eq_getLast_of_ne_nil hne] at hlast
    rw [Option.some.inj hlast] at hslash
    exact hslash rfl

theorem Trimmed.requestPath_eq_self (ht : Trimmed t) (hcode : Percent.hasCode t = false)
    (hquery : '?' ∉ t) :
    requestPath t = t := by
  have hhead : t.head? ≠ some '/' := by simpa [Path.isAbsolute] using ht.relative
  rw [requestPath_eq hcode hquery, ← trimSlashes_slash, trimSlashes_cons hhead ht.last]

theorem Trimmed.joinText (h : Trimmed request) (hname : ValidName name) :
    Trimmed ((Path.mk request).joinText name).text where
  relative := Path.isAbsolute_join_of_relative h.relative (Path.isAbsolute_of_noSlash hname.noSlash)
  last := by
    rw [Path.joinText, Path.join_of_relative (Path.isAbsolute_of_noSlash hname.noSlash)]
    exact Path.getLast?_of_plain hname.plain _

theorem Trimmed.front (h : Trimmed t) : (Path.mk t).front = if t = [] then [] else t ++ ['/'] := by
  rw [Path.front, Path.stemText, if_neg h.last]

theorem Trimmed.eq_of_front (hs : Trimmed s) (ht : Trimmed t)
    (h : (Path.mk s).front = (Path.mk t).front) : s = t := by
  rw [hs.front, ht.front] at h
  by_cases hsnil : s = []
  · by_cases htnil : t = []
    · rw [hsnil, htnil]
    · simp [hsnil, htnil] at h
  · by_cases htnil : t = []
    · simp [hsnil, htnil] at h
    · rw [if_neg hsnil, if_neg htnil] at h
      exact List.append_cancel_right h

theorem request_eq_of_page {es es' : List (Text × Node)}
    (h : Listing.page es s = Listing.page es' t) : s = t := by
  rw [Listing.page_eq, Listing.page_eq] at h
  have hhead := (List.cons.inj (List.append_cancel_left h)).2
  have htail := (List.cons.inj (List.append_cancel_left hhead)).2
  obtain ⟨more, hs⟩ := Listing.exists_title_append s _
  obtain ⟨more', ht⟩ := Listing.exists_title_append t _
  rw [hs, ht] at htail
  have htitle := congrArg (·.takeWhile (· != '<')) (List.append_cancel_left htail)
  simp only [Text.takeWhile_append_cons (Listing.notMem_escapeHtml (.inl rfl) _)] at htitle
  exact (List.cons.inj (Listing.escapeHtml_inj htitle)).2

theorem Answers.path_eq {p : Path} (h : Answers fs root s (.file p)) :
    fs.isFile p = true ∧ (p = root.join ⟨s⟩ ∨ p = root.join ((Path.mk s).joinText indexName)) := by
  cases h with
  | file _ hfile => exact ⟨hfile, .inl rfl⟩
  | index _ _ _ hfile => exact ⟨hfile, .inr (Path.join_assoc _ _ _)⟩

theorem Answers.exists_page {html : Text} (h : Answers fs root s (.listing html)) :
    ∃ entries, html = Listing.page entries s := by
  cases h with
  | listing => exact ⟨_, rfl⟩

theorem eq_or_index (hs : Trimmed s) (ht : Trimmed t) (hanswer : Answers fs root s answer)
    (hanswer' : Answers fs root t answer) (hfound : answer ≠ .notFound) :
    s = t ∨ s = ((Path.mk t).joinText indexName).text ∨
      t = ((Path.mk s).joinText indexName).text ∧ fs.isFile (root.joinText t) = true := by
  have hindex : (Path.mk indexName).isAbsolute = false := by decide
  have hjoined {r : Text} (hr : Trimmed r) : ((Path.mk r).joinText indexName).isAbsolute = false :=
    Path.isAbsolute_join_of_relative hr.relative hindex
  cases answer with
  | notFound => exact absurd rfl hfound
  | listing html =>
    obtain ⟨entries, hpage⟩ := hanswer.exists_page
    obtain ⟨entries', hpage'⟩ := hanswer'.exists_page
    exact .inl (request_eq_of_page (hpage.symm.trans hpage'))
  | file p =>
    obtain ⟨-, hpath⟩ := hanswer.path_eq
    obtain ⟨hfile, hpath'⟩ := hanswer'.path_eq
    rcases hpath with hp | hp <;> rcases hpath' with hp' | hp'
    · exact .inl (congrArg Path.text
        (Path.join_left_cancel hs.relative ht.relative (hp.symm.trans hp')))
    · exact .inr
        (.inl (congrArg Path.text (Path.join_left_cancel hs.relative (hjoined ht)
        (hp.symm.trans hp'))))
    · have hsame := congrArg Path.text
        (Path.join_left_cancel ht.relative (hjoined hs) (hp'.symm.trans hp))
      exact .inr (.inr ⟨hsame, by rwa [hp'] at hfile⟩)
    · have hsame := congrArg Path.text
        (Path.join_left_cancel (hjoined hs) (hjoined ht) (hp.symm.trans hp'))
      rw [Path.joinText, Path.joinText, Path.join_of_relative hindex,
        Path.join_of_relative hindex] at hsame
      exact .inl (hs.eq_of_front ht (List.append_cancel_right hsame))

end Preview
end StaticSite
