import StaticSite.Preview.Listing
import StaticSite.Proofs.PathNames

/-! Entities, as a client decodes them from left to right in one pass. Decoding gives back every
text that was escaped, and leaves a text as it is exactly if this has no entity. -/
namespace StaticSite.Listing

/-- Decodes the entities that escaping writes. -/
def unescape : Text → Text
  | '&' :: 'a' :: 'm' :: 'p' :: ';' :: t => '&' :: unescape t
  | '&' :: 'l' :: 't' :: ';' :: t => '<' :: unescape t
  | '&' :: 'g' :: 't' :: ';' :: t => '>' :: unescape t
  | '&' :: 'q' :: 'u' :: 'o' :: 't' :: ';' :: t => '"' :: unescape t
  | c :: t => c :: unescape t
  | [] => []

def entities : List Text := ["&amp;".toList, "&lt;".toList, "&gt;".toList, "&quot;".toList]

def hasEntity : Text → Bool
  | [] => false
  | c :: t => entities.any (·.isPrefixOf (c :: t)) || hasEntity t

variable {c : Char} {e s t : Text}

theorem unescape_entity (he : e ∈ entities) :
    ∃ c, Text.byteLength [c] < Text.byteLength e ∧ ∀ t, unescape (e ++ t) = c :: unescape t := by
  simp only [entities, List.mem_cons, List.not_mem_nil, or_false] at he
  rcases he with rfl | rfl | rfl | rfl
  · exact ⟨'&', by decide, fun _ => rfl⟩
  · exact ⟨'<', by decide, fun _ => rfl⟩
  · exact ⟨'>', by decide, fun _ => rfl⟩
  · exact ⟨'"', by decide, fun _ => rfl⟩

theorem unescape_cons (h : ∀ e ∈ entities, ¬e <+: c :: t) :
    unescape (c :: t) = c :: unescape t := by
  have hnone {e : Text} (he : e ∈ entities) (rest : Text) : c :: t ≠ e ++ rest :=
    fun heq => h e he ⟨rest, heq.symm⟩
  rw [unescape.eq_def]
  split
  next rest heq => exact absurd heq (hnone (e := "&amp;".toList) (by decide) rest)
  next rest heq => exact absurd heq (hnone (e := "&lt;".toList) (by decide) rest)
  next rest heq => exact absurd heq (hnone (e := "&gt;".toList) (by decide) rest)
  next rest heq => exact absurd heq (hnone (e := "&quot;".toList) (by decide) rest)
  next heq =>
    obtain ⟨rfl, rfl⟩ := List.cons.inj heq
    rfl
  next heq => cases heq

/-- A text is read from left to right: it begins with an entity, or with a character that begins
none. -/
theorem entity_induction {motive : Text → Prop} (t : Text) (nil : motive [])
    (entity : ∀ e ∈ entities, ∀ t, motive t → motive (e ++ t))
    (char : ∀ c t, (∀ e ∈ entities, ¬e <+: c :: t) → motive t → motive (c :: t)) : motive t := by
  fun_induction unescape t with
  | case1 t ih => exact entity "&amp;".toList (by decide) t ih
  | case2 t ih => exact entity "&lt;".toList (by decide) t ih
  | case3 t ih => exact entity "&gt;".toList (by decide) t ih
  | case4 t ih => exact entity "&quot;".toList (by decide) t ih
  | case5 c t hamp hlt hgt hquot ih =>
    refine char c t (fun e he hbegins => ?_) ih
    obtain ⟨rest, hrest⟩ := hbegins
    simp only [entities, List.mem_cons, List.not_mem_nil, or_false] at he
    rcases he with rfl | rfl | rfl | rfl <;> obtain ⟨rfl, rfl⟩ := List.cons.inj hrest
    · exact hamp rest rfl rfl
    · exact hlt rest rfl rfl
    · exact hgt rest rfl rfl
    · exact hquot rest rfl rfl
  | case6 => exact nil

/-! ### What was escaped -/

theorem not_prefix_of_ne (hc : c ≠ '&') (t : Text) : ∀ e ∈ entities, ¬e <+: c :: t := by
  have hstart : ∀ e ∈ entities, e.head? = some '&' := by decide
  rintro e he ⟨rest, hrest⟩
  have hhead := hstart e he
  have hne : e ≠ [] := by
    rintro rfl
    cases hhead
  have hsame : (e ++ rest).head? = e.head? := List.head?_append_of_ne_nil e hne
  rw [hrest, hhead] at hsame
  exact hc (Option.some.inj hsame)

theorem unescape_escapeChar_append (c : Char) (t : Text) :
    unescape (escapeChar c ++ t) = c :: unescape t := by
  rw [escapeChar.eq_def]
  split
  next => rfl
  next => rfl
  next => rfl
  next => rfl
  next hamp hlt hgt hquot => exact unescape_cons (not_prefix_of_ne hamp t)

theorem unescape_escapeHtml_append (s t : Text) :
    unescape (escapeHtml s ++ t) = s ++ unescape t := by
  induction s with
  | nil => rfl
  | cons c s ih =>
    rw [escapeHtml, List.flatMap_cons, List.append_assoc, unescape_escapeChar_append, ← escapeHtml,
      ih, List.cons_append]

theorem unescape_escapeHtml (s : Text) : unescape (escapeHtml s) = s := by
  have h := unescape_escapeHtml_append s []
  rwa [List.append_nil, unescape, List.append_nil] at h

theorem escapeHtml_inj (h : escapeHtml s = escapeHtml t) : s = t := by
  rw [← unescape_escapeHtml s, h, unescape_escapeHtml]

theorem notMem_escapeHtml (hc : c = '<' ∨ c = '>' ∨ c = '"') (t : Text) : c ∉ escapeHtml t := by
  rw [escapeHtml, List.mem_flatMap]
  rintro ⟨d, -, hd⟩
  rw [escapeChar.eq_def] at hd
  split at hd
  next => rcases hc with rfl | rfl | rfl <;> exact absurd hd (by decide)
  next => rcases hc with rfl | rfl | rfl <;> exact absurd hd (by decide)
  next => rcases hc with rfl | rfl | rfl <;> exact absurd hd (by decide)
  next => rcases hc with rfl | rfl | rfl <;> exact absurd hd (by decide)
  next hlt hgt hquot =>
    rw [List.mem_singleton] at hd
    subst hd
    simp_all

/-! ### What was not -/

theorem slash_notMem_entity : ∀ e ∈ entities, '/' ∉ e := by decide

theorem prefix_of_prefix_slash (he : '/' ∉ e) (h : e <+: s ++ '/' :: t) : e <+: s := by
  rcases List.prefix_or_prefix_of_prefix h (List.prefix_append s ('/' :: t)) with hbegins | hlonger
  · exact hbegins
  · obtain ⟨more, rfl⟩ := hlonger
    cases more with
    | nil => simp
    | cons d more =>
      obtain ⟨rfl, -⟩ := List.cons_prefix_cons.1 ((List.prefix_append_right_inj s).1 h)
      simp at he

theorem unescape_append_slash (s t : Text) :
    unescape (s ++ '/' :: t) = unescape s ++ '/' :: unescape t := by
  induction s using entity_induction with
  | nil => exact unescape_cons (not_prefix_of_ne (by decide) t)
  | entity e he s ih =>
    obtain ⟨c, -, hc⟩ := unescape_entity he
    rw [List.append_assoc, hc, hc, ih, List.cons_append]
  | char c s hnone ih =>
    rw [unescape_cons hnone, List.cons_append, unescape_cons, ih, List.cons_append]
    intro e he hbegins
    exact hnone e he (prefix_of_prefix_slash (slash_notMem_entity e he) hbegins)

theorem unescape_eq_self (h : hasEntity t = false) : unescape t = t := by
  induction t with
  | nil => rfl
  | cons c t ih =>
    obtain ⟨hnone, hrest⟩ := Bool.or_eq_false_iff.1 h
    rw [unescape_cons, ih hrest]
    simpa using hnone

theorem byteLength_unescape_le (t : Text) : (unescape t).byteLength ≤ t.byteLength := by
  induction t using entity_induction with
  | nil => exact Nat.le_refl _
  | entity e he t ih =>
    obtain ⟨c, hshorter, hc⟩ := unescape_entity he
    rw [hc, ← List.singleton_append, Text.byteLength_append, Text.byteLength_append]
    omega
  | char c t hnone ih =>
    rw [unescape_cons hnone, Text.byteLength, Text.byteLength]
    omega

theorem byteLength_unescape_lt (h : hasEntity t = true) :
    (unescape t).byteLength < t.byteLength := by
  induction t using entity_induction with
  | nil => cases h
  | entity e he t ih =>
    obtain ⟨c, hshorter, hc⟩ := unescape_entity he
    have hle := byteLength_unescape_le t
    rw [hc, ← List.singleton_append, Text.byteLength_append, Text.byteLength_append]
    omega
  | char c t hnone ih =>
    have hcases : (∃ e ∈ entities, e <+: c :: t) ∨ hasEntity t = true := by
      simpa [hasEntity] using h
    have hlt := ih (hcases.resolve_left fun ⟨e, he, hbegins⟩ => hnone e he hbegins)
    rw [unescape_cons hnone, Text.byteLength, Text.byteLength]
    omega

end StaticSite.Listing
