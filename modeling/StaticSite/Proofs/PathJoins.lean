import StaticSite.Proofs.PathRests

/-! Joining to any path, with a root or without one. The names of a path that is joined are added to
those of its base, and when the base is stripped off again they are what is left. -/
namespace StaticSite

/-- The name that a component stands for; two dots are one here. -/
def Component.text? : Component → Option Text
  | .root => none
  | .here => none
  | .up => some ['.', '.']
  | .name t => some t

namespace Path

variable {p q source rel : Path} {ns : List Text} {n : Text}

def names (p : Path) : List Text := named (Text.pieces p.text)

theorem isAbsolute_join_relative (hq : q.isAbsolute = false) :
    (p.join q).isAbsolute = p.isAbsolute := by
  cases habs : p.isAbsolute with
  | true => exact isAbsolute_join_left habs
  | false => exact isAbsolute_join_of_relative habs hq

theorem steps_join_of_ne_nil (hp : p.text ≠ []) (hq : q.isAbsolute = false) :
    (p.join q).steps = p.steps ++ q.steps := by
  obtain ⟨a, -, hpieces, hcut⟩ := pieces_stemText_append p q.text
  have htext : (p.join q).text = p.stemText ++ q.text := by
    rw [join_of_relative hq, front, if_neg hp]
  rw [steps_eq, htext, hpieces, List.filter_append, steps_eq p, steps_eq q]
  rcases hcut with h | h <;> simp [h]

theorem steps_ofNames (hne : ns ≠ []) (h : ∀ n ∈ ns, Plain n) : (ofNames ns).steps = ns := by
  rw [steps_eq, ofNames, Text.pieces_join hne fun n hn => (h n hn).noSlash, List.filter_eq_self]
  exact fun n hn => by simpa using (h n hn).ne_nil

theorem wantsDirectory_below (p : Path) (hne : ns ≠ []) (h : ∀ n ∈ ns, Plain n) :
    (p.descend ns).wantsDirectory = false := by
  obtain ⟨ms, m, rfl⟩ := (List.eq_nil_or_concat' ns).resolve_left hne
  have hm : Plain m := h m (by simp)
  rw [descend_concat, joinText, join_of_relative (isAbsolute_of_noSlash hm.noSlash), wantsDirectory]
  simpa using getLast?_of_plain hm (p.descend ms).front

theorem text?_ofName (n : Text) : (Component.ofName n).text? = some n := by
  rw [Component.ofName]
  split
  next h =>
    rw [h]
    rfl
  · rfl

end Path
end StaticSite
