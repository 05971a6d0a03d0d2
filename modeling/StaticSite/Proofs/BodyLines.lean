import StaticSite.Page.Template
import StaticSite.Proofs.PathNames

/-! Bodies one below the other. A line is rendered apart from all other lines, and only its number
tells where it stands; so two bodies with a line feed between them come to what each of them comes
to, with the advisories of the second moved down by the lines of the first, and fail as the first
that fails. -/
namespace StaticSite

theorem Text.length_splitBy (c : Char) (t : Text) :
    (splitBy (· == c) t).length = t.count c + 1 := by
  induction t with
  | nil => rfl
  | cons d t ih =>
    rw [splitBy]
    split
    next hd =>
      obtain rfl : d = c := by simpa using hd
      rw [List.length_cons, ih, List.count_cons_self]
    next hd =>
      rw [List.count_cons_of_ne (by simpa using hd), ← ih]
      split
      next hnil => exact absurd hnil (splitBy_ne_nil _ t)
      next p ps hs => rw [hs, List.length_cons, List.length_cons]

def Advisory.down (n : Nat) (a : Advisory) : Advisory := { a with line := a.line + n }

namespace Rendered

def down (n : Nat) (r : Rendered) : Rendered := ⟨r.text, r.advisories.map (Advisory.down n)⟩

def append (r r' : Rendered) : Rendered := ⟨r.text ++ r'.text, r.advisories ++ r'.advisories⟩

end Rendered

namespace Template

variable {s : Snippets} {env : Environment} {source : Path} {m n : Nat} {texts : List Text}

theorem renderLines_down :
    renderLines s env source (m + n) texts = (renderLines s env source m texts).map
    (Rendered.down n) := by
  induction texts generalizing m with
  | nil => rfl
  | cons t ts ih =>
    have hnext : m + n + 1 = m + 1 + n := by omega
    rw [renderLines, renderLines, hnext, ih]
    cases hline : lineText s env (Line.scan t) with
    | error e => rfl
    | ok out =>
      cases hrest : renderLines s env source (m + 1) ts with
      | error e => rfl
      | ok rest =>
        cases hkind : (Line.scan t).unclosed <;> simp [Except.map, Rendered.down, Advisory.down]

theorem renderLines_append (more : List Text) :
    renderLines s env source n (texts ++ more) =
      match renderLines s env source n texts with
      | .error e => .error e
      | .ok r => (renderLines s env source (n + texts.length) more).map r.append := by
  induction texts generalizing n with
  | nil =>
    rw [renderLines]
    cases hmore : renderLines s env source n more with
    | error e => simp [hmore, Except.map]
    | ok r => simp [hmore, Except.map, Rendered.append]
  | cons t ts ih =>
    have hnext : n + (t :: ts).length = n + 1 + ts.length := by
      rw [List.length_cons]
      omega
    rw [List.cons_append, renderLines, renderLines, hnext, ih]
    cases hline : lineText s env (Line.scan t) with
    | error e => rfl
    | ok out =>
      cases hrest : renderLines s env source (n + 1) ts with
      | error e => rfl
      | ok rest =>
        cases hmore : renderLines s env source (n + 1 + ts.length) more with
        | error e => rfl
        | ok r => simp [Except.map, Rendered.append]

/-- Two bodies with a line feed between them are rendered if both are, and then to the one text
after the other. The advisories of the second are moved down by the lines of the first. If the first
fails its error is that of the whole, and otherwise that of the second is. -/
theorem render_append_line (s : Snippets) (env : Environment) (source : Path) (a b : Text) :
    render s env source (a ++ '\n' :: b) =
      match render s env source a, render s env source b with
      | .ok first, .ok second => .ok (first.append (second.down (a.count '\n' + 1)))
      | .ok _, .error e => .error e
      | .error e, _ => .error e := by
  have hsecond : renderLines s env source (1 + (Text.splitBy (· == '\n') a).length)
      (Text.splitBy (· == '\n') b) =
      (render s env source b).map (Rendered.down (a.count '\n' + 1)) := by
    rw [renderLines_down, Text.length_splitBy, render]
  rw [render, Text.splitBy_append_cons _ _ _ (by rfl), renderLines_append, hsecond, ← render]
  cases hfirst : render s env source a with
  | error e => rfl
  | ok first => cases hb : render s env source b <;> rfl

end Template
end StaticSite
