import StaticSite.Page.FrontMatter
import StaticSite.Proofs.DecimalTexts

/-! The keys of a mapping and their texts. A number is told by its text, and no text of a number is
that of a truth value; so only a key that is a text itself can be spelled as another key is. -/
namespace StaticSite

namespace Yaml

variable {a b : Number} {v key : Value} {t : Text} {n : Int}

/-- A number in its only form. -/
def Number.WellFormed : Number → Prop
  | .float x => x.WellFormed
  | .int _ | .infinite _ | .nan => True

/-! ### Texts of numbers -/

theorem notMem_ofInt {c : Char} (hdigit : c.isDigit = false) (hsign : c ≠ '-') (n : Int) :
    c ∉ Text.ofInt n := by
  have hdigits (m : Nat) : c ∉ Text.ofNat m := fun hmem => by
    simp [Binary64.digits_ofNat m c hmem] at hdigit
  cases n with
  | ofNat m => exact hdigits m
  | negSucc m => exact fun hmem => (List.mem_cons.1 hmem).elim hsign (hdigits (m + 1))

theorem ofInt_inj {m n : Int} (h : Text.ofInt m = Text.ofInt n) : m = n := by
  have hread := Binary64.power?_written m
  rw [h, Binary64.power?_written] at hread
  exact (Option.some.inj hread).symm

theorem ofInt_ne (ht : '.' ∈ t ∨ 'e' ∈ t) (n : Int) : Text.ofInt n ≠ t := by
  rintro rfl
  exact ht.elim (notMem_ofInt (by decide) (by decide) n) (notMem_ofInt (by decide) (by decide) n)

theorem toText_ne {x : Binary64} (hx : x.WellFormed) (ht : Binary64.parse? t = none) :
    x.toText ≠ t := by
  intro heq
  have hread := Binary64.parse?_toText hx
  rw [heq, ht] at hread
  cases hread

theorem infinite_text (negative : Bool) :
    '.' ∈ (Number.infinite negative).text ∧
    Binary64.parse? (Number.infinite negative).text = none := by
  cases negative with
  | false => exact ⟨by decide, by decide⟩
  | true => exact ⟨by decide, by decide⟩

theorem nan_text : '.' ∈ Number.nan.text ∧ Binary64.parse? Number.nan.text = none :=
  ⟨by decide, by decide⟩

theorem Number.text_inj (ha : a.WellFormed) (hb : b.WellFormed) (h : a.text = b.text) : a = b := by
  cases a with
  | int m =>
    cases b with
    | int n => exact congrArg Number.int (ofInt_inj h)
    | float y => exact absurd h (ofInt_ne y.point_mem_toText m)
    | infinite negative => exact absurd h (ofInt_ne (.inl (infinite_text negative).1) m)
    | nan => exact absurd h (ofInt_ne (.inl nan_text.1) m)
  | float x =>
    cases b with
    | int n => exact absurd h.symm (ofInt_ne x.point_mem_toText n)
    | float y => exact congrArg Number.float (Binary64.toText_inj ha hb h)
    | infinite negative => exact absurd h (toText_ne ha (infinite_text negative).2)
    | nan => exact absurd h (toText_ne ha nan_text.2)
  | infinite negative =>
    cases b with
    | int n => exact absurd h.symm (ofInt_ne (.inl (infinite_text negative).1) n)
    | float y => exact absurd h.symm (toText_ne hb (infinite_text negative).2)
    | infinite negative' =>
      cases negative <;> cases negative' <;> first | rfl | exact absurd h (by decide)
    | nan => cases negative <;> exact absurd h (by decide)
  | nan =>
    cases b with
    | int n => exact absurd h.symm (ofInt_ne (.inl nan_text.1) n)
    | float y => exact absurd h.symm (toText_ne hb nan_text.2)
    | infinite negative => cases negative <;> exact absurd h (by decide)
    | nan => rfl

theorem Number.text_ne (ha : a.WellFormed) (hletter : 'e' ∈ t) (hpoint : '.' ∉ t)
    (hread : Binary64.parse? t = none) :
    a.text ≠ t := by
  intro heq
  cases a with
  | int n => exact ofInt_ne (.inr hletter) n heq
  | float x => exact toText_ne ha hread heq
  | infinite negative => exact hpoint (heq ▸ (infinite_text negative).1)
  | nan => exact hpoint (heq ▸ nan_text.1)

/-! ### What is loaded -/

def Value.NumberFormed : Value → Prop
  | .number n => n.WellFormed
  | .null | .bool _ | .string _ | .sequence _ | .mapping _ | .tagged _ _ => True

/-- What a scalar comes to. -/
structure Value.Single (v : Value) : Prop where
  formed : v.NumberFormed
  notMapping : ∀ pairs, v ≠ .mapping pairs

theorem wellFormed_of_float? (h : Scalar.float? t = some a) : a.WellFormed := by
  unfold Scalar.float? at h
  split at h
  dsimp only at h
  split at h
  · cases h
  · split at h
    · cases h
      trivial
    · split at h
      · cases h
        trivial
      · split at h
        · cases h
          trivial
        · obtain ⟨x, hx, rfl⟩ := Option.map_eq_some_iff.1 h
          exact Binary64.wellFormed_of_parse? hx

theorem wellFormed_of_number? (h : Scalar.number? t = some (some a)) : a.WellFormed := by
  rw [Scalar.number?] at h
  split at h
  · split at h
    · cases h
      trivial
    · cases h
    · cases h
  · cases h

theorem single_of_plain (h : Scalar.plain t = some v) : v.Single := by
  rw [Scalar.plain] at h
  split at h
  · cases h
    exact ⟨trivial, nofun⟩
  · split at h
    · cases h
      exact ⟨trivial, nofun⟩
    · split at h
      · cases h
      next hn =>
        cases h
        exact ⟨wellFormed_of_number? hn, nofun⟩
      · split at h
        next hn =>
          cases h
          refine ⟨?_, nofun⟩
          split at hn
          · cases hn
          · exact wellFormed_of_float? hn
        · cases h
          exact ⟨trivial, nofun⟩

theorem single_of_typed {tag : Text} (h : Scalar.typed tag t = some v) : v.Single := by
  unfold Scalar.typed at h
  dsimp only at h
  split at h
  · obtain ⟨b, -, rfl⟩ := Option.map_eq_some_iff.1 h
    exact ⟨trivial, nofun⟩
  · split at h
    · obtain ⟨n?, hn, h⟩ := Option.bind_eq_some_iff.1 h
      obtain ⟨n, rfl, rfl⟩ := Option.map_eq_some_iff.1 h
      exact ⟨wellFormed_of_number? hn, nofun⟩
    · split at h
      · obtain ⟨n, hn, rfl⟩ := Option.map_eq_some_iff.1 h
        exact ⟨wellFormed_of_float? hn, nofun⟩
      · split at h
        · split at h
          · cases h
            exact ⟨trivial, nofun⟩
          · cases h
        · cases h
          exact ⟨trivial, nofun⟩

theorem single_of_scalar {p : Properties} {isPlain : Bool} (h : scalarValue p isPlain t = some v) :
    v.Single := by
  rw [scalarValue] at h
  split at h
  · obtain ⟨w, -, rfl⟩ := Option.map_eq_some_iff.1 h
    exact ⟨trivial, nofun⟩
  · exact single_of_typed h
  · split at h
    · exact single_of_plain h
    · cases h
      exact ⟨trivial, nofun⟩

/-! ### Runs -/

variable {α β : Type} {nodes : List Node} {depth s s' : Nat} {n : Node}
  {pairs before : List (Value × Value)}

theorem bind_eq_some {x : StateT Nat Option α} {f : α → StateT Nat Option β} {b : β} :
    (x >>= f) s = some (b, s') ↔ ∃ a mid, x s = some (a, mid) ∧ f a mid = some (b, s') := by
  change Option.bind (x s) (fun p => f p.1 p.2) = some (b, s') ↔ _
  rw [Option.bind_eq_some_iff]
  exact Prod.exists

theorem lift_eq_some {x : Option α} {a : α} :
    StateT.lift x s = some (a, s') ↔ x = some a ∧ s' = s := by
  change Option.bind x (fun a => some (a, s)) = some (a, s') ↔ _
  rw [Option.bind_eq_some_iff]
  constructor
  · rintro ⟨b, hx, heq⟩
    cases heq
    exact ⟨hx, rfl⟩
  · rintro ⟨hx, rfl⟩
    exact ⟨a, hx, rfl⟩

theorem pure_eq_some {a b : α} : (pure a : StateT Nat Option α) s = some (b, s') ↔
    a = b ∧ s = s' := by
  change some (a, s) = some (b, s') ↔ _
  rw [Option.some.injEq, Prod.mk.injEq]

theorem failure_ne_some {b : α} : (failure : StateT Nat Option α) s ≠ some (b, s') := nofun

theorem numberFormed_withTag (p : Properties) (hv : v.NumberFormed) :
    (withTag p v).NumberFormed := by
  rw [withTag]
  split
  · trivial
  · exact hv

def addPair (nodes : List Node) (depth : Nat) (pairs : List (Value × Value)) :
    Node × Node → StateT Nat Option (List (Value × Value))
  | (k, v) => do
    let k ← Node.value nodes depth k
    if k.hasKey pairs then failure
    let v ← Node.value nodes depth v
    return pairs ++ [(k, v)]

theorem value_cases (h : Node.value nodes depth n s = some (v, s')) :
    (∃ p isPlain t, scalarValue p isPlain t = some v) ∨
    (∃ p items, v = withTag p (.sequence items)) ∨
      ∃ p below mid pairs, ∃ ps : List (Node × Node),
        v = withTag p (.mapping pairs) ∧
        ps.foldlM (addPair nodes below) [] mid = some (pairs, s') := by
  cases depth with
  | zero =>
    rw [Node.value] at h
    obtain ⟨m, mid, -, h⟩ := bind_eq_some.1 h
    split at h
    · exact .inl ⟨_, _, _, (lift_eq_some.1 h).1⟩
    · exact absurd h failure_ne_some
  | succ depth =>
    rw [Node.value] at h
    obtain ⟨m, mid, -, h⟩ := bind_eq_some.1 h
    split at h
    · exact absurd h failure_ne_some
    · exact .inl ⟨_, _, _, (lift_eq_some.1 h).1⟩
    · obtain ⟨items, mid', -, h⟩ := bind_eq_some.1 h
      exact .inr (.inl ⟨_, items, (pure_eq_some.1 h).1.symm⟩)
    · obtain ⟨pairs, mid', hpairs, h⟩ := bind_eq_some.1 h
      obtain ⟨rfl, rfl⟩ := pure_eq_some.1 h
      exact .inr (.inr ⟨_, depth, mid, pairs, _, rfl, hpairs⟩)

theorem numberFormed_of_value (h : Node.value nodes depth n s = some (v, s')) : v.NumberFormed := by
  obtain ⟨p, isPlain, t, hscalar⟩ | ⟨p, items, rfl⟩ | ⟨p, below, mid, pairs, ps, rfl, -⟩ :=
    value_cases h
  · exact (single_of_scalar hscalar).formed
  · exact numberFormed_withTag p trivial
  · exact numberFormed_withTag p trivial

/-- That the keys of some pairs are different, and numbers among them in their only form. -/
structure KeysApart (pairs : List (Value × Value)) : Prop where
  apart : pairs.Pairwise fun p q => p.1.same q.1 = false
  formed : ∀ p ∈ pairs, p.1.NumberFormed

theorem KeysApart.addPair {pair : Node × Node} (hbefore : KeysApart before)
    (h : addPair nodes depth before pair s = some (pairs, s')) : KeysApart pairs := by
  rw [Yaml.addPair] at h
  obtain ⟨key, mid, hkey, h⟩ := bind_eq_some.1 h
  dsimp only at h
  split at h
  · obtain ⟨_, _, hfails, _⟩ := bind_eq_some.1 h
    exact absurd hfails failure_ne_some
  next hnew =>
    obtain ⟨value, mid', -, h⟩ := bind_eq_some.1 h
    obtain ⟨rfl, -⟩ := pure_eq_some.1 h
    rw [Value.hasKey, Bool.not_eq_true, List.any_eq_false] at hnew
    refine ⟨List.pairwise_append.2 ⟨hbefore.apart, List.pairwise_singleton _ _,
      fun p hp q hq => ?_⟩, fun p hp => ?_⟩
    · rw [List.mem_singleton.1 hq]
      exact Bool.eq_false_iff.2 (hnew p hp)
    · cases List.mem_append.1 hp with
      | inl hold => exact hbefore.formed p hold
      | inr hlast =>
        rw [List.mem_singleton.1 hlast]
        exact numberFormed_of_value hkey

theorem KeysApart.foldlM {ps : List (Node × Node)} (hbefore : KeysApart before)
    (h : ps.foldlM (Yaml.addPair nodes depth) before s = some (pairs, s')) : KeysApart pairs := by
  induction ps generalizing before s with
  | nil =>
    rw [List.foldlM_nil] at h
    rwa [← (pure_eq_some.1 h).1]
  | cons pair ps ih =>
    rw [List.foldlM_cons] at h
    obtain ⟨next, mid, hnext, h⟩ := bind_eq_some.1 h
    exact ih (hbefore.addPair hnext) h

theorem keysApart_of_value (h : Node.value nodes depth n s = some (.mapping pairs, s')) :
    KeysApart pairs := by
  obtain ⟨p, isPlain, t, hscalar⟩ | ⟨p, items, htag⟩ | ⟨p, below, mid, found, ps, htag, hfound⟩ :=
    value_cases h
  · exact absurd rfl ((single_of_scalar hscalar).notMapping pairs)
  · rw [withTag] at htag
    split at htag <;> cases htag
  · rw [withTag] at htag
    split at htag
    · cases htag
    · cases htag
      exact KeysApart.foldlM ⟨.nil, by simp⟩ hfound

theorem keysApart_of_load? (h : load? t = some (.mapping pairs)) : KeysApart pairs := by
  rw [load?] at h
  obtain ⟨ts, -, h⟩ := Option.bind_eq_some_iff.1 h
  obtain ⟨root, -, h⟩ := Option.bind_eq_some_iff.1 h
  cases root with
  | none => cases h
  | some n =>
    obtain ⟨⟨m, names⟩, -, h⟩ := Option.bind_eq_some_iff.1 h
    obtain ⟨⟨v, used⟩, hv, h⟩ := Option.bind_eq_some_iff.1 h
    obtain rfl := Option.some.inj h
    exact keysApart_of_value hv

end Yaml
end StaticSite
