import Mathlib
import StaticSite.Decimal

/-! Rounding to a binary number. The numbers have their reals around them, which overlap nowhere; of
a fraction, the number is taken that has it around. -/
namespace StaticSite.Binary64

variable {x : Binary64} {a b m n : Nat} {e : Int} {r : ℚ} {negative : Bool}

/-- That an integer is the nearest one, and even if another is as near. -/
structure Rounds (r : ℚ) (m : Nat) : Prop where
  above : (m : ℚ) - 1 / 2 ≤ r
  below : r ≤ m + 1 / 2
  even_of_above : r = m - 1 / 2 → m % 2 = 0
  even_of_below : r = m + 1 / 2 → m % 2 = 0

theorem Rounds.unique (hm : Rounds r m) (hn : Rounds r n) : m = n := by
  wlog hlt : m < n generalizing m n
  · rcases Nat.lt_trichotomy m n with h | h | h
    · exact this hm hn h
    · exact h
    · exact (this hn hm h).symm
  have hstep : (m : ℚ) + 1 ≤ n := by exact_mod_cast hlt
  have hm' := hm.even_of_below (by linarith [hm.below, hn.above])
  have hn' := hn.even_of_above (by linarith [hm.below, hn.above])
  have hnext : (n : ℚ) ≤ m + 1 := by linarith [hm.below, hn.above]
  have : n ≤ m + 1 := by exact_mod_cast hnext
  omega

theorem rounds_divRound (a : Nat) (hb : 0 < b) : Rounds ((a : ℚ) / b) (divRound a b) := by
  have hb' : (0 : ℚ) < b := by exact_mod_cast hb
  have hsplit : (a : ℚ) / b = (a / b : Nat) + ((a % b : Nat) : ℚ) / b := by
    rw [eq_comm, eq_div_iff hb'.ne', add_mul, div_mul_cancel₀ _ hb'.ne']
    exact_mod_cast Nat.div_add_mod' a b
  have hleft : (0 : ℚ) ≤ ((a % b : Nat) : ℚ) / b := by positivity
  have hright : ((a % b : Nat) : ℚ) / b < 1 := by
    rw [div_lt_one hb']
    exact_mod_cast Nat.mod_lt a hb
  have hnext : ((a / b + 1 : Nat) : ℚ) = (a / b : Nat) + 1 := Nat.cast_succ _
  rw [divRound, hsplit]
  split
  next hlow =>
    have hhalf : ((a % b : Nat) : ℚ) / b < 1 / 2 := by
      rw [div_lt_div_iff₀ hb' two_pos]
      exact_mod_cast (by omega : a % b * 2 < 1 * b)
    exact ⟨by linarith, by linarith, fun h => by linarith, fun h => by linarith⟩
  next hlow =>
    split
    next hhigh =>
      have hhalf : 1 / 2 < ((a % b : Nat) : ℚ) / b := by
        rw [div_lt_div_iff₀ two_pos hb']
        exact_mod_cast (by omega : 1 * b < a % b * 2)
      exact ⟨by linarith, by linarith, fun h => by linarith, fun h => by linarith⟩
    next hhigh =>
      have hhalf : ((a % b : Nat) : ℚ) / b = 1 / 2 := by
        rw [div_eq_div_iff hb'.ne' two_ne_zero]
        exact_mod_cast (by omega : a % b * 2 = 1 * b)
      rw [hhalf]
      cases Nat.mod_two_eq_zero_or_one (a / b) with
      | inl hzero =>
        rw [hzero, Nat.add_zero]
        exact ⟨by linarith, by linarith, fun _ => hzero, fun _ => hzero⟩
      | inr hone =>
        rw [hone]
        exact ⟨by linarith, by linarith, fun _ => by omega, fun h => by linarith⟩

/-! ### Powers of two -/

theorem rounds_scaled (a : Nat) (hb : 0 < b) (e : Int) :
    Rounds ((a : ℚ) / b / 2 ^ e) (scaled a b e) := by
  cases e with
  | ofNat n =>
    have h := rounds_divRound a (Nat.mul_pos hb (Nat.two_pow_pos n))
    rw [scaled, Nat.shiftLeft_eq]
    rw [Nat.cast_mul, ← div_div] at h
    simpa using h
  | negSucc n =>
    have h := rounds_divRound (a * 2 ^ (n + 1)) hb
    rw [scaled, Nat.shiftLeft_eq, zpow_negSucc, div_inv_eq_mul, div_mul_eq_mul_div]
    exact_mod_cast h

theorem reaches_iff (a : Nat) (hb : 0 < b) (e : Int) : reaches a b e ↔ (2 : ℚ) ^ e ≤ a / b := by
  have hb' : (0 : ℚ) < b := by exact_mod_cast hb
  cases e with
  | ofNat n =>
    rw [reaches, Nat.shiftLeft_eq, decide_eq_true_iff, le_div_iff₀ hb', Int.ofNat_eq_natCast,
      zpow_natCast, mul_comm]
    exact_mod_cast Iff.rfl
  | negSucc n =>
    rw [reaches, Nat.shiftLeft_eq, decide_eq_true_iff, le_div_iff₀ hb', zpow_negSucc,
      inv_mul_le_iff₀ (by positivity), mul_comm]
    exact_mod_cast Iff.rfl

theorem binade (ha : a ≠ 0) (hb : 0 < b) :
    (2 : ℚ) ^ ((a.log2 : Int) - b.log2 - 1) ≤ a / b ∧
    (a : ℚ) / b < 2 ^ ((a.log2 : Int) - b.log2 + 1) := by
  have hb' : (0 : ℚ) < b := by exact_mod_cast hb
  have hlow : (2 : ℚ) ^ a.log2 ≤ a := by exact_mod_cast Nat.log2_self_le ha
  have hhigh : (a : ℚ) < 2 ^ (a.log2 + 1) := by exact_mod_cast Nat.lt_log2_self
  have hlow' : (2 : ℚ) ^ b.log2 ≤ b := by exact_mod_cast Nat.log2_self_le hb.ne'
  have hhigh' : (b : ℚ) < 2 ^ (b.log2 + 1) := by exact_mod_cast Nat.lt_log2_self
  constructor
  · rw [le_div_iff₀ hb', show (a.log2 : Int) - b.log2 - 1 = a.log2 -
      (b.log2 + 1 : Nat) by push_cast; ring,
      zpow_sub₀ two_ne_zero, zpow_natCast, zpow_natCast, div_mul_eq_mul_div,
      div_le_iff₀ (by positivity)]
    exact mul_le_mul hlow hhigh'.le hb'.le (by positivity)
  · rw [div_lt_iff₀ hb', show (a.log2 : Int) - b.log2 + 1 = (a.log2 + 1 : Nat) -
      (b.log2 : Int) by push_cast; ring,
      zpow_sub₀ two_ne_zero, zpow_natCast, zpow_natCast, div_mul_eq_mul_div,
      lt_div_iff₀ (by positivity)]
    exact mul_lt_mul hhigh hlow' (by positivity) (by positivity)

/-! ### Numbers -/

structure WellFormed (x : Binary64) : Prop where
  mantissa_lt : x.mantissa < 2 ^ 53
  normal : 2 ^ 52 ≤ x.mantissa ∨ x.exponent = least
  least_le : least ≤ x.exponent
  le_greatest : x.exponent ≤ greatest

/-- How far down the reals go that round to a number, in its last binary places. The numbers below a
power of two are closer. -/
def gap (x : Binary64) : ℚ := if x.mantissa = 2 ^ 52 ∧ x.exponent ≠ least then 1 / 4 else 1 / 2

/-- That a positive real rounds to a number but for its sign. -/
structure Around (x : Binary64) (r : ℚ) : Prop where
  above : (x.mantissa - x.gap) * 2 ^ x.exponent ≤ r
  below : r ≤ (x.mantissa + 1 / 2) * 2 ^ x.exponent
  even : r = (x.mantissa - x.gap) * 2 ^ x.exponent ∨ r = (x.mantissa + 1 / 2) * 2 ^ x.exponent →
    x.mantissa % 2 = 0

theorem exists_scaled (negative : Bool) (ha : a ≠ 0) (hb : 0 < b) :
    ∃ e m, least ≤ e ∧ Rounds ((a : ℚ) / b / 2 ^ e) m ∧ (a : ℚ) / b < 2 ^ (e + 53) ∧
      (e = least ∨ (2 : ℚ) ^ (e + 52) ≤ a / b) ∧
      nearest? negative a b =
        if m = 2 ^ 53 then (if greatest < e + 1 then none else some ⟨negative, 2 ^ 52, e + 1⟩)
        else if greatest < e then none else some ⟨negative, m, e⟩ := by
  obtain ⟨hlow, hhigh⟩ := binade ha hb
  obtain ⟨power, hpower, hreached, hbelow⟩ : ∃ power : Int,
      power = (if reaches a b ((a.log2 : Int) - b.log2) then (a.log2 : Int) - b.log2
        else (a.log2 : Int) - b.log2 - 1) ∧
        (2 : ℚ) ^ power ≤ a / b ∧ (a : ℚ) / b < 2 ^ (power + 1) := by
    refine ⟨_, rfl, ?_⟩
    split
    next hreaches => exact ⟨(reaches_iff a hb _).1 hreaches, hhigh⟩
    next hnot =>
      rw [reaches_iff a hb, not_le] at hnot
      exact ⟨hlow, by simpa using hnot⟩
  refine ⟨max least (power - 52), scaled a b (max least (power - 52)), le_max_left _ _,
    rounds_scaled a hb _, ?_, ?_, ?_⟩
  · refine hbelow.trans_le (zpow_le_zpow_right₀ one_le_two ?_)
    omega
  · cases le_total (power - 52) least with
    | inl hle => exact .inl (max_eq_left hle)
    | inr hle => exact .inr (by rw [max_eq_right hle, sub_add_cancel]; exact hreached)
  · rw [nearest?, if_neg ha]
    simp only [← hpower, Nat.shiftLeft_eq, one_mul]
    split <;> rfl

theorem gap_le (x : Binary64) : x.gap ≤ 1 / 2 := by
  rw [gap]
  split <;> norm_num

theorem Around.rounds (hr : x.Around r) : Rounds (r / 2 ^ x.exponent) x.mantissa := by
  have hpow : (0 : ℚ) < 2 ^ x.exponent := zpow_pos two_pos _
  obtain ⟨habove, hbelow, heven⟩ := hr
  rw [← div_eq_iff hpow.ne', ← div_eq_iff hpow.ne'] at heven
  rw [← le_div_iff₀ hpow] at habove
  rw [← div_le_iff₀ hpow] at hbelow
  have hgap := gap_le x
  refine ⟨by linarith, hbelow, fun h => ?_, fun h => heven (.inr h)⟩
  by_cases hhalf : x.gap = 1 / 2
  · exact heven (.inl (by rw [hhalf, h]))
  · rw [gap] at hhalf
    split at hhalf
    next hedge => rw [hedge.1]; rfl
    next => exact absurd rfl hhalf

/-- A number around which there are smaller reals than the powers of two tell is a power of two
itself, and they are close. -/
theorem Around.edge (hr : x.Around r) (hx : x.WellFormed) (hlow : r < 2 ^ (x.exponent + 52))
    (hne : x.exponent ≠ least) :
    x.mantissa = 2 ^ 52 ∧ (2 ^ 52 - 1 / 4) * 2 ^ x.exponent ≤ r := by
  have hpow : (0 : ℚ) < 2 ^ x.exponent := zpow_pos two_pos _
  have habove := hr.above
  rw [zpow_add₀ two_ne_zero, mul_comm] at hlow
  have hlt : (x.mantissa : ℚ) - x.gap < 2 ^ 52 := by
    have := lt_of_mul_lt_mul_right (habove.trans_lt hlow) hpow.le
    exact_mod_cast this
  have hnext : (x.mantissa : ℚ) < 2 ^ 52 + 1 := by linarith [gap_le x]
  have hmantissa : x.mantissa = 2 ^ 52 := by
    have : x.mantissa < 2 ^ 52 + 1 := by exact_mod_cast hnext
    have := hx.normal.resolve_right hne
    omega
  refine ⟨hmantissa, ?_⟩
  rw [gap, if_pos ⟨hmantissa, hne⟩, hmantissa] at habove
  exact_mod_cast habove

theorem nearest?_of_around (negative : Bool) (hx : x.WellFormed) (ha : a ≠ 0) (hb : 0 < b)
    (hr : x.Around (a / b)) :
    nearest? negative a b = some ⟨negative, x.mantissa, x.exponent⟩ := by
  obtain ⟨e, m, hleast, hrounds, hbelow, hnormal, heq⟩ := exists_scaled negative ha hb
  have hpow (k : Int) : (0 : ℚ) < 2 ^ k := zpow_pos two_pos k
  have hmantissa : (x.mantissa : ℚ) + 1 ≤ 2 ^ 53 := by exact_mod_cast hx.mantissa_lt
  have htop : (a : ℚ) / b < 2 ^ (x.exponent + 53) := by
    refine hr.below.trans_lt ?_
    rw [zpow_add₀ two_ne_zero, mul_comm]
    exact mul_lt_mul_of_pos_left (by norm_num at hmantissa ⊢; linarith) (hpow _)
  have hle : e ≤ x.exponent := by
    by_contra hgt
    have hreached := hnormal.resolve_left (by have := hx.least_le; omega)
    have hmore : (2 : ℚ) ^ (x.exponent + 53) ≤ 2 ^ (e + 52) :=
      zpow_le_zpow_right₀ one_le_two (by omega)
    linarith
  rw [heq]
  by_cases hsame : e = x.exponent
  · rw [hsame] at hrounds ⊢
    rw [hrounds.unique hr.rounds, if_neg hx.mantissa_lt.ne, if_neg hx.le_greatest.not_gt]
  · -- below a power of two the places are finer by one
    have hlow : (a : ℚ) / b < 2 ^ (x.exponent + 52) :=
      hbelow.trans_le (zpow_le_zpow_right₀ one_le_two (by omega))
    obtain ⟨hedge, hclose⟩ := hr.edge hx hlow (by omega)
    have hprevious : e = x.exponent - 1 := by
      by_contra hfar
      have hmuch : (a : ℚ) / b < 2 ^ (x.exponent + 51) :=
        hbelow.trans_le (zpow_le_zpow_right₀ one_le_two (by omega))
      rw [zpow_add₀ two_ne_zero, mul_comm] at hmuch
      have := lt_of_mul_lt_mul_right (hclose.trans_lt hmuch) (hpow _).le
      norm_num at this
    have hcarry : Rounds ((a : ℚ) / b / 2 ^ e) (2 ^ 53) := by
      have hhalf : (2 : ℚ) ^ x.exponent = 2 * 2 ^ e := by
        rw [hprevious, zpow_sub_one₀ two_ne_zero]
        ring
      rw [hhalf] at hclose
      have hdown : (2 : ℚ) ^ 53 - 1 / 2 ≤ (a : ℚ) / b / 2 ^ e := by
        rw [le_div_iff₀ (hpow e)]
        refine le_trans (le_of_eq ?_) hclose
        ring
      have hup : (a : ℚ) / b / 2 ^ e < 2 ^ 53 := by
        rw [div_lt_iff₀ (hpow e), mul_comm]
        rw [zpow_add₀ two_ne_zero] at hbelow
        exact_mod_cast hbelow
      refine ⟨by push_cast; exact hdown, by push_cast; linarith, fun _ => by decide, fun h => ?_⟩
      push_cast at h
      linarith
    rw [hrounds.unique hcarry, if_pos rfl, hprevious, sub_add_cancel, if_neg hx.le_greatest.not_gt,
      hedge]

theorem wellFormed_of_nearest? (hb : 0 < b) (h : nearest? negative a b = some x) :
    x.WellFormed := by
  by_cases ha : a = 0
  · rw [nearest?, if_pos ha] at h
    obtain rfl := Option.some.inj h
    exact ⟨Nat.two_pow_pos 53, .inr rfl, le_rfl, (by decide : least ≤ greatest)⟩
  · obtain ⟨e, m, hleast, hrounds, hbelow, hnormal, heq⟩ := exists_scaled negative ha hb
    have hpow : (0 : ℚ) < 2 ^ e := zpow_pos two_pos _
    have hle : m ≤ 2 ^ 53 := by
      have hlt : (a : ℚ) / b / 2 ^ e < 2 ^ 53 := by
        rw [div_lt_iff₀ hpow, mul_comm]
        rw [zpow_add₀ two_ne_zero] at hbelow
        exact_mod_cast hbelow
      have : (m : ℚ) < 2 ^ 53 + 1 := by linarith [hrounds.above]
      have : m < 2 ^ 53 + 1 := by exact_mod_cast this
      omega
    rw [heq] at h
    split at h
    next hcarry =>
      split at h
      · cases h
      next hgreatest =>
        obtain rfl := Option.some.inj h
        exact ⟨Nat.pow_lt_pow_right one_lt_two (by omega), .inl le_rfl,
          hleast.trans (Int.le_add_one le_rfl), not_lt.1 hgreatest⟩
    next hfits =>
      split at h
      · cases h
      next hgreatest =>
        obtain rfl := Option.some.inj h
        refine ⟨lt_of_le_of_ne hle hfits, hnormal.symm.imp_left fun hreached => ?_, hleast,
          not_lt.1 hgreatest⟩
        have hge : (2 : ℚ) ^ 52 ≤ (a : ℚ) / b / 2 ^ e := by
          rw [le_div_iff₀ hpow, mul_comm]
          rw [zpow_add₀ two_ne_zero] at hreached
          exact_mod_cast hreached
        have : (2 : ℚ) ^ 52 < m + 1 := by linarith [hrounds.below]
        have : 2 ^ 52 < m + 1 := by exact_mod_cast this
        exact Nat.lt_succ_iff.1 this

end StaticSite.Binary64
