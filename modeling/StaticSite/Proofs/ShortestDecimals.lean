import StaticSite.Proofs.Rounding

/-! The decimal that a binary number is written as. The reals around a number are more than the
seventeenth decimal place is apart, so one with so many digits is found; and whatever decimal is
found is read back as the number. -/
namespace StaticSite.Binary64

variable {x : Binary64} {a b n : Nat} {e k : Int} {r : ℚ} {negative : Bool}

theorem powerOfTen_eq (n : Nat) : powerOfTen n = 10 ^ n := rfl

def size (x : Binary64) : ℚ := x.mantissa * 2 ^ x.exponent

/-! ### The reals around a number -/

theorem gap_pos (x : Binary64) : 0 < x.gap := by
  rw [gap]
  split <;> norm_num

theorem Around.of_lt (habove : (x.mantissa - x.gap) * 2 ^ x.exponent < r)
    (hbelow : r < (x.mantissa + 1 / 2) * 2 ^ x.exponent) :
    x.Around r :=
  ⟨habove.le, hbelow.le, fun h => h.elim (fun h => absurd h habove.ne') fun h => absurd h hbelow.ne⟩

theorem Around.bounds (hr : x.Around r) (hx : x.WellFormed) (hpos : 0 < x.mantissa) :
    (2 : ℚ) ^ (-1075 : Int) ≤ r ∧ r < 2 ^ (1024 : Int) := by
  have hpow : (0 : ℚ) < 2 ^ x.exponent := zpow_pos two_pos _
  have hone : (1 : ℚ) ≤ x.mantissa := by exact_mod_cast hpos
  have hmantissa : (x.mantissa : ℚ) + 1 ≤ 2 ^ 53 := by exact_mod_cast hx.mantissa_lt
  constructor
  · calc (2 : ℚ) ^ (-1075 : Int) ≤ 2 ^ (x.exponent - 1) :=
          zpow_le_zpow_right₀ one_le_two (by have := hx.least_le; rw [least] at this; omega)
      _ = 1 / 2 * 2 ^ x.exponent := by rw [zpow_sub_one₀ two_ne_zero]; ring
      _ ≤ (x.mantissa - x.gap) * 2 ^ x.exponent :=
        mul_le_mul_of_nonneg_right (by linarith [gap_le x]) hpow.le
      _ ≤ r := hr.above
  · calc r ≤ (x.mantissa + 1 / 2) * 2 ^ x.exponent := hr.below
      _ < 2 ^ 53 * 2 ^ x.exponent := mul_lt_mul_of_pos_right (by linarith) hpow
      _ = 2 ^ (53 + x.exponent) := by rw [zpow_add₀ two_ne_zero]; norm_num
      _ ≤ 2 ^ (1024 : Int) :=
          zpow_le_zpow_right₀ one_le_two (by have := hx.le_greatest; rw [greatest] at this; omega)

theorem around_size (x : Binary64) : x.Around x.size := by
  have hpow : (0 : ℚ) < 2 ^ x.exponent := zpow_pos two_pos _
  exact .of_lt (mul_lt_mul_of_pos_right (by linarith [gap_pos x]) hpow)
    (mul_lt_mul_of_pos_right (by linarith) hpow)

/-! ### Powers of ten -/

theorem tenths_spec (e : Int) :
    0 < (tenths e).1 ∧ 0 < (tenths e).2 ∧ ((tenths e).1 : ℚ) / (tenths e).2 = 10 ^ e := by
  cases e with
  | ofNat n => exact ⟨Nat.pow_pos (by norm_num), one_pos, by simp [tenths, powerOfTen_eq]⟩
  | negSucc n =>
    exact ⟨one_pos, Nat.pow_pos (by norm_num), by simp [tenths, powerOfTen_eq, zpow_negSucc]⟩

theorem fraction_spec (a : Nat) (e : Int) :
    0 < (fraction a e).2 ∧ ((fraction a e).1 : ℚ) / (fraction a e).2 = a * 2 ^ e := by
  cases e with
  | ofNat n => exact ⟨one_pos, by simp [fraction, Nat.shiftLeft_eq]⟩
  | negSucc n =>
    refine ⟨by simp [fraction, Nat.shiftLeft_eq], ?_⟩
    simp [fraction, Nat.shiftLeft_eq, zpow_negSucc, div_eq_mul_inv]

theorem two_zpow_le {k : Int} (hk : 0 ≤ k) : (2 : ℚ) ^ (3 * k) ≤ 10 ^ k := by
  rw [zpow_mul]
  exact zpow_le_zpow_left₀ hk (by positivity) (by norm_num)

theorem log_bounds (hlow : (2 : ℚ) ^ (-1075 : Int) ≤ r) (hhigh : r < 2 ^ (1024 : Int)) :
    -359 ≤ Int.log 10 r ∧ Int.log 10 r < 342 := by
  have hpos : 0 < r := (zpow_pos two_pos _).trans_le hlow
  constructor
  · refine (Int.zpow_le_iff_le_log (by norm_num) hpos).1 ?_
    calc (10 : ℚ) ^ (-359 : Int) = (10 ^ (359 : Int))⁻¹ := zpow_neg _ _
      _ ≤ (2 ^ (3 * 359 : Int))⁻¹ := inv_anti₀ (zpow_pos two_pos _) (two_zpow_le (by decide))
      _ = 2 ^ (-(3 * 359) : Int) := (zpow_neg _ _).symm
      _ ≤ 2 ^ (-1075 : Int) := zpow_le_zpow_right₀ one_le_two (by decide)
      _ ≤ r := hlow
  · refine (Int.lt_zpow_iff_log_lt (by norm_num) hpos).1 ?_
    calc r < 2 ^ (1024 : Int) := hhigh
      _ ≤ 2 ^ (3 * 342 : Int) := zpow_le_zpow_right₀ one_le_two (by decide)
      _ ≤ 10 ^ (342 : Int) := two_zpow_le (by decide)

theorem cross_lt {a b c d : Nat} (hb : 0 < b) (hd : 0 < d) :
    a * d < b * c ↔ (a : ℚ) / b < (c : ℚ) / d := by
  have hb' : (0 : ℚ) < b := by exact_mod_cast hb
  have hd' : (0 : ℚ) < d := by exact_mod_cast hd
  rw [div_lt_div_iff₀ hb' hd', mul_comm b c]
  exact_mod_cast Iff.rfl

theorem magnitude_eq (ha : 0 < a) (hb : 0 < b) {guess : Int} {fuel : Nat}
    (hfuel : (guess - Int.log 10 ((a : ℚ) / b)).natAbs ≤ fuel) :
    magnitude a b guess fuel = Int.log 10 ((a : ℚ) / b) := by
  have hpos : (0 : ℚ) < a / b := by positivity
  induction fuel generalizing guess with
  | zero =>
    rw [magnitude]
    omega
  | succ fuel ih =>
    obtain ⟨hc, hd, htenths⟩ := tenths_spec guess
    have hlow : a * (tenths guess).2 < b * (tenths guess).1 ↔ Int.log 10 ((a : ℚ) / b) < guess := by
      rw [cross_lt hb hd, htenths]
      exact_mod_cast Int.lt_zpow_iff_log_lt (by norm_num) hpos
    have hhigh : b * (tenths guess).1 * 10 ≤ a * (tenths guess).2 ↔
        guess + 1 ≤ Int.log 10 ((a : ℚ) / b) := by
      rw [← not_lt, mul_assoc, cross_lt hb hd, not_lt, Nat.cast_mul, mul_div_right_comm, htenths]
      rw [show (10 : ℚ) ^ guess * ((10 : Nat) : ℚ) = 10 ^
        (guess + 1) by rw [zpow_add_one₀ (by norm_num)]; norm_num]
      exact_mod_cast Int.zpow_le_iff_le_log (by norm_num) hpos
    rw [magnitude]
    dsimp only
    split
    next h =>
      rw [hlow] at h
      exact ih (by omega)
    next h =>
      rw [hlow] at h
      split
      next h' =>
        rw [hhigh] at h'
        exact ih (by omega)
      next h' =>
        rw [hhigh] at h'
        omega

/-- The guess for the leading digit is made from the binary logarithms; it is never far off. -/
theorem guess_near (ha : 0 < a) (hb : 0 < b) (hlow : (2 : ℚ) ^ (-1075 : Int) ≤ a / b)
    (hhigh : (a : ℚ) / b < 2 ^ (1024 : Int)) :
    (((a.log2 : Int) - b.log2) * 3 / 10 - Int.log 10 ((a : ℚ) / b)).natAbs ≤ 400 := by
  have hpos : (0 : ℚ) < a / b := by positivity
  obtain ⟨hdown, hup⟩ := binade ha.ne' hb
  have hlog (k : Int) : (a : ℚ) / b < 10 ^ k ↔ Int.log 10 ((a : ℚ) / b) < k := by
    exact_mod_cast Int.lt_zpow_iff_log_lt (b := 10) (by norm_num) hpos
  have hlog' (k : Int) : (10 : ℚ) ^ k ≤ a / b ↔ k ≤ Int.log 10 ((a : ℚ) / b) := by
    exact_mod_cast Int.zpow_le_iff_le_log (b := 10) (by norm_num) hpos
  have hmost : (a.log2 : Int) - b.log2 - 1 < 1024 :=
    (zpow_lt_zpow_iff_right₀ one_lt_two).1 (hdown.trans_lt hhigh)
  have hleast : (-1075 : Int) < (a.log2 : Int) - b.log2 + 1 :=
    (zpow_lt_zpow_iff_right₀ one_lt_two).1 (hlow.trans_lt hup)
  obtain ⟨hbottom, htop⟩ := log_bounds hlow hhigh
  -- the signs of the two logarithms agree but for one
  by_cases hsign : 0 ≤ (a.log2 : Int) - b.log2
  · have hhalf : (2 : ℚ) ^ (-1 : Int) ≤ a / b :=
      le_trans (zpow_le_zpow_right₀ one_le_two (by omega)) hdown
    have : -1 ≤ Int.log 10 ((a : ℚ) / b) := (hlog' (-1)).1 (le_trans (by norm_num) hhalf)
    omega
  · have hdouble : (a : ℚ) / b < 2 ^ (1 : Int) :=
      hup.trans_le (zpow_le_zpow_right₀ one_le_two (by omega))
    have : Int.log 10 ((a : ℚ) / b) < 1 := (hlog 1).1 (hdouble.trans (by norm_num))
    omega

/-! ### Decimals of so many places -/

theorem grid_lt (x : Binary64) (k : Int) (n q : Nat) :
    (n * ((fraction 1 (x.exponent - 2)).2 * (tenths k).1) < q * (fraction 1 (x.exponent - 2)).1 *
      (tenths k).2 ↔
      (n : ℚ) * 10 ^ k < q / 4 * 2 ^ x.exponent) ∧
    (q * (fraction 1 (x.exponent - 2)).1 * (tenths k).2 < n *
      ((fraction 1 (x.exponent - 2)).2 * (tenths k).1) ↔
      (q : ℚ) / 4 * 2 ^ x.exponent < n * 10 ^ k) := by
  obtain ⟨hb, hfraction⟩ := fraction_spec 1 (x.exponent - 2)
  obtain ⟨hc, hd, htenths⟩ := tenths_spec k
  have hbound : ((q * (fraction 1 (x.exponent - 2)).1 : Nat) : ℚ) /
      (fraction 1 (x.exponent - 2)).2 = q / 4 * 2 ^ x.exponent := by
    rw [Nat.cast_mul, mul_div_assoc, hfraction, zpow_sub₀ two_ne_zero]
    norm_num
    ring
  have hgrid : ((n * (tenths k).1 : Nat) : ℚ) / (tenths k).2 = n * 10 ^ k := by
    rw [Nat.cast_mul, mul_div_assoc, htenths]
  constructor
  · rw [← hbound, ← hgrid, ← cross_lt hd hb]
    constructor <;> intro h <;> linarith
  · rw [← hbound, ← hgrid, ← cross_lt hb hd]
    constructor <;> intro h <;> linarith

def foot (x : Binary64) (k : Int) : Nat :=
  4 * x.mantissa * (fraction 1 (x.exponent - 2)).1 * (tenths k).2 /
    ((fraction 1 (x.exponent - 2)).2 * (tenths k).1)

def low (x : Binary64) : Nat :=
  4 * x.mantissa - if x.mantissa = 1 <<< 52 && x.exponent ≠ least then 1 else 2

def inside (x : Binary64) (k : Int) (n : Nat) : Bool :=
  let value := n * ((fraction 1 (x.exponent - 2)).2 * (tenths k).1)
  let low := x.low * (fraction 1 (x.exponent - 2)).1 * (tenths k).2
  let high := (4 * x.mantissa + 2) * (fraction 1 (x.exponent - 2)).1 * (tenths k).2
  (low < value || (x.mantissa % 2 = 0 && low = value)) &&
  (value < high || (x.mantissa % 2 = 0 && value = high))

theorem onGrid?_cases (x : Binary64) (k : Int) :
    (x.onGrid? k = none ∧ x.inside k (x.foot k) = false ∧ x.inside k (x.foot k + 1) = false) ∨
      ∃ n, x.onGrid? k = some n ∧ x.inside k n = true := by
  rw [onGrid?]
  dsimp only
  split
  next hfoot hnext =>
    refine .inr ⟨_, rfl, ?_⟩
    split
    · exact hfoot
    · exact hnext
  next hfoot _ => exact .inr ⟨_, rfl, hfoot⟩
  next _ hnext => exact .inr ⟨_, rfl, hnext⟩
  next hfoot hnext => exact .inl ⟨rfl, hfoot, hnext⟩

theorem quarters_low (hpos : 0 < x.mantissa) : (x.low : ℚ) / 4 = x.mantissa - x.gap := by
  rw [low, gap]
  by_cases hedge : x.mantissa = 2 ^ 52 ∧ x.exponent ≠ least
  · rw [if_pos hedge, if_pos (by simpa [Nat.shiftLeft_eq] using hedge), Nat.cast_sub (by omega)]
    push_cast
    ring
  · rw [if_neg hedge, if_neg (by simpa [Nat.shiftLeft_eq] using hedge), Nat.cast_sub (by omega)]
    push_cast
    ring

theorem quarters_high (x : Binary64) :
    ((4 * x.mantissa + 2 : Nat) : ℚ) / 4 = x.mantissa + 1 / 2 := by
  push_cast
  ring

theorem inside_iff (hpos : 0 < x.mantissa) : x.inside k n ↔ x.Around (n * 10 ^ k) := by
  obtain ⟨hlow, hlow'⟩ := grid_lt x k n x.low
  obtain ⟨hhigh, hhigh'⟩ := grid_lt x k n (4 * x.mantissa + 2)
  rw [quarters_low hpos] at hlow hlow'
  rw [quarters_high] at hhigh hhigh'
  rw [inside]
  simp only [Bool.and_eq_true, Bool.or_eq_true, decide_eq_true_eq]
  constructor
  · rintro ⟨habove, hbelow⟩
    refine ⟨?_, ?_, fun htie => ?_⟩
    · rw [← not_lt, ← hlow]
      omega
    · rw [← not_lt, ← hhigh']
      omega
    · cases htie with
      | inl hdown =>
        have := mt hlow'.1 (by rw [hdown]; exact lt_irrefl _)
        omega
      | inr hup =>
        have := mt hhigh.1 (by rw [hup]; exact lt_irrefl _)
        omega
  · rintro ⟨habove, hbelow, heven⟩
    constructor
    · rw [hlow']
      refine habove.lt_or_eq.imp_right fun htie => ?_
      have := mt hlow.1 (by rw [htie]; exact lt_irrefl _)
      have := mt hlow'.1 (by rw [htie]; exact lt_irrefl _)
      exact ⟨heven (.inl htie.symm), by omega⟩
    · rw [hhigh]
      refine hbelow.lt_or_eq.imp_right fun htie => ?_
      have := mt hhigh.1 (by rw [htie]; exact lt_irrefl _)
      have := mt hhigh'.1 (by rw [htie]; exact lt_irrefl _)
      exact ⟨heven (.inr htie), by omega⟩

theorem foot_bounds (x : Binary64) (k : Int) :
    (x.foot k : ℚ) * 10 ^ k ≤ x.size ∧ x.size < ((x.foot k + 1 : Nat) : ℚ) * 10 ^ k := by
  obtain ⟨hb, -⟩ := fraction_spec 1 (x.exponent - 2)
  obtain ⟨hc, -, -⟩ := tenths_spec k
  have hsize : ((4 * x.mantissa : Nat) : ℚ) / 4 * 2 ^ x.exponent = x.size := by
    rw [size]
    push_cast
    ring
  rw [← hsize, ← not_lt, ← (grid_lt x k _ _).2, ← (grid_lt x k _ _).2]
  exact ⟨(Nat.div_mul_le_self _ _).not_gt,
    by rw [mul_comm (x.foot k + 1)]; exact Nat.lt_mul_div_succ _ (Nat.mul_pos hb hc)⟩

theorem exists_onGrid? (hx : x.WellFormed) (hpos : 0 < x.mantissa)
    (hfine : (10 : ℚ) ^ k * 10 ^ 16 ≤ x.size) :
    ∃ n, x.onGrid? k = some n := by
  refine (x.onGrid?_cases k).symm.elim (fun hsome => hsome.imp fun _ h => h.1) fun hnone =>
    absurd hnone ?_
  rintro ⟨-, hfoot, hnext⟩
  rw [← Bool.not_eq_true, inside_iff hpos] at hfoot hnext
  obtain ⟨hbelow, habove⟩ := x.foot_bounds k
  have hpow : (0 : ℚ) < 2 ^ x.exponent := zpow_pos two_pos _
  have hten : (0 : ℚ) < 10 ^ k := zpow_pos (by norm_num) _
  rw [size] at hfine hbelow habove
  have hstep : ((x.foot k + 1 : Nat) : ℚ) * 10 ^ k = x.foot k * 10 ^ k + 10 ^ k := by
    push_cast
    ring
  rw [hstep] at habove hnext
  -- what is one step of the grid is less than the reals around the number are wide
  have hwide : (10 : ℚ) ^ k < (x.gap + 1 / 2) * 2 ^ x.exponent := by
    refine lt_of_mul_lt_mul_right (hfine.trans_lt ?_) (by positivity : (0 : ℚ) ≤ 10 ^ 16)
    rw [mul_right_comm]
    refine mul_lt_mul_of_pos_right ?_ hpow
    rw [gap]
    split
    next hedge =>
      rw [hedge.1]
      norm_num
    next =>
      have : (x.mantissa : ℚ) < 2 ^ 53 := by exact_mod_cast hx.mantissa_lt
      refine this.trans ?_
      norm_num
  by_cases hlow : (x.mantissa - x.gap) * 2 ^ x.exponent < x.foot k * 10 ^ k
  · exact hfoot (.of_lt hlow (hbelow.trans_lt (mul_lt_mul_of_pos_right (by linarith) hpow)))
  · refine hnext (.of_lt (lt_trans (mul_lt_mul_of_pos_right (by linarith [gap_pos x]) hpow) habove)
      ?_)
    linarith

theorem around_of_onGrid? (hpos : 0 < x.mantissa) (h : x.onGrid? k = some n) :
    x.Around (n * 10 ^ k) := by
  cases x.onGrid?_cases k with
  | inl hnone => simp [hnone.1] at h
  | inr hsome =>
    obtain ⟨m, hm, hinside⟩ := hsome
    obtain rfl := Option.some.inj (hm.symm.trans h)
    exact (inside_iff hpos).1 hinside

theorem strip_spec (f : Nat) (k : Int) (fuel : Nat) :
    ((shortest.strip f k fuel).1 : ℚ) * 10 ^ (shortest.strip f k fuel).2 = f * 10 ^ k := by
  induction fuel generalizing f k with
  | zero => rfl
  | succ fuel ih =>
    rw [shortest.strip]
    split
    next hzero =>
      rw [Bool.and_eq_true, decide_eq_true_iff] at hzero
      have hdigits : (f : ℚ) = (f / 10 : Nat) * 10 := by
        exact_mod_cast (Nat.div_mul_cancel (Nat.dvd_of_mod_eq_zero hzero.1)).symm
      rw [ih, zpow_add_one₀ (by norm_num), hdigits]
      ring
    next => rfl

theorem shortest_around (hx : x.WellFormed) (hpos : 0 < x.mantissa) :
    x.Around (x.shortest.1 * 10 ^ x.shortest.2) := by
  obtain ⟨hb, hfraction⟩ := fraction_spec x.mantissa x.exponent
  have hsize : x.size = (fraction x.mantissa x.exponent).1 /
      (fraction x.mantissa x.exponent).2 := by rw [hfraction, size]
  obtain ⟨hlow, hhigh⟩ := (around_size x).bounds hx hpos
  have hsizePos : 0 < x.size := (zpow_pos two_pos _).trans_le hlow
  have ha : 0 < (fraction x.mantissa x.exponent).1 := by
    rw [Nat.pos_iff_ne_zero]
    intro hzero
    rw [hsize, hzero, Nat.cast_zero, zero_div] at hsizePos
    exact lt_irrefl _ hsizePos
  rw [hsize] at hlow hhigh
  have htop := magnitude_eq ha hb (guess_near ha hb hlow hhigh)
  rw [shortest, if_neg hpos.ne']
  dsimp only
  rw [htop, ← hsize]
  split
  next f k hfound =>
    obtain ⟨i, -, hi⟩ := List.exists_of_findSome?_eq_some hfound
    obtain ⟨m, hm, heq⟩ := Option.map_eq_some_iff.1 hi
    obtain ⟨rfl, rfl⟩ := Prod.mk.inj heq
    rw [strip_spec]
    exact around_of_onGrid? hpos hm
  next hnone =>
    obtain ⟨m, hm⟩ : ∃ m, x.onGrid? (Int.log 10 x.size - (16 : Nat)) = some m := by
      refine exists_onGrid? hx hpos ?_
      rw [zpow_sub₀ (by norm_num), zpow_natCast, div_mul_cancel₀ _ (by norm_num)]
      exact_mod_cast Int.zpow_log_le_self (b := 10) (by norm_num) hsizePos
    rw [List.findSome?_eq_none_iff] at hnone
    have := hnone 16 (by simp)
    rw [hm] at this
    cases this

end StaticSite.Binary64
