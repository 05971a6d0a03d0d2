import StaticSite.Proofs.ShortestDecimals

/-! Binary numbers as texts. What is written for a number is read as the number again, in whichever
of its forms it is written; so different numbers have different texts. -/
namespace StaticSite.Binary64

variable {x : Binary64} {digits n : Nat} {e : Int} {negative : Bool} {whole part t : Text}
  {c : Char}

/-! ### Decimals -/

theorem log_digits (hdigits : digits ≠ 0) (e : Int) :
    ((Nat.toDigits 10 digits).length : Int) + e = Int.log 10 ((digits : ℚ) * 10 ^ e) + 1 := by
  have hten : (0 : ℚ) < 10 ^ e := zpow_pos (by norm_num) _
  have hpos : (0 : ℚ) < digits * 10 ^ e :=
    mul_pos (by exact_mod_cast Nat.pos_of_ne_zero hdigits) hten
  have hlength : 0 < (Nat.toDigits 10 digits).length := Nat.length_toDigits_pos
  have hhigh : (digits : ℚ) < 10 ^ (Nat.toDigits 10 digits).length := by
    exact_mod_cast (Nat.length_toDigits_le_iff (by norm_num) hlength).1 le_rfl
  have hlow : (10 : ℚ) ^ ((Nat.toDigits 10 digits).length - 1) ≤ digits := by
    by_cases hone : (Nat.toDigits 10 digits).length = 1
    · rw [hone]
      exact_mod_cast Nat.pos_of_ne_zero hdigits
    · have := (Nat.length_toDigits_le_iff (b := 10) (n := digits)
        (k := (Nat.toDigits 10 digits).length - 1) (by norm_num)
        (by omega)).not.1 (by omega)
      exact_mod_cast not_lt.1 this
  have habove := (Int.lt_zpow_iff_log_lt (b := 10) (x := (Nat.toDigits 10 digits).length + e)
    (by norm_num) hpos).1 (by
    rw [Nat.cast_ofNat, zpow_add₀ (by norm_num), zpow_natCast]
    exact mul_lt_mul_of_pos_right hhigh hten)
  have hbelow := (Int.zpow_le_iff_le_log (b := 10)
    (x := ((Nat.toDigits 10 digits).length - 1 : Nat) + e) (by norm_num) hpos).1 (by
    rw [Nat.cast_ofNat, zpow_add₀ (by norm_num), zpow_natCast]
    exact mul_le_mul_of_nonneg_right hlow hten.le)
  omega

theorem ofDecimal?_of_around (negative : Bool) (hx : x.WellFormed) (hpos : 0 < x.mantissa)
    (hr : x.Around (digits * 10 ^ e)) :
    ofDecimal? negative digits e = some ⟨negative, x.mantissa, x.exponent⟩ := by
  obtain ⟨hlow, hhigh⟩ := hr.bounds hx hpos
  have hdigits : digits ≠ 0 := by
    rintro rfl
    rw [Nat.cast_zero, zero_mul] at hlow
    exact absurd hlow (zpow_pos two_pos _).not_ge
  have hsize := log_digits hdigits e
  obtain ⟨hleast, hmost⟩ := log_bounds hlow hhigh
  unfold ofDecimal?
  rw [if_neg hdigits]
  rw [if_neg (by omega), if_neg (by omega)]
  cases e with
  | ofNat n =>
    refine nearest?_of_around negative hx (Nat.mul_ne_zero hdigits (Nat.pow_pos (by norm_num)).ne')
      one_pos ?_
    rw [Nat.cast_one, div_one, Nat.cast_mul, powerOfTen_eq, Nat.cast_pow]
    simpa using hr
  | negSucc n =>
    refine nearest?_of_around negative hx hdigits (Nat.pow_pos (by norm_num)) ?_
    rw [powerOfTen_eq, Nat.cast_pow]
    rw [zpow_negSucc, ← div_eq_mul_inv] at hr
    exact_mod_cast hr

theorem wellFormed_zero (negative : Bool) : WellFormed ⟨negative, 0, least⟩ :=
  ⟨Nat.two_pow_pos 53, .inr rfl, le_rfl, (by decide : least ≤ greatest)⟩

theorem wellFormed_of_ofDecimal? (h : ofDecimal? negative digits e = some x) : x.WellFormed := by
  unfold ofDecimal? at h
  split at h
  · obtain rfl := Option.some.inj h
    exact wellFormed_zero negative
  · dsimp only at h
    split at h
    · cases h
    · split at h
      · obtain rfl := Option.some.inj h
        exact wellFormed_zero negative
      · split at h
        · exact wellFormed_of_nearest? one_pos h
        · exact wellFormed_of_nearest? (Nat.pow_pos (by norm_num)) h

/-! ### Texts -/

def signOff : Text → Bool × Text
  | '-' :: t => (true, t)
  | '+' :: t => (false, t)
  | t => (false, t)

def partOff : Text → Text × Text
  | '.' :: t => (t.takeWhile Char.isDigit, t.dropWhile Char.isDigit)
  | t => ([], t)

def power? : Text → Option Int
  | [] => some 0
  | c :: t =>
    if c == 'e' || c == 'E' then
      if (signOff t).2 = [] || !(signOff t).2.all Char.isDigit then none
      else
        let n : Int := Nat.ofDigitChars 10 (signOff t).2 0
        some (if (signOff t).1 then -n else n)
    else none

theorem parse?_eq (t : Text) :
    parse? t =
      let whole := (signOff t).2.takeWhile Char.isDigit
      let rest := partOff ((signOff t).2.dropWhile Char.isDigit)
      if whole = [] && rest.1 = [] then none
      else (power? rest.2).bind fun n =>
        ofDecimal? (signOff t).1 (Nat.ofDigitChars 10 (whole ++ rest.1) 0)
          (-(rest.1.length : Int) + n) := by
  have hparse : parse? t =
      let whole := (signOff t).2.takeWhile Char.isDigit
      let rest := partOff ((signOff t).2.dropWhile Char.isDigit)
      if whole = [] && rest.1 = [] then none
      else match rest.2 with
        | [] =>
          ofDecimal? (signOff t).1 (Nat.ofDigitChars 10 (whole ++ rest.1) 0)
            (-(rest.1.length : Int))
        | c :: r =>
          if c == 'e' || c == 'E' then
            if (signOff r).2 = [] || !(signOff r).2.all Char.isDigit then none
            else
              let n : Int := Nat.ofDigitChars 10 (signOff r).2 0
              ofDecimal? (signOff t).1 (Nat.ofDigitChars 10 (whole ++ rest.1) 0)
                (-(rest.1.length : Int) + if (signOff r).1 then -n else n)
          else none := rfl
  rw [hparse]
  dsimp only
  split
  · rfl
  · cases (partOff ((signOff t).2.dropWhile Char.isDigit)).2 with
    | nil => simp [power?]
    | cons c r =>
      rw [power?]
      dsimp only
      split
      · split
        · rfl
        · rfl
      · rfl

theorem wellFormed_of_parse? (h : parse? t = some x) : x.WellFormed := by
  rw [parse?_eq] at h
  dsimp only at h
  split at h
  · cases h
  · obtain ⟨n, -, h⟩ := Option.bind_eq_some_iff.1 h
    exact wellFormed_of_ofDecimal? h

def Digits (t : Text) : Prop := ∀ c ∈ t, c.isDigit = true

theorem ofNat_ne_nil (n : Nat) : Text.ofNat n ≠ [] := Nat.toDigits_ne_nil

theorem ofDigitChars_ofNat (n : Nat) : Nat.ofDigitChars 10 (Text.ofNat n) 0 = n :=
  Nat.ofDigitChars_ten_toDigits

theorem digits_ofNat (n : Nat) :
    Digits (Text.ofNat n) := fun _ hc => Nat.isDigit_of_mem_toDigits (by norm_num) (by norm_num) hc

theorem Digits.append {s : Text} (hs : Digits s) (ht : Digits t) : Digits (s ++ t) :=
  fun c hc => (List.mem_append.1 hc).elim (hs c) (ht c)

theorem digits_zeros (n : Nat) : Digits (List.replicate n '0') := by
  intro c hc
  rw [List.eq_of_mem_replicate hc]
  rfl

theorem signOff_of_digit {rest : Text} (hc : c.isDigit) :
    signOff (c :: rest) = (false, c :: rest) := by
  rw [signOff]
  · rintro r h
    obtain ⟨rfl, -⟩ := List.cons.inj h
    exact absurd hc (by decide)
  · rintro r h
    obtain ⟨rfl, -⟩ := List.cons.inj h
    exact absurd hc (by decide)

theorem signOff_written (negative : Bool) (hne : whole ≠ []) (hwhole : Digits whole) (rest : Text) :
    signOff ((if negative then ['-'] else []) ++ (whole ++ rest)) = (negative, whole ++ rest) := by
  cases negative with
  | true => rfl
  | false =>
    obtain ⟨c, more, rfl⟩ := List.exists_cons_of_ne_nil hne
    exact signOff_of_digit (hwhole c List.mem_cons_self)

theorem power?_written (n : Int) : power? ('e' :: Text.ofInt n) = some n := by
  have hread (m : Nat) : (decide (Text.ofNat m = []) || !(Text.ofNat m).all Char.isDigit) =
      false := by
    rw [List.all_eq_true.2 (digits_ofNat m), decide_eq_false (ofNat_ne_nil m)]
    rfl
  rw [power?, if_pos (by rfl)]
  cases n with
  | ofNat m =>
    have hsign : signOff (Text.ofInt (.ofNat m)) = (false, Text.ofNat m) := by
      have h := signOff_written false (ofNat_ne_nil m) (digits_ofNat m) []
      rwa [List.append_nil] at h
    rw [hsign]
    dsimp only
    rw [hread, ofDigitChars_ofNat]
    rfl
  | negSucc m =>
    have hsign : signOff (Text.ofInt (.negSucc m)) = (true, Text.ofNat (m + 1)) := rfl
    rw [hsign]
    dsimp only
    rw [hread, ofDigitChars_ofNat]
    rfl

theorem dropWhile_of_takeWhile {tail : Text} (h : tail.takeWhile Char.isDigit = []) :
    tail.dropWhile Char.isDigit = tail := by
  have := List.takeWhile_append_dropWhile (p := Char.isDigit) (l := tail)
  rwa [h, List.nil_append] at this

/-- That a text is read as a decimal, and with a sign before it as the opposite. -/
def Reads (t : Text) (digits : Nat) (e : Int) : Prop :=
  ∀ negative : Bool, parse? ((if negative then ['-'] else []) ++ t) = ofDecimal? negative digits e

theorem reads_parts (hne : whole ≠ []) (hwhole : Digits whole) {tail last : Text}
    (htail : tail.takeWhile Char.isDigit = []) (hpart : partOff tail = (part, last)) {n : Int}
    (hlast : power? last = some n) :
    Reads (whole ++ tail) (Nat.ofDigitChars 10 (whole ++ part) 0) (-(part.length : Int) + n) := by
  intro negative
  rw [parse?_eq, signOff_written negative hne hwhole]
  dsimp only
  rw [List.takeWhile_append_of_pos hwhole, List.dropWhile_append_of_pos hwhole, htail,
    dropWhile_of_takeWhile htail, hpart, List.append_nil]
  dsimp only
  rw [hlast, if_neg (by simp [hne])]
  rfl

theorem partOff_point (hpart : Digits part) {last : Text}
    (hlast : last.takeWhile Char.isDigit = []) :
    partOff ('.' :: (part ++ last)) = (part, last) := by
  rw [partOff, List.takeWhile_append_of_pos hpart, List.dropWhile_append_of_pos hpart, hlast,
    dropWhile_of_takeWhile hlast, List.append_nil]

theorem reads_point (hne : whole ≠ []) (hwhole : Digits whole) (hpart : Digits part) :
    Reads (whole ++ '.' :: part) (Nat.ofDigitChars 10 (whole ++ part) 0)
    (-(part.length : Int)) := by
  have hoff := partOff_point hpart (rfl : List.takeWhile Char.isDigit [] = [])
  rw [List.append_nil] at hoff
  simpa using reads_parts hne hwhole rfl hoff rfl

theorem reads_power (hne : whole ≠ []) (hwhole : Digits whole) (n : Int) :
    Reads (whole ++ 'e' :: Text.ofInt n) (Nat.ofDigitChars 10 whole 0) n := by
  have hoff : partOff ('e' :: Text.ofInt n) = ([], 'e' :: Text.ofInt n) := rfl
  simpa using reads_parts hne hwhole rfl hoff (power?_written n)

theorem reads_point_power (hne : whole ≠ []) (hwhole : Digits whole) (hpart : Digits part)
    (n : Int) :
    Reads (whole ++ '.' :: (part ++ 'e' :: Text.ofInt n)) (Nat.ofDigitChars 10 (whole ++ part) 0)
    (-(part.length : Int) + n) :=
  reads_parts hne hwhole rfl (partOff_point hpart rfl) (power?_written n)

/-! ### Numbers as they are written -/

def written (f : Nat) (k : Int) : Text :=
  let digits := Text.ofNat f
  let point : Int := digits.length + k
  let zeros := fun (n : Int) => List.replicate n.toNat '0'
  if 0 ≤ k && point ≤ 16 then digits ++ zeros k ++ ['.', '0']
  else if 0 < point && point ≤ 16 then digits.take point.toNat ++ '.' :: digits.drop point.toNat
  else if -5 < point && point ≤ 0 then '0' :: '.' :: zeros (-point) ++ digits
  else
    let exponent := 'e' :: Text.ofInt (point - 1)
    match digits with
    | [d] => d :: exponent
    | d :: ds => d :: '.' :: ds ++ exponent
    | [] => exponent

theorem toText_eq (x : Binary64) :
    x.toText = (if x.negative then ['-'] else []) ++
      if x.shortest.1 = 0 then ['0', '.', '0'] else written x.shortest.1 x.shortest.2 := by
  rw [toText]
  dsimp only
  split <;> rfl

theorem ofDigitChars_zeros (n : Nat) (t : Text) :
    Nat.ofDigitChars 10 (List.replicate n '0' ++ t) 0 = Nat.ofDigitChars 10 t 0 := by
  rw [Nat.ofDigitChars_append, Nat.ofDigitChars_replicate_zero, Nat.mul_zero]

theorem reads_written (f : Nat) (k : Int) :
    ∃ (digits : Nat) (e : Int), (digits : ℚ) * 10 ^ e = f * 10 ^ k ∧ Reads (written f k) digits e ∧
      ('.' ∈ written f k ∨ 'e' ∈ written f k) := by
  have hvalue := ofDigitChars_ofNat f
  have hdigits := digits_ofNat f
  have hne := ofNat_ne_nil f
  have hlength := List.length_pos_iff.2 hne
  unfold written
  dsimp only
  generalize Text.ofNat f = digits at *
  split
  -- a whole number: zeros stand behind the digits
  next hwhole =>
    simp only [Bool.and_eq_true, decide_eq_true_eq] at hwhole
    obtain ⟨n, rfl⟩ := Int.eq_ofNat_of_zero_le hwhole.1
    rw [Int.toNat_natCast]
    refine ⟨_, _, ?_, reads_point (by simp [hne]) (hdigits.append (digits_zeros n))
      (digits_zeros 1), .inl (by simp)⟩
    rw [Nat.ofDigitChars_append, Nat.ofDigitChars_append, hvalue, Nat.ofDigitChars_replicate_zero,
      zpow_natCast]
    norm_num [Nat.ofDigitChars_cons]
    ring
  next hwhole =>
    split
    -- the point is among the digits
    next hpoint =>
      simp only [Bool.and_eq_true, decide_eq_true_eq] at hwhole hpoint
      have htake : digits.take (digits.length + k).toNat ≠ [] := by
        rw [Ne, List.take_eq_nil_iff, not_or]
        exact ⟨by omega, hne⟩
      have hdrop : Digits (digits.drop (digits.length + k).toNat) :=
        fun c hc => hdigits c (List.mem_of_mem_drop hc)
      refine ⟨_, _, ?_, reads_point htake (fun c hc => hdigits c (List.mem_of_mem_take hc)) hdrop,
        .inl (by simp)⟩
      rw [List.take_append_drop, hvalue, List.length_drop]
      congr 2
      omega
    next =>
      split
      -- the point is before the digits
      next hsmall =>
        simp only [Bool.and_eq_true, decide_eq_true_eq] at hsmall
        have hreads := reads_point (by simp) (digits_zeros 1)
          ((digits_zeros (-(digits.length + k)).toNat).append hdigits)
        refine ⟨_, _, ?_, hreads, .inl (by simp)⟩
        rw [ofDigitChars_zeros, ofDigitChars_zeros, hvalue, List.length_append,
          List.length_replicate]
        congr 2
        push_cast
        omega
      next =>
        -- one digit before the point, and a power of ten
        match digits, hne, hdigits, hvalue with
        | [d], hne, hdigits, hvalue =>
          refine ⟨_, _, ?_, reads_power hne hdigits _, .inr (by simp)⟩
          rw [hvalue]
          norm_num
        | d :: d' :: ds, hne, hdigits, hvalue =>
          have hone : Digits [d] := fun c hc =>
            hdigits c (List.mem_cons.2 (.inl (List.mem_singleton.1 hc)))
          have hrest : Digits (d' :: ds) := fun c hc => hdigits c (List.mem_cons_of_mem _ hc)
          refine ⟨_, _, ?_, reads_point_power (by simp) hone hrest _, .inl (by simp)⟩
          rw [List.singleton_append, hvalue]
          congr 2
          simp only [List.length_cons]
          omega

theorem parse?_toText (hx : x.WellFormed) : parse? x.toText = some x := by
  rw [toText_eq]
  cases Nat.eq_zero_or_pos x.mantissa with
  | inl hzero =>
    have hexponent := hx.normal.resolve_left
      (by rw [hzero]; exact Nat.not_le.2 (Nat.two_pow_pos 52))
    have hshortest : x.shortest = (0, 0) := by rw [shortest, if_pos hzero]
    have hreads := reads_point (by simp) (digits_zeros 1) (digits_zeros 1) x.negative
    rw [hshortest, if_pos rfl]
    refine hreads.trans ?_
    rw [← List.replicate_add, Nat.ofDigitChars_replicate_zero, Nat.mul_zero]
    unfold ofDecimal?
    rw [if_pos rfl, ← hzero, ← hexponent]
  | inr hpos =>
    have haround := shortest_around hx hpos
    have hne : x.shortest.1 ≠ 0 := by
      intro hzero
      rw [hzero, Nat.cast_zero, zero_mul] at haround
      exact absurd (haround.bounds hx hpos).1 (zpow_pos two_pos _).not_ge
    obtain ⟨digits, e, hvalue, hreads, -⟩ := reads_written x.shortest.1 x.shortest.2
    rw [← hvalue] at haround
    rw [if_neg hne, hreads, ofDecimal?_of_around x.negative hx hpos haround]

theorem toText_inj {y : Binary64} (hx : x.WellFormed) (hy : y.WellFormed)
    (h : x.toText = y.toText) : x = y := by
  have hread := parse?_toText hx
  rw [h, parse?_toText hy] at hread
  exact (Option.some.inj hread).symm

theorem point_mem_toText (x : Binary64) : '.' ∈ x.toText ∨ 'e' ∈ x.toText := by
  rw [toText_eq]
  by_cases hzero : x.shortest.1 = 0
  · rw [if_pos hzero]
    exact .inl (List.mem_append_right _ (by decide))
  · rw [if_neg hzero]
    obtain ⟨-, -, -, -, hmem⟩ := reads_written x.shortest.1 x.shortest.2
    exact hmem.imp (List.mem_append_right _) (List.mem_append_right _)

end StaticSite.Binary64
