import StaticSite.Text.Utf8

/-! Decoding gives back every text that was encoded, and takes nothing but the code of a text. -/
namespace StaticSite.Text.Utf8

variable {lead b : UInt8}

theorem toNat_tailByte (n : Nat) : (tailByte n).toNat = 0x80 + n % 64 :=
  UInt8.toNat_ofNat_of_lt' (show _ < 256 by omega)

theorem isTail_iff : isTail b = true ↔ 0x80 ≤ b.toNat ∧ b.toNat ≤ 0xBF := by
  simp [isTail, UInt8.le_iff_toNat_le]

@[simp] theorem isTail_tailByte (n : Nat) : isTail (tailByte n) = true := by
  rw [isTail_iff, toNat_tailByte]
  omega

@[simp] theorem bits_tailByte (n : Nat) : bits (tailByte n) 64 = n % 64 := by
  rw [bits, toNat_tailByte]
  omega

theorem admits3_of_toNat (hb : isTail b = true) (hlong : lead.toNat = 0xE0 → 0xA0 ≤ b.toNat)
    (hsurrogate : lead.toNat = 0xED → b.toNat ≤ 0x9F) : admits3 lead b = true := by
  have htail := isTail_iff.1 hb
  by_cases he0 : lead = 0xE0
  · simp_all [admits3, UInt8.le_iff_toNat_le]
  · by_cases hed : lead = 0xED
    · simp_all [admits3, UInt8.le_iff_toNat_le]
    · simp [admits3, he0, hed, hb]

theorem admits4_of_toNat (hb : isTail b = true) (hlong : lead.toNat = 0xF0 → 0x90 ≤ b.toNat)
    (hlast : lead.toNat = 0xF4 → b.toNat ≤ 0x8F) : admits4 lead b = true := by
  have htail := isTail_iff.1 hb
  by_cases hf0 : lead = 0xF0
  · simp_all [admits4, UInt8.le_iff_toNat_le]
  · by_cases hf4 : lead = 0xF4
    · simp_all [admits4, UInt8.le_iff_toNat_le]
    · simp [admits4, hf0, hf4, hb]

variable {c d : UInt8} {i : Nat} {rest : Bytes}

theorem between_iff {low high : UInt8} :
    (low ≤ lead && lead ≤ high) = true ↔ low.toNat ≤ lead.toNat ∧ lead.toNat ≤ high.toNat := by
  simp [UInt8.le_iff_toNat_le]

theorem not_between (high : UInt8) {low : UInt8} (h : high.toNat < lead.toNat) :
    ¬(low ≤ lead && lead ≤ high) = true := by
  rw [between_iff]
  omega

theorem not_ascii (h : 0x80 ≤ lead.toNat) : ¬lead < 0x80 := by
  simp only [UInt8.lt_iff_toNat_lt, UInt8.reduceToNat]
  omega

theorem decodeFrom_one (h : lead.toNat < 0x80) :
    decodeFrom i (lead :: rest) = (Char.ofNat lead.toNat :: ·) <$> decodeFrom (i + 1) rest := by
  have hlt : lead < 0x80 := UInt8.lt_iff_toNat_lt.2 h
  rw [decodeFrom.eq_def]
  simp only [if_pos hlt]

theorem decodeFrom_two (hlow : 0xC2 ≤ lead.toNat) (hhigh : lead.toNat ≤ 0xDF)
    (hb : isTail b = true) :
    decodeFrom i (lead :: b :: rest) =
      (Char.ofNat (bits lead 32 * 64 + bits b 64) :: ·) <$> decodeFrom (i + 2) rest := by
  have hone : ¬lead < 0x80 := not_ascii (by omega)
  have htwo : (0xC2 ≤ lead && lead ≤ 0xDF) = true := between_iff.2 ⟨hlow, hhigh⟩
  rw [decodeFrom.eq_def]
  simp only [if_neg hone, if_pos htwo, if_pos hb]

theorem decodeFrom_three (hlow : 0xE0 ≤ lead.toNat) (hhigh : lead.toNat ≤ 0xEF)
    (hb : admits3 lead b = true) (hc : isTail c = true) :
    decodeFrom i (lead :: b :: c :: rest) =
      (Char.ofNat (bits lead 16 * 4096 + bits b 64 * 64 + bits c 64) :: ·) <$> decodeFrom (i + 3)
      rest := by
  have hone : ¬lead < 0x80 := not_ascii (by omega)
  have htwo : ¬(0xC2 ≤ lead && lead ≤ 0xDF) = true := not_between 0xDF hlow
  have hthree : (0xE0 ≤ lead && lead ≤ 0xEF) = true := between_iff.2 ⟨hlow, hhigh⟩
  rw [decodeFrom.eq_def]
  simp only [if_neg hone, if_neg htwo, if_pos hthree, if_pos hb, if_pos hc]

theorem decodeFrom_four (hlow : 0xF0 ≤ lead.toNat) (hhigh : lead.toNat ≤ 0xF4)
    (hb : admits4 lead b = true) (hc : isTail c = true) (hd : isTail d = true) :
    decodeFrom i (lead :: b :: c :: d :: rest) =
      (Char.ofNat (bits lead 8 * 262144 + bits b 64 * 4096 + bits c 64 * 64 + bits d 64) :: ·) <$>
        decodeFrom (i + 4) rest := by
  have hone : ¬lead < 0x80 := not_ascii (by omega)
  have htwo : ¬(0xC2 ≤ lead && lead ≤ 0xDF) = true :=
    not_between 0xDF (Nat.lt_of_lt_of_le (by decide) hlow)
  have hthree : ¬(0xE0 ≤ lead && lead ≤ 0xEF) = true := not_between 0xEF hlow
  have hfour : (0xF0 ≤ lead && lead ≤ 0xF4) = true := between_iff.2 ⟨hlow, hhigh⟩
  rw [decodeFrom.eq_def]
  simp only [if_neg hone, if_neg htwo, if_neg hthree, if_pos hfour, if_pos hb, if_pos hc, if_pos hd]

theorem decodeFrom_encodeChar (i : Nat) (c : Char) (rest : Bytes) :
    decodeFrom i (encodeChar c ++ rest) = (c :: ·) <$> decodeFrom (i + (encodeChar c).length)
    rest := by
  have hvalid : c.toNat < 0xD800 ∨ 0xDFFF < c.toNat ∧ c.toNat < 0x110000 := c.valid
  have hback {m : Nat} (h : m = c.toNat) : Char.ofNat m = c := by rw [h, Char.ofNat_toNat]
  rw [encodeChar]
  by_cases h1 : c.toNat < 0x80
  · have hlead : (UInt8.ofNat c.toNat).toNat = c.toNat :=
      UInt8.toNat_ofNat_of_lt' (show _ < 256 by omega)
    simp only [if_pos h1, List.cons_append, List.nil_append, List.length_singleton]
    rw [decodeFrom_one (by omega), hback hlead]
  by_cases h2 : c.toNat < 0x800
  · have hlead : (UInt8.ofNat (0xC0 + c.toNat / 64)).toNat = 0xC0 + c.toNat / 64 :=
      UInt8.toNat_ofNat_of_lt' (show _ < 256 by omega)
    simp only [if_neg h1, if_pos h2, List.cons_append, List.nil_append, List.length_cons,
      List.length_nil]
    rw [decodeFrom_two (by omega) (by omega) (isTail_tailByte _), bits_tailByte, bits, hlead,
      hback (by omega)]
  by_cases h3 : c.toNat < 0x10000
  · have hlead : (UInt8.ofNat (0xE0 + c.toNat / 4096)).toNat = 0xE0 + c.toNat / 4096 :=
      UInt8.toNat_ofNat_of_lt' (show _ < 256 by omega)
    have hsecond := toNat_tailByte (c.toNat / 64)
    have hadmits : admits3 (UInt8.ofNat (0xE0 + c.toNat / 4096)) (tailByte (c.toNat / 64)) = true :=
      admits3_of_toNat (isTail_tailByte _) (by omega) (by omega)
    simp only [if_neg h1, if_neg h2, if_pos h3, List.cons_append, List.nil_append, List.length_cons,
      List.length_nil]
    rw [decodeFrom_three (by omega) (by omega) hadmits (isTail_tailByte _), bits_tailByte,
      bits_tailByte, bits, hlead, hback (by omega)]
  · have hlead : (UInt8.ofNat (0xF0 + c.toNat / 262144)).toNat = 0xF0 + c.toNat / 262144 :=
      UInt8.toNat_ofNat_of_lt' (show _ < 256 by omega)
    have hsecond := toNat_tailByte (c.toNat / 4096)
    have hadmits : admits4 (UInt8.ofNat (0xF0 + c.toNat / 262144)) (tailByte (c.toNat / 4096)) =
        true :=
      admits4_of_toNat (isTail_tailByte _) (by omega) (by omega)
    simp only [if_neg h1, if_neg h2, if_neg h3, List.cons_append, List.nil_append, List.length_cons,
      List.length_nil]
    rw [decodeFrom_four (by omega) (by omega) hadmits (isTail_tailByte _) (isTail_tailByte _),
      bits_tailByte, bits_tailByte, bits_tailByte, bits, hlead, hback (by omega)]

theorem encode_append (s t : Text) : encode (s ++ t) = encode s ++ encode t := List.flatMap_append

theorem encode_cons (c : Char) (t : Text) : encode (c :: t) = encodeChar c ++ encode t :=
  List.flatMap_cons

theorem decodeFrom_encode_append (i : Nat) (t : Text) (rest : Bytes) :
    decodeFrom i (encode t ++ rest) = (t ++ ·) <$> decodeFrom (i + (encode t).length) rest := by
  induction t generalizing i with
  | nil =>
    simp only [encode, List.flatMap_nil, List.nil_append, List.length_nil, Nat.add_zero]
    cases decodeFrom i rest <;> rfl
  | cons c t ih =>
    rw [encode_cons, List.append_assoc, decodeFrom_encodeChar, ih, List.length_append,
      Nat.add_assoc]
    cases decodeFrom (i + ((encodeChar c).length + (encode t).length)) rest <;> rfl

theorem decode_encode (t : Text) : decode (encode t) = .ok t := by
  have h := decodeFrom_encode_append 0 t []
  rw [List.append_nil] at h
  rw [decode, h, decodeFrom]
  exact congrArg Except.ok (List.append_nil t)

/-! ### What is decoded is the code of its text -/

theorem toNat_ofNat {n : Nat} (h : n < 0xD800 ∨ 0xDFFF < n ∧ n < 0x110000) :
    (Char.ofNat n).toNat = n := by
  rw [Char.ofNat, dif_pos h]
  rfl

theorem eq_lead {n : Nat} (h : n = lead.toNat) : UInt8.ofNat n = lead := by
  rw [h, UInt8.ofNat_toNat]

theorem eq_tailByte {n : Nat} (hb : isTail b = true) (h : n % 64 = bits b 64) : tailByte n = b := by
  have hrange := isTail_iff.1 hb
  apply UInt8.toNat_inj.1
  rw [toNat_tailByte, h, bits]
  omega

theorem bits_lt (b : UInt8) : bits b 64 < 64 := Nat.mod_lt _ (by omega)

theorem encodeChar_one (h : lead.toNat < 0x80) : encodeChar (Char.ofNat lead.toNat) = [lead] := by
  rw [encodeChar, toNat_ofNat (.inl (by omega)), if_pos h, eq_lead rfl]

theorem encodeChar_two (hlow : 0xC2 ≤ lead.toNat) (hhigh : lead.toNat ≤ 0xDF)
    (hb : isTail b = true) :
    encodeChar (Char.ofNat (bits lead 32 * 64 + bits b 64)) = [lead, b] := by
  have hlead : bits lead 32 = lead.toNat - 0xC0 := by
    rw [bits]
    omega
  have hsix := bits_lt b
  have hfirst : UInt8.ofNat (0xC0 + (bits lead 32 * 64 + bits b 64) / 64) = lead :=
    eq_lead (by omega)
  rw [encodeChar, toNat_ofNat (.inl (by omega)), if_neg (by omega), if_pos (by omega), hfirst,
    eq_tailByte hb (by omega)]

theorem of_admits3 (h : admits3 lead b = true) :
    isTail b = true ∧ (lead.toNat = 0xE0 → 0xA0 ≤ b.toNat) ∧
    (lead.toNat = 0xED → b.toNat ≤ 0x9F) := by
  simp only [admits3, isTail_iff, Bool.or_eq_true, Bool.and_eq_true, beq_iff_eq, bne_iff_ne,
    decide_eq_true_eq, UInt8.le_iff_toNat_le, ne_eq, ← UInt8.toNat_inj, UInt8.reduceToNat] at h ⊢
  omega

theorem of_admits4 (h : admits4 lead b = true) :
    isTail b = true ∧ (lead.toNat = 0xF0 → 0x90 ≤ b.toNat) ∧
    (lead.toNat = 0xF4 → b.toNat ≤ 0x8F) := by
  simp only [admits4, isTail_iff, Bool.or_eq_true, Bool.and_eq_true, beq_iff_eq, bne_iff_ne,
    decide_eq_true_eq, UInt8.le_iff_toNat_le, ne_eq, ← UInt8.toNat_inj, UInt8.reduceToNat] at h ⊢
  omega

theorem encodeChar_three (hlow : 0xE0 ≤ lead.toNat) (hhigh : lead.toNat ≤ 0xEF)
    (hb : admits3 lead b = true) (hc : isTail c = true) :
    encodeChar (Char.ofNat (bits lead 16 * 4096 + bits b 64 * 64 + bits c 64)) = [lead, b, c] := by
  obtain ⟨htail, hlong, hsurrogate⟩ := of_admits3 hb
  have hrange := isTail_iff.1 htail
  have hlead : bits lead 16 = lead.toNat - 0xE0 := by
    rw [bits]
    omega
  have hsecond : bits b 64 = b.toNat - 0x80 := by
    rw [bits]
    omega
  have hsix := bits_lt c
  have hfirst : UInt8.ofNat (0xE0 + (bits lead 16 * 4096 + bits b 64 * 64 + bits c 64) / 4096) =
      lead := eq_lead (by omega)
  have hmiddle : (bits lead 16 * 4096 + bits b 64 * 64 + bits c 64) / 64 % 64 = bits b 64 := by
    omega
  have hlast : (bits lead 16 * 4096 + bits b 64 * 64 + bits c 64) % 64 = bits c 64 := by omega
  rw [encodeChar, toNat_ofNat (by omega), if_neg (by omega), if_neg (by omega), if_pos (by omega),
    hfirst, eq_tailByte htail hmiddle, eq_tailByte hc hlast]

theorem encodeChar_four (hlow : 0xF0 ≤ lead.toNat) (hhigh : lead.toNat ≤ 0xF4)
    (hb : admits4 lead b = true) (hc : isTail c = true) (hd : isTail d = true) :
    encodeChar (Char.ofNat (bits lead 8 * 262144 + bits b 64 * 4096 + bits c 64 * 64 + bits d 64)) =
      [lead, b, c, d] := by
  obtain ⟨htail, hlong, hbound⟩ := of_admits4 hb
  have hrange := isTail_iff.1 htail
  have hlead : bits lead 8 = lead.toNat - 0xF0 := by
    rw [bits]
    omega
  have hsecond : bits b 64 = b.toNat - 0x80 := by
    rw [bits]
    omega
  have hthird := bits_lt c
  have hfourth := bits_lt d
  have hfirst :
      UInt8.ofNat (0xF0 + (bits lead 8 * 262144 + bits b 64 * 4096 + bits c 64 * 64 + bits d 64) /
        262144) = lead :=
    eq_lead (by omega)
  have hmiddle : (bits lead 8 * 262144 + bits b 64 * 4096 + bits c 64 * 64 + bits d 64) / 4096 %
      64 = bits b 64 := by omega
  have hnext : (bits lead 8 * 262144 + bits b 64 * 4096 + bits c 64 * 64 + bits d 64) / 64 % 64 =
      bits c 64 := by omega
  have hlast : (bits lead 8 * 262144 + bits b 64 * 4096 + bits c 64 * 64 + bits d 64) % 64 =
      bits d 64 := by omega
  rw [encodeChar, toNat_ofNat (by omega), if_neg (by omega), if_neg (by omega), if_neg (by omega),
    hfirst, eq_tailByte htail hmiddle, eq_tailByte hc hnext, eq_tailByte hd hlast]

theorem eq_encode_of_decodeFrom {i : Nat} {bytes : Bytes} {t : Text}
    (h : decodeFrom i bytes = .ok t) :
    bytes = encode t := by
  have hcons {char : Char} {code rest : Bytes} {j : Nat} {t : Text} (hcode : encodeChar char = code)
      (hrest : ∀ u, decodeFrom j rest = .ok u → rest = encode u)
        (h : (char :: ·) <$> decodeFrom j rest = .ok t) :
      code ++ rest = encode t := by
    cases hu : decodeFrom j rest with
    | error flaw =>
      rw [hu] at h
      cases h
    | ok u =>
      rw [hu] at h
      obtain rfl : char :: u = t := Except.ok.inj h
      rw [encode_cons, hcode, ← hrest u hu]
  fun_induction decodeFrom i bytes generalizing t with
  | case1 =>
    obtain rfl : [] = t := Except.ok.inj h
    rfl
  | case2 i a r hone ih =>
    exact hcons (encodeChar_one (UInt8.lt_iff_toNat_lt.1 hone)) (fun _ hu => ih hu) h
  | case4 i a hone htwo b r hb ih =>
    obtain ⟨hlow, hhigh⟩ := between_iff.1 htwo
    exact hcons (encodeChar_two hlow hhigh hb) (fun _ hu => ih hu) h
  | case8 i a hone htwo hthree b hb c r hc ih =>
    obtain ⟨hlow, hhigh⟩ := between_iff.1 hthree
    exact hcons (encodeChar_three hlow hhigh hb hc) (fun _ hu => ih hu) h
  | case14 i a hone htwo hthree hfour b hb c hc d r hd ih =>
    obtain ⟨hlow, hhigh⟩ := between_iff.1 hfour
    exact hcons (encodeChar_four hlow hhigh hb hc hd) (fun _ hu => ih hu) h
  | _ => cases h

theorem decode_eq_ok_iff {bytes : Bytes} {t : Text} : decode bytes = .ok t ↔ bytes = encode t := by
  constructor
  · exact eq_encode_of_decodeFrom
  · rintro rfl
    exact decode_encode t

theorem encode_inj {s t : Text} (h : encode s = encode t) : s = t := by
  have hs : decode (encode t) = .ok s := decode_eq_ok_iff.2 h.symm
  rw [decode_encode] at hs
  exact (Except.ok.inj hs).symm

theorem encode_prefix_iff {s t : Text} : encode s <+: encode t ↔ s <+: t := by
  constructor
  · intro h
    obtain ⟨rest, hrest⟩ := h
    have ht : decodeFrom 0 (encode s ++ rest) = .ok t := by
      rw [hrest]
      exact decode_encode t
    rw [decodeFrom_encode_append] at ht
    cases hu : decodeFrom (0 + (encode s).length) rest with
    | error flaw =>
      rw [hu] at ht
      cases ht
    | ok u =>
      rw [hu] at ht
      exact ⟨u, Except.ok.inj ht⟩
  · intro h
    obtain ⟨u, rfl⟩ := h
    rw [encode_append]
    exact List.prefix_append _ _

/-! ### Small characters are single bytes, of all others the bytes are large -/

theorem encodeChar_of_small {c : Char} (h : c.toNat < 0x80) :
    encodeChar c = [UInt8.ofNat c.toNat] := by
  rw [encodeChar, if_pos h]

theorem le_of_mem_encodeChar {c : Char} {b : UInt8} (h : 0x80 ≤ c.toNat) (hb : b ∈ encodeChar c) :
    0x80 ≤ b.toNat := by
  have hvalid : c.toNat < 0xD800 ∨ 0xDFFF < c.toNat ∧ c.toNat < 0x110000 := c.valid
  rw [encodeChar] at hb
  split at hb
  · omega
  split at hb
  · simp only [List.mem_cons, List.not_mem_nil, or_false] at hb
    rcases hb with rfl | rfl <;> simp only [toNat_tailByte, UInt8.toNat_ofNat'] <;> omega
  split at hb
  · simp only [List.mem_cons, List.not_mem_nil, or_false] at hb
    rcases hb with rfl | rfl | rfl <;> simp only [toNat_tailByte, UInt8.toNat_ofNat'] <;> omega
  · simp only [List.mem_cons, List.not_mem_nil, or_false] at hb
    rcases hb with rfl | rfl | rfl | rfl <;> simp only [toNat_tailByte, UInt8.toNat_ofNat']
      <;> omega

theorem eq_of_mem_encodeChar {m c : Char} (hm : m.toNat < 0x80)
    (h : UInt8.ofNat m.toNat ∈ encodeChar c) : c = m := by
  have hbyte : (UInt8.ofNat m.toNat).toNat = m.toNat :=
    UInt8.toNat_ofNat_of_lt' (show m.toNat < 256 by omega)
  by_cases hc : c.toNat < 0x80
  · rw [encodeChar_of_small hc, List.mem_singleton] at h
    have hnat := congrArg UInt8.toNat h
    rw [hbyte, UInt8.toNat_ofNat_of_lt' (show c.toNat < 256 by omega)] at hnat
    exact Char.toNat_inj.1 hnat.symm
  · have hlarge := le_of_mem_encodeChar (Nat.not_lt.1 hc) h
    omega

/-- The byte of a small character is always that character, so it is a cut between codes of
texts. -/
theorem exists_of_encode_eq_append {m : Char} (hm : m.toNat < 0x80) {t : Text}
    {before after : Bytes} (h : encode t = before ++ UInt8.ofNat m.toNat :: after) :
    ∃ a b, t = a ++ m :: b ∧ encode a = before ∧ encode b = after := by
  induction t generalizing before with
  | nil => simp [encode] at h
  | cons c t ih =>
    rw [encode_cons, List.append_eq_append_iff] at h
    rcases h with ⟨more, rfl, hrest⟩ | ⟨more, hcode, hrest⟩
    · obtain ⟨a, b, rfl, rfl, hb⟩ := ih hrest
      exact ⟨c :: a, b, rfl, encode_cons c a, hb⟩
    · cases more with
      | nil =>
        have hstart : encode t = [] ++ UInt8.ofNat m.toNat :: after := hrest.symm
        obtain ⟨a, b, rfl, ha, hb⟩ := ih hstart
        refine ⟨c :: a, b, rfl, ?_, hb⟩
        rw [encode_cons, ha, hcode, List.append_nil, List.append_nil]
      | cons x more =>
        obtain ⟨rfl, rfl⟩ := List.cons.inj hrest
        have hc : c = m := eq_of_mem_encodeChar hm (by simp [hcode])
        subst hc
        rw [encodeChar_of_small hm, eq_comm, List.append_eq_singleton_iff] at hcode
        simp only [reduceCtorEq, and_false, or_false, List.cons.injEq] at hcode
        obtain ⟨rfl, -, rfl⟩ := hcode
        exact ⟨[], t, rfl, rfl, rfl⟩

theorem encodeChar_ne_nil (c : Char) : encodeChar c ≠ [] := by
  rw [encodeChar]
  repeat' split
  all_goals simp

theorem length_encodeChar (c : Char) : (encodeChar c).length = c.utf8Size := by
  have hle (n : Nat) (hn : n < UInt32.size) : c.val ≤ UInt32.ofNatLT n hn ↔ c.toNat < n + 1 := by
    rw [UInt32.le_iff_toNat_le, UInt32.toNat_ofNatLT]
    exact Nat.lt_succ_iff.symm
  simp only [encodeChar, Char.utf8Size, hle, Nat.reduceAdd, apply_ite List.length, List.length_cons,
    List.length_nil]

theorem byteLength_eq (t : Text) : byteLength t = (encode t).length := by
  induction t with
  | nil => rfl
  | cons c t ih => rw [byteLength, encode_cons, List.length_append, length_encodeChar, ih]

end StaticSite.Text.Utf8
