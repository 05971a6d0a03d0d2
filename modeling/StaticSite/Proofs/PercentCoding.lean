import StaticSite.Preview.Percent
import StaticSite.Proofs.Utf8Coding

/-! Percent encoding, as a client writes the names in a URL. Decoding gives back every text that was
encoded, and leaves the slashes between encoded names where they are; and it leaves a text as it is
exactly if this has no code. -/
namespace StaticSite.Percent

open Text (Utf8.encode Utf8.encode_append)
open Text.Utf8 (encodeChar encode_cons encodeChar_of_small le_of_mem_encodeChar eq_of_mem_encodeChar
    encodeChar_ne_nil
  exists_of_encode_eq_append)

variable {b : UInt8} {n : Nat}

/-- The characters that stand for themselves in a URL. -/
def isUnreserved (c : Char) : Bool := c.isAlphanum || c == '-' || c == '.' || c == '_' || c == '~'

def hexDigit (n : Nat) : Char :=
  if n < 10 then Char.ofNat (0x30 + n) else Char.ofNat (0x41 + (n - 10))

def encodeByte (b : UInt8) : Text :=
  if b < 0x80 && isUnreserved (Char.ofNat b.toNat) then [Char.ofNat b.toNat]
  else ['%', hexDigit (b.toNat / 16), hexDigit (b.toNat % 16)]

def encode (t : Text) : Text := (Utf8.encode t).flatMap encodeByte

/-- The URL of what is found below a root by some names. -/
def urlOf (names : List Text) : Text := names.flatMap fun n => '/' :: encode n

theorem decodeBytes_cons_of_ne (h : b ≠ mark) (rest : Bytes) :
    decodeBytes (b :: rest) = b :: decodeBytes rest := by
  cases rest with
  | nil => rfl
  | cons c rest =>
    cases rest with
    | nil => rfl
    | cons d rest => rw [decodeBytes, if_neg h]

theorem exists_byte_hexDigit (hn : n < 16) :
    ∃ c, Utf8.encode [hexDigit n] = [c] ∧ digit? c = some (UInt8.ofNat n) := by
  have hdigits : ∀ n < 16, (Utf8.encode [hexDigit n]).map digit? = [some (UInt8.ofNat n)] := by
    decide
  exact List.map_eq_singleton_iff.1 (hdigits n hn)

theorem encode_singleton_of_small (hb : b < 0x80) : Utf8.encode [Char.ofNat b.toNat] = [b] := by
  have hlt : b.toNat < 0x80 := UInt8.lt_iff_toNat_lt.1 hb
  have hvalid : b.toNat.isValidChar := .inl (by omega)
  have hnat : (Char.ofNat b.toNat).toNat = b.toNat := by
    rw [Char.ofNat, dif_pos hvalid]
    rfl
  simp [Utf8.encode, Text.Utf8.encodeChar, hnat, hlt]

theorem decodeBytes_encodeByte (b : UInt8) (rest : Bytes) :
    decodeBytes (Utf8.encode (encodeByte b) ++ rest) = b :: decodeBytes rest := by
  rw [encodeByte]
  split
  next hplain =>
    obtain ⟨hsmall, hunreserved⟩ := Bool.and_eq_true_iff.1 hplain
    have hne : b ≠ mark := by
      rintro rfl
      exact absurd hunreserved (by decide)
    rw [encode_singleton_of_small (by simpa using hsmall), List.singleton_append,
      decodeBytes_cons_of_ne hne]
  next =>
    have hlt : b.toNat < 256 := b.toNat_lt
    obtain ⟨h, hh, hhigh⟩ := exists_byte_hexDigit (n := b.toNat / 16) (by omega)
    obtain ⟨l, hl, hlow⟩ := exists_byte_hexDigit (n := b.toNat % 16) (by omega)
    have hbytes : Utf8.encode ['%', hexDigit (b.toNat / 16), hexDigit (b.toNat % 16)] =
        [mark, h, l] :=
      calc Utf8.encode (['%'] ++ ([hexDigit (b.toNat / 16)] ++ [hexDigit (b.toNat % 16)]))
        _ = Utf8.encode ['%'] ++ (Utf8.encode [hexDigit (b.toNat / 16)] ++
            Utf8.encode [hexDigit (b.toNat % 16)]) := by
          rw [Utf8.encode_append, Utf8.encode_append]
        _ = [mark, h, l] := by
          rw [hh, hl]
          rfl
    have hvalue : UInt8.ofNat (b.toNat / 16) * 16 + UInt8.ofNat (b.toNat % 16) = b := by
      apply UInt8.toNat_inj.1
      simp
      omega
    rw [hbytes]
    simp only [List.cons_append, List.nil_append, decodeBytes, if_true, hhigh, hlow, hvalue]

theorem decodeBytes_encode (t : Text) (rest : Bytes) :
    decodeBytes (Utf8.encode (encode t) ++ rest) = Utf8.encode t ++ decodeBytes rest := by
  have hbytes (bytes : Bytes) : decodeBytes (Utf8.encode (bytes.flatMap encodeByte) ++ rest) =
      bytes ++ decodeBytes rest := by
    induction bytes with
    | nil => rfl
    | cons b bytes ih =>
      rw [List.flatMap_cons, Utf8.encode_append, List.append_assoc, decodeBytes_encodeByte, ih,
        List.cons_append]
  exact hbytes (Utf8.encode t)

theorem decode_urlOf (names : List Text) :
    decode (urlOf names) = .ok (names.flatMap fun n => '/' :: n) := by
  have hbytes : decodeBytes (Utf8.encode (urlOf names)) =
      Utf8.encode (names.flatMap fun n => '/' :: n) := by
    induction names with
    | nil => rfl
    | cons n names ih =>
      have hslash (t u : Text) : Utf8.encode ('/' :: t ++ u) = 0x2F ::
          (Utf8.encode t ++ Utf8.encode u) :=
        Utf8.encode_append ('/' :: t) u
      rw [urlOf, List.flatMap_cons, List.flatMap_cons, hslash, hslash,
        decodeBytes_cons_of_ne (by decide), decodeBytes_encode, ← urlOf, ih]
  rw [decode, hbytes, Text.Utf8.decode_encode]

/-! ### Texts that stand for themselves -/

variable {bytes : Bytes} {c : Char} {t : Text}

def isHexDigit (c : Char) : Bool :=
  ('0' ≤ c && c ≤ '9') || ('A' ≤ c && c ≤ 'F') || ('a' ≤ c && c ≤ 'f')

def startsCode : Text → Bool
  | '%' :: h :: l :: _ => isHexDigit h && isHexDigit l
  | _ => false

def hasCode : Text → Bool
  | [] => false
  | c :: t => startsCode (c :: t) || hasCode t

theorem isHexDigit_iff : isHexDigit c = true ↔
    0x30 ≤ c.toNat ∧ c.toNat ≤ 0x39 ∨ 0x41 ≤ c.toNat ∧ c.toNat ≤ 0x46 ∨ 0x61 ≤ c.toNat ∧
    c.toNat ≤ 0x66 := by
  simp [isHexDigit, Char.le_def, UInt32.le_iff_toNat_le, or_assoc]

theorem isSome_digit?_iff : (digit? b).isSome = true ↔
    0x30 ≤ b.toNat ∧ b.toNat ≤ 0x39 ∨ 0x41 ≤ b.toNat ∧ b.toNat ≤ 0x46 ∨ 0x61 ≤ b.toNat ∧
    b.toNat ≤ 0x66 := by
  simp only [digit?, UInt8.le_iff_toNat_le, Bool.and_eq_true, decide_eq_true_eq, UInt8.reduceToNat]
  repeat' split
  all_goals simp_all

theorem exists_of_isSome_digit? (h : Utf8.encode t = b :: bytes) (hb : (digit? b).isSome) :
    ∃ c u, t = c :: u ∧ isHexDigit c = true ∧ Utf8.encode u = bytes := by
  cases t with
  | nil => cases h
  | cons c u =>
    have hrange := isSome_digit?_iff.1 hb
    rw [encode_cons] at h
    by_cases hsmall : c.toNat < 0x80
    · rw [encodeChar_of_small hsmall] at h
      obtain ⟨rfl, hrest⟩ := List.cons.inj h
      rw [UInt8.toNat_ofNat_of_lt' (show c.toNat < 256 by omega)] at hrange
      exact ⟨c, u, rfl, isHexDigit_iff.2 hrange, hrest⟩
    · obtain ⟨first, more, hcode⟩ := List.exists_cons_of_ne_nil (encodeChar_ne_nil c)
      obtain ⟨rfl, -⟩ : first = b ∧ more ++ Utf8.encode u = bytes := by simpa [hcode] using h
      have hlarge : 0x80 ≤ first.toNat :=
        le_of_mem_encodeChar (Nat.not_lt.1 hsmall) (by simp [hcode])
      omega

theorem exists_digit_of_isHexDigit (h : isHexDigit c = true) :
    ∃ b n, encodeChar c = [b] ∧ digit? b = some n := by
  have hrange := isHexDigit_iff.1 h
  have hbyte : (UInt8.ofNat c.toNat).toNat = c.toNat :=
    UInt8.toNat_ofNat_of_lt' (show c.toNat < 256 by omega)
  have hdigit : (digit? (UInt8.ofNat c.toNat)).isSome = true := by
    rw [isSome_digit?_iff, hbyte]
    exact hrange
  obtain ⟨n, hn⟩ := Option.isSome_iff_exists.1 hdigit
  exact ⟨_, n, encodeChar_of_small (by omega), hn⟩

theorem decodeBytes_append_of_ne (h : ∀ b ∈ bytes, b ≠ mark) (rest : Bytes) :
    decodeBytes (bytes ++ rest) = bytes ++ decodeBytes rest := by
  induction bytes with
  | nil => rfl
  | cons b bytes ih =>
    rw [List.cons_append, decodeBytes_cons_of_ne (h b List.mem_cons_self),
      ih fun x hx => h x (List.mem_cons_of_mem b hx)]
    rfl

theorem mark_notMem_encodeChar (h : c ≠ '%') : ∀ b ∈ encodeChar c, b ≠ mark := by
  rintro b hb rfl
  exact h (eq_of_mem_encodeChar (m := '%') (by decide) hb)

theorem decodeBytes_mark (h : ∀ a d rest, bytes = a :: d :: rest → digit? a = none ∨
      digit? d = none) :
    decodeBytes (mark :: bytes) = mark :: decodeBytes bytes := by
  cases bytes with
  | nil => rfl
  | cons a bytes =>
    cases bytes with
    | nil => rfl
    | cons d rest =>
      rw [decodeBytes, if_pos rfl]
      rcases h a d rest rfl with hnone | hnone
      · simp [hnone]
      · cases digit? a <;> simp [hnone]

theorem decodeBytes_cons {a : UInt8}
    (h : a = mark → ∀ x y rest, bytes = x :: y :: rest → digit? x = none ∨ digit? y = none) :
    decodeBytes (a :: bytes) = a :: decodeBytes bytes := by
  by_cases ha : a = mark
  · subst ha
    exact decodeBytes_mark (h rfl)
  · exact decodeBytes_cons_of_ne ha bytes

/-- No code goes on beyond a byte that is neither a mark nor a digit, so what is before and after it
is decoded apart. -/
theorem decodeBytes_append_cons (hmark : b ≠ mark) (hdigit : digit? b = none) (bytes rest : Bytes) :
    decodeBytes (bytes ++ b :: rest) = decodeBytes bytes ++ b :: decodeBytes rest := by
  have hcut : decodeBytes (b :: rest) = b :: decodeBytes rest := decodeBytes_cons_of_ne hmark rest
  have hone (a : UInt8) : decodeBytes (a :: b :: rest) = a :: b :: decodeBytes rest := by
    rw [decodeBytes_cons, hcut]
    rintro - x y more heq
    obtain ⟨rfl, -⟩ := List.cons.inj heq
    exact .inl hdigit
  fun_induction decodeBytes bytes with
  | case1 h l more m n hl hh ih =>
    rw [List.cons_append, List.cons_append, List.cons_append, decodeBytes, if_pos rfl, hh, hl]
    exact congrArg _ ih
  | case2 h l more hnone ih =>
    rw [List.cons_append, decodeBytes_cons, ih]
    · rfl
    rintro - x y more' heq
    obtain ⟨rfl, hmore⟩ := List.cons.inj heq
    obtain ⟨rfl, -⟩ := List.cons.inj hmore
    cases hx : digit? h with
    | none => exact .inl rfl
    | some m => exact .inr (Option.eq_none_iff_forall_ne_some.2 fun n hn => hnone m n hx hn)
  | case3 a h l more hne ih =>
    rw [List.cons_append, decodeBytes_cons_of_ne hne, ih, List.cons_append]
  | case4 bytes hshort =>
    match bytes, hshort with
    | [], _ => exact hcut
    | [a], _ => exact hone a
    | [a, d], _ =>
      have htwo : decodeBytes (a :: d :: b :: rest) = a :: decodeBytes (d :: b :: rest) := by
        apply decodeBytes_cons
        rintro - x y more heq
        obtain ⟨rfl, hmore⟩ := List.cons.inj heq
        obtain ⟨rfl, -⟩ := List.cons.inj hmore
        exact .inr hdigit
      exact htwo.trans (congrArg _ (hone d))
    | a :: d :: e :: more, hshort => exact (hshort a d e more rfl).elim

theorem decodeBytes_encode_cons (h : startsCode (c :: t) = false) :
    decodeBytes (Utf8.encode (c :: t)) = encodeChar c ++ decodeBytes (Utf8.encode t) := by
  rw [encode_cons]
  by_cases hc : c = '%'
  · subst hc
    refine decodeBytes_mark fun a d rest hbytes => ?_
    cases ha : digit? a with
    | none => exact .inl rfl
    | some m =>
      cases hd : digit? d with
      | none => exact .inr rfl
      | some n =>
        obtain ⟨x, u, rfl, hx, hu⟩ := exists_of_isSome_digit? hbytes (by simp [ha])
        obtain ⟨y, v, rfl, hy, -⟩ := exists_of_isSome_digit? hu (by simp [hd])
        simp [startsCode, hx, hy] at h
  · exact decodeBytes_append_of_ne (mark_notMem_encodeChar hc) _

theorem length_decodeBytes_le (bytes : Bytes) : (decodeBytes bytes).length ≤ bytes.length := by
  fun_induction decodeBytes bytes with
  | case1 h l rest h' l' hl hh ih =>
    simp only [List.length_cons]
    omega
  | case2 a h l rest => simp_all
  | case3 a h l rest => simp_all
  | case4 bytes => exact Nat.le_refl _

theorem length_decodeBytes_of_startsCode (h : startsCode t = true) :
    (decodeBytes (Utf8.encode t)).length < (Utf8.encode t).length := by
  obtain ⟨x, y, u, rfl, hx, hy⟩ : ∃ x y u, t = '%' :: x :: y :: u ∧ isHexDigit x = true ∧
    isHexDigit y = true := by
    rw [startsCode.eq_def] at h
    split at h
    next x y u => exact ⟨x, y, u, rfl, Bool.and_eq_true_iff.1 h⟩
    next => cases h
  obtain ⟨a, m, ha, hm⟩ := exists_digit_of_isHexDigit hx
  obtain ⟨d, n, hd, hn⟩ := exists_digit_of_isHexDigit hy
  have hcode : Utf8.encode ('%' :: x :: y :: u) = mark :: a :: d :: Utf8.encode u := by
    rw [encode_cons, encode_cons, encode_cons, ha, hd]
    rfl
  have hle := length_decodeBytes_le (Utf8.encode u)
  rw [hcode, decodeBytes, if_pos rfl, hm, hn]
  simp only [List.length_cons]
  omega

theorem decodeBytes_encode_eq (h : hasCode t = false) :
    decodeBytes (Utf8.encode t) = Utf8.encode t := by
  induction t with
  | nil => rfl
  | cons c t ih =>
    obtain ⟨hstart, hrest⟩ := Bool.or_eq_false_iff.1 h
    rw [decodeBytes_encode_cons hstart, ih hrest, encode_cons]

theorem length_decodeBytes_lt (h : hasCode t = true) :
    (decodeBytes (Utf8.encode t)).length < (Utf8.encode t).length := by
  induction t with
  | nil => cases h
  | cons c t ih =>
    cases hstart : startsCode (c :: t) with
    | true => exact length_decodeBytes_of_startsCode hstart
    | false =>
      have hlt := ih (by simpa [hasCode, hstart] using h)
      rw [decodeBytes_encode_cons hstart, encode_cons, List.length_append, List.length_append]
      omega

theorem decode_eq_self (h : hasCode t = false) : decode t = .ok t := by
  rw [decode, decodeBytes_encode_eq h, Text.Utf8.decode_encode]

theorem byteLength_lt_of_decode {u : Text} (h : hasCode t = true) (hu : decode t = .ok u) :
    u.byteLength < t.byteLength := by
  rw [Text.Utf8.byteLength_eq, Text.Utf8.byteLength_eq, ← Text.Utf8.decode_eq_ok_iff.1 hu]
  exact length_decodeBytes_lt h

theorem decode_append_cons_iff {m : Char} (hsmall : m.toNat < 0x80)
    (hmark : UInt8.ofNat m.toNat ≠ mark) (hdigit : digit? (UInt8.ofNat m.toNat) = none)
    {s t u : Text} :
    decode (s ++ m :: t) = .ok u ↔ ∃ a b, u = a ++ m :: b ∧ decode s = .ok a ∧
    decode t = .ok b := by
  have hencode (x y : Text) : Utf8.encode (x ++ m :: y) = Utf8.encode x ++ UInt8.ofNat m.toNat ::
      Utf8.encode y := by
    rw [Utf8.encode_append, encode_cons, encodeChar_of_small hsmall, List.singleton_append]
  simp only [decode, Text.Utf8.decode_eq_ok_iff]
  rw [hencode, decodeBytes_append_cons hmark hdigit]
  constructor
  · intro h
    obtain ⟨a, b, rfl, ha, hb⟩ := exists_of_encode_eq_append hsmall h.symm
    exact ⟨a, b, rfl, ha.symm, hb.symm⟩
  · rintro ⟨a, b, rfl, ha, hb⟩
    rw [ha, hb, hencode]

theorem hasCode_append_slash (s t : Text) : hasCode (s ++ '/' :: t) = (hasCode s || hasCode t) := by
  have hdigit : isHexDigit '/' = false := by decide
  induction s with
  | nil => rfl
  | cons c s ih =>
    have hstart : startsCode (c :: (s ++ '/' :: t)) = startsCode (c :: s) := by
      by_cases hc : c = '%'
      · subst hc
        match s with
        | [] => cases t <;> simp [startsCode, hdigit]
        | [x] => simp [startsCode, hdigit]
        | x :: y :: s => rfl
      · simp [startsCode, hc]
    rw [List.cons_append, hasCode, hasCode, ih, hstart, Bool.or_assoc]

end StaticSite.Percent
