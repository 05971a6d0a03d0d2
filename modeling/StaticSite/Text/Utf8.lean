import StaticSite.Text

/-! UTF-8, with the place and length of the first sequence that is not well formed. -/
namespace StaticSite.Text.Utf8

def tailByte (n : Nat) : UInt8 := UInt8.ofNat (0x80 + n % 64)

def encodeChar (c : Char) : Bytes :=
  let n := c.toNat
  if n < 0x80 then [UInt8.ofNat n]
  else if n < 0x800 then [UInt8.ofNat (0xC0 + n / 64), tailByte n]
  else if n < 0x10000 then [UInt8.ofNat (0xE0 + n / 4096), tailByte (n / 64), tailByte n]
  else [UInt8.ofNat (0xF0 + n / 262144), tailByte (n / 4096), tailByte (n / 64), tailByte n]

def encode (t : Text) : Bytes := t.flatMap encodeChar

/-- The first `index` bytes are well formed. `length` counts the bytes of the sequence that can no
longer become well formed; there is none if the bytes end inside a sequence. -/
structure Flaw where
  index : Nat
  length : Option Nat
  deriving DecidableEq, Repr

def Flaw.message (f : Flaw) : Text :=
  match f.length with
  | some n =>
    "invalid utf-8 sequence of ".toList ++ ofNat n ++ " bytes from index ".toList ++ ofNat f.index
  | none => "incomplete utf-8 byte sequence from index ".toList ++ ofNat f.index

def isTail (b : UInt8) : Bool := 0x80 ≤ b && b ≤ 0xBF

def admits3 (lead b : UInt8) : Bool :=
  (lead == 0xE0 && 0xA0 ≤ b && b ≤ 0xBF) || (lead == 0xED && 0x80 ≤ b && b ≤ 0x9F) ||
    (lead != 0xE0 && lead != 0xED && isTail b)

def admits4 (lead b : UInt8) : Bool :=
  (lead == 0xF0 && 0x90 ≤ b && b ≤ 0xBF) || (lead == 0xF4 && 0x80 ≤ b && b ≤ 0x8F) ||
    (lead != 0xF0 && lead != 0xF4 && isTail b)

def bits (b : UInt8) (m : Nat) : Nat := b.toNat % m

def decodeFrom (i : Nat) : Bytes → Except Flaw Text
  | [] => .ok []
  | a :: r =>
    if a < 0x80 then (Char.ofNat a.toNat :: ·) <$> decodeFrom (i + 1) r
    else if 0xC2 ≤ a && a ≤ 0xDF then
      match r with
      | [] => .error ⟨i, none⟩
      | b :: r =>
        if isTail b then (Char.ofNat (bits a 32 * 64 + bits b 64) :: ·) <$> decodeFrom (i + 2) r
        else .error ⟨i, some 1⟩
    else if 0xE0 ≤ a && a ≤ 0xEF then
      match r with
      | [] => .error ⟨i, none⟩
      | b :: r =>
        if admits3 a b then
          match r with
          | [] => .error ⟨i, none⟩
          | c :: r =>
            if isTail c then
              (Char.ofNat (bits a 16 * 4096 + bits b 64 * 64 + bits c 64) :: ·) <$> decodeFrom
                (i + 3) r
            else .error ⟨i, some 2⟩
        else .error ⟨i, some 1⟩
    else if 0xF0 ≤ a && a ≤ 0xF4 then
      match r with
      | [] => .error ⟨i, none⟩
      | b :: r =>
        if admits4 a b then
          match r with
          | [] => .error ⟨i, none⟩
          | c :: r =>
            if isTail c then
              match r with
              | [] => .error ⟨i, none⟩
              | d :: r =>
                if isTail d then
                  (Char.ofNat (bits a 8 * 262144 + bits b 64 * 4096 + bits c 64 * 64 + bits d 64) ::
                    ·) <$>
                    decodeFrom (i + 4) r
                else .error ⟨i, some 3⟩
            else .error ⟨i, some 2⟩
        else .error ⟨i, some 1⟩
    else .error ⟨i, some 1⟩

def decode (bs : Bytes) : Except Flaw Text := decodeFrom 0 bs

end StaticSite.Text.Utf8
