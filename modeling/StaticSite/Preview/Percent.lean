import StaticSite.Text.Utf8

/-! Percent coding of URLs, byte by byte. A percent sign without two hexadecimal digits after it
stands for itself. -/
namespace StaticSite.Percent

def digit? (b : UInt8) : Option UInt8 :=
  if 0x30 ≤ b && b ≤ 0x39 then some (b - 0x30)
  else if 0x41 ≤ b && b ≤ 0x46 then some (b - 0x41 + 10)
  else if 0x61 ≤ b && b ≤ 0x66 then some (b - 0x61 + 10)
  else none

def mark : UInt8 := 0x25

def decodeBytes : Bytes → Bytes
  | a :: h :: l :: rest =>
    if a = mark then
      match digit? h, digit? l with
      | some h, some l => (h * 16 + l) :: decodeBytes rest
      | _, _ => a :: decodeBytes (h :: l :: rest)
    else a :: decodeBytes (h :: l :: rest)
  | bytes => bytes

/-- The bytes that a text stands for must be a text again. -/
def decode (t : Text) : Except Text.Utf8.Flaw Text :=
  Text.Utf8.decode (decodeBytes (Text.Utf8.encode t))

end StaticSite.Percent
