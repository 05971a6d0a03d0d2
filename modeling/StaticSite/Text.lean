/-! Text as a list of characters, so that every rule on it is a recursion on its data. Nothing
here knows ASCII only, unless its name says so. -/
namespace StaticSite

/-- A text is its list of Unicode characters. -/
abbrev Text := List Char

abbrev Bytes := List UInt8

namespace Text

/-- The Unicode property White_Space. -/
def isBlank (c : Char) : Bool :=
  let n := c.toNat
  (9 ≤ n && n ≤ 13) || n == 0x20 || n == 0x85 || n == 0xA0 || n == 0x1680 ||
    (0x2000 ≤ n && n ≤ 0x200A) || n == 0x2028 || n == 0x2029 || n == 0x202F || n == 0x205F ||
    n == 0x3000

def trimLeft (t : Text) : Text := t.dropWhile isBlank
def trimRight (t : Text) : Text := (t.reverse.dropWhile isBlank).reverse
def trim (t : Text) : Text := trimRight (trimLeft t)

/-- The pieces between the separators; one more than there are separators. -/
def splitBy (sep : Char → Bool) : Text → List Text
  | [] => [[]]
  | c :: cs =>
    if sep c then [] :: splitBy sep cs
    else match splitBy sep cs with
      | [] => [[c]]
      | p :: ps => (c :: p) :: ps

def words (t : Text) : List Text := (splitBy isBlank t).filter (· ≠ [])

/-- A line feed ends a line, and a carriage return before it belongs to that end. -/
def lines (t : Text) : List Text :=
  let pieces := splitBy (· == '\n') t
  let full := pieces.dropLast.map fun l => if l.getLast? = some '\r' then l.dropLast else l
  match pieces.getLast? with
  | none => full
  | some [] => full
  | some l => full ++ [l]

def after? (start : Text) (t : Text) : Option Text :=
  if start.isPrefixOf t then some (t.drop start.length) else none

theorem eq_of_after? {start t rest : Text} (h : after? start t = some rest) :
    t = start ++ rest := by
  unfold after? at h
  split at h
  next hs =>
    obtain ⟨r, rfl⟩ := List.isPrefixOf_iff_prefix.1 hs
    simpa using h
  next => simp at h

theorem after?_eq_some_iff {start t rest : Text} :
    after? start t = some rest ↔ t = start ++ rest := by
  constructor
  · exact eq_of_after?
  · rintro rfl
    simp [after?]

theorem after?_eq_none_iff {start t : Text} : after? start t = none ↔ ¬start <+: t := by
  rw [after?, ← List.isPrefixOf_iff_prefix]
  split <;> simp_all

def cut? (needle : Text) : Text → Option (Text × Text)
  | [] => if needle = [] then some ([], []) else none
  | c :: cs =>
    match after? needle (c :: cs) with
    | some rest => some ([], rest)
    | none => (cut? needle cs).map fun (a, b) => (c :: a, b)

theorem eq_of_cut? {needle t before rest : Text} (h : cut? needle t = some (before, rest)) :
    t = before ++ needle ++ rest := by
  induction t generalizing before rest with
  | nil =>
    unfold cut? at h
    split at h
    next hn => simp_all
    next => simp at h
  | cons c cs ih =>
    rw [cut?] at h
    split at h
    next after ha =>
      simp only [Option.some.injEq, Prod.mk.injEq] at h
      obtain ⟨rfl, rfl⟩ := h
      simpa using eq_of_after? ha
    next =>
      obtain ⟨⟨b, a⟩, h', he⟩ := Option.map_eq_some_iff.1 h
      simp only [Prod.mk.injEq] at he
      obtain ⟨rfl, rfl⟩ := he
      rw [ih h']
      simp

def occursIn (needle t : Text) : Bool := (cut? needle t).isSome

def join (sep : Text) : List Text → Text
  | [] => []
  | [t] => t
  | t :: u :: us => t ++ sep ++ join sep (u :: us)

def byteLength : Text → Nat
  | [] => 0
  | c :: t => c.utf8Size + byteLength t

def lowerAscii (t : Text) : Text := t.map Char.toLower

def ofNat (n : Nat) : Text := Nat.toDigits 10 n
def ofInt : Int → Text
  | .ofNat n => ofNat n
  | .negSucc n => '-' :: ofNat (n + 1)

/-- Strict order by characters, which is also the order of the UTF-8 forms. -/
def less : Text → Text → Bool
  | _, [] => false
  | [], _ :: _ => true
  | a :: s, b :: t => a.toNat < b.toNat || (a == b && less s t)

end Text
end StaticSite
