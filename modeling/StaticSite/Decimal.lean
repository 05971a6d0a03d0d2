import StaticSite.Text

/-! Binary floating-point numbers of 64 bits, read from decimals and written as the shortest decimal
that reads back. All of it is exact arithmetic on natural numbers. -/
namespace StaticSite

/-- A finite number: `mantissa` times two to the power `exponent`, with the sign. The mantissa is
below 2^53, and at least 2^52 unless the exponent is -1074. -/
structure Binary64 where
  negative : Bool
  mantissa : Nat
  exponent : Int
  deriving DecidableEq, Repr

namespace Binary64

/-- The quotient rounded to nearest, a half to the even neighbour. -/
def divRound (a b : Nat) : Nat :=
  let q := a / b
  let r := 2 * (a % b)
  if r < b then q else if b < r then q + 1 else q + q % 2

def powerOfTen (n : Nat) : Nat := Nat.pow 10 n

def least : Int := -1074
def greatest : Int := 971

def scaled (a b : Nat) (e : Int) : Nat :=
  match e with
  | .ofNat n => divRound a (b <<< n)
  | .negSucc n => divRound (a <<< (n + 1)) b

def reaches (a b : Nat) (e : Int) : Bool :=
  match e with
  | .ofNat n => b <<< n ≤ a
  | .negSucc n => b ≤ a <<< (n + 1)

def nearest? (negative : Bool) (a b : Nat) : Option Binary64 :=
  if a = 0 then some ⟨negative, 0, least⟩
  else
    let guess : Int := (a.log2 : Int) - b.log2
    let power := if reaches a b guess then guess else guess - 1
    let e := max least (power - 52)
    let m := scaled a b e
    let (m, e) := if m = 1 <<< 53 then (1 <<< 52, e + 1) else (m, e)
    if greatest < e then none else some ⟨negative, m, e⟩

/-- The number nearest to `digits` times ten to the power `e`. Far outside of the range of numbers
the digits do not matter. -/
def ofDecimal? (negative : Bool) (digits : Nat) (e : Int) : Option Binary64 :=
  let size : Int := (Nat.toDigits 10 digits).length + e
  if digits = 0 then some ⟨negative, 0, least⟩
  else if 400 < size then none
  else if size < -400 then some ⟨negative, 0, least⟩
  else match e with
    | .ofNat n => nearest? negative (digits * powerOfTen n) 1
    | .negSucc n => nearest? negative digits (powerOfTen (n + 1))

/-- Reads a decimal with optional sign, point and exponent; at least one digit stands before or
after the point. Numbers beyond the greatest are none. -/
def parse? (t : Text) : Option Binary64 :=
  let (negative, t) := match t with
    | '-' :: r => (true, r)
    | '+' :: r => (false, r)
    | r => (false, r)
  let whole := t.takeWhile Char.isDigit
  let t := t.dropWhile Char.isDigit
  let (part, t) := match t with
    | '.' :: r => (r.takeWhile Char.isDigit, r.dropWhile Char.isDigit)
    | r => ([], r)
  if whole = [] && part = [] then none
  else
    let digits := Nat.ofDigitChars 10 (whole ++ part) 0
    let shift : Int := -(part.length : Int)
    match t with
    | [] => ofDecimal? negative digits shift
    | c :: r =>
      if c == 'e' || c == 'E' then
        let (down, r) := match r with
          | '-' :: r => (true, r)
          | '+' :: r => (false, r)
          | r => (false, r)
        if r = [] || !r.all Char.isDigit then none
        else
          let n : Int := Nat.ofDigitChars 10 r 0
          ofDecimal? negative digits (shift + if down then -n else n)
      else none

def fraction (a : Nat) (e : Int) : Nat × Nat :=
  match e with
  | .ofNat n => (a <<< n, 1)
  | .negSucc n => (a, 1 <<< (n + 1))

def tenths (e : Int) : Nat × Nat :=
  match e with
  | .ofNat n => (powerOfTen n, 1)
  | .negSucc n => (1, powerOfTen (n + 1))

/-- The decimal on the grid of ten to the power `k` that lies nearest to the number, if one lies
among the reals that round to it. Bounds are counted in quarters of the last binary place. -/
def onGrid? (x : Binary64) (k : Int) : Option Nat :=
  let (a, b) := fraction 1 (x.exponent - 2)
  let (c, d) := tenths k
  -- quarters q stand for the grid value q * a * d / (b * c)
  let den := b * c
  let value := 4 * x.mantissa * a * d
  let low := (4 * x.mantissa - if x.mantissa = 1 <<< 52 && x.exponent ≠ least then 1 else 2) * a * d
  let high := (4 * x.mantissa + 2) * a * d
  let even := x.mantissa % 2 = 0
  let inside := fun n => (low < n * den || (even && low = n * den)) &&
    (n * den < high || (even && n * den = high))
  let f := value / den
  let below := value - f * den
  let above := (f + 1) * den - value
  match inside f, inside (f + 1) with
  | true, true => some (if below < above || (below = above && f % 2 = 0) then f else f + 1)
  | true, false => some f
  | false, true => some (f + 1)
  | false, false => none

def magnitude (a b : Nat) (guess : Int) : Nat → Int
  | 0 => guess
  | fuel + 1 =>
    let (c, d) := tenths guess
    if a * d < b * c then magnitude a b (guess - 1) fuel
    else if b * c * 10 ≤ a * d then magnitude a b (guess + 1) fuel
    else guess

/-- The fewest decimal digits that read back as the number, and their power of ten. -/
def shortest (x : Binary64) : Nat × Int :=
  if x.mantissa = 0 then (0, 0)
  else
    let (a, b) := fraction x.mantissa x.exponent
    let guess := ((a.log2 : Int) - b.log2) * 3 / 10
    let top := magnitude a b guess 400
    match (List.range 17).findSome? fun (n : Nat) => let k :=
      top - (n : Int); (x.onGrid? k).map fun f => (f, k) with
    | some (f, k) => strip f k 20
    | none => (0, 0)
where
  strip (f : Nat) (k : Int) : Nat → Nat × Int
    | 0 => (f, k)
    | fuel + 1 => if f % 10 = 0 && f ≠ 0 then strip (f / 10) (k + 1) fuel else (f, k)

/-- Positional from 10^-5 up to 10^16, with at least one digit after the point, else with an
exponent. -/
def toText (x : Binary64) : Text :=
  let sign : Text := if x.negative then ['-'] else []
  let (f, k) := x.shortest
  if f = 0 then sign ++ ['0', '.', '0']
  else
    let digits := Text.ofNat f
    let point : Int := digits.length + k
    let zeros := fun (n : Int) => List.replicate n.toNat '0'
    sign ++
      (if 0 ≤ k && point ≤ 16 then digits ++ zeros k ++ ['.', '0']
      else if 0 < point && point ≤ 16 then digits.take point.toNat ++ '.' :: digits.drop point.toNat
      else if -5 < point && point ≤ 0 then '0' :: '.' :: zeros (-point) ++ digits
      else
        let exponent := 'e' :: Text.ofInt (point - 1)
        match digits with
        | [d] => d :: exponent
        | d :: ds => d :: '.' :: ds ++ exponent
        | [] => exponent)

end Binary64
end StaticSite
