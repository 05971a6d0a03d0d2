import StaticSite.Toml.Value

/-! Strings, numbers and dates of TOML. A reader takes what it reads from the start of a text and
gives the rest. -/
namespace StaticSite.Toml

def isGap (c : Char) : Bool := c == ' ' || c == '\t'

def isPlain (c : Char) : Bool := c == '\t' || (0x20 ≤ c.toNat && c.toNat ≠ 0x7F)

def newline? : Text → Option Text
  | '\n' :: rest => some rest
  | '\r' :: '\n' :: rest => some rest
  | _ => none

def skipSpace : Text → Text
  | '\r' :: '\n' :: rest => skipSpace rest
  | c :: rest => if isGap c || c == '\n' then skipSpace rest else c :: rest
  | [] => []

def hexDigit? (c : Char) : Option Nat :=
  if c.isDigit then some (c.toNat - 0x30)
  else if 'a' ≤ c && c ≤ 'f' then some (c.toNat - 0x61 + 10)
  else if 'A' ≤ c && c ≤ 'F' then some (c.toNat - 0x41 + 10)
  else none

def codeChar? (n : Nat) (t : Text) : Option (Char × Text) :=
  let digits := (t.take n).mapM hexDigit?
  match digits with
  | none => none
  | some ds =>
    let code := ds.foldl (fun a d => a * 16 + d) 0
    if ds.length = n && (Char.ofNat code).toNat = code then some (Char.ofNat code, t.drop n)
      else none

/-- The character that an escape stands for; the text begins after the backslash. -/
def escape? : Text → Option (Char × Text)
  | 'b' :: t => some (Char.ofNat 8, t)
  | 't' :: t => some ('\t', t)
  | 'n' :: t => some ('\n', t)
  | 'f' :: t => some (Char.ofNat 12, t)
  | 'r' :: t => some ('\r', t)
  | '"' :: t => some ('"', t)
  | '\\' :: t => some ('\\', t)
  | 'u' :: t => codeChar? 4 t
  | 'U' :: t => codeChar? 8 t
  | _ => none

def lineString? (quote : Char) : Nat → Text → Option (Text × Text)
  | 0, _ => none
  | _, [] => none
  | fuel + 1, c :: t =>
    if c = quote then some ([], t)
    else if c = '\\' && quote = '"' then
      (escape? t).bind fun (e, t) => (lineString? quote fuel t).map fun (s, t) => (e :: s, t)
    else if isPlain c then (lineString? quote fuel t).map fun (s, t) => (c :: s, t)
    else none

/-- A backslash before the end of a line drops the white space up to the next text. -/
def continued? (t : Text) : Option Text :=
  (newline? (t.dropWhile isGap)).map skipSpace

/-- The inside of a string over several lines. One or two quotes before the closing ones are
text. -/
def blockString? (quote : Char) : Nat → Text → Option (Text × Text)
  | 0, _ => none
  | fuel + 1, t =>
    let run := (t.takeWhile (· == quote)).length
    if 6 ≤ run then none
    else if 3 ≤ run then some (List.replicate (run - 3) quote, t.drop run)
    else if 0 < run then
      (blockString? quote fuel (t.drop run)).map fun (s, t) => (List.replicate run quote ++ s, t)
    else match t with
      | [] => none
      | c :: rest =>
        if c = '\\' && quote = '"' then
          match continued? rest with
          | some rest => blockString? quote fuel rest
          | none =>
            (escape? rest).bind fun (e, rest) => (blockString? quote fuel rest).map fun (s, t) =>
              (e :: s, t)
        else match newline? (c :: rest) with
          | some rest => (blockString? quote fuel rest).map fun (s, t) => ('\n' :: s, t)
          | none =>
            if isPlain c then (blockString? quote fuel rest).map fun (s, t) => (c :: s, t) else none

/-- A string with its quotes; a line end right after three quotes is dropped. -/
def string? (t : Text) : Option (Text × Text) :=
  match t with
  | '"' :: '"' :: '"' :: rest => blockString? '"' (t.length + 1) ((newline? rest).getD rest)
  | '\'' :: '\'' :: '\'' :: rest => blockString? '\'' (t.length + 1) ((newline? rest).getD rest)
  | '"' :: rest => lineString? '"' (t.length + 1) rest
  | '\'' :: rest => lineString? '\'' (t.length + 1) rest
  | _ => none

def digits? (isDigit : Char → Bool) (t : Text) : Option Text :=
  let groups := Text.splitBy (· == '_') t
  if groups.all (fun g => g ≠ [] && g.all isDigit) then some groups.flatten else none

def signed (t : Text) : Bool × Text :=
  match t with
  | '+' :: t => (false, t)
  | '-' :: t => (true, t)
  | t => (false, t)

def valueOf (base : Nat) (digits : Text) : Nat :=
  digits.foldl (fun a c => a * base + (hexDigit? c).getD 0) 0

def decimal? (t : Text) : Option Nat :=
  (digits? Char.isDigit t).bind fun ds =>
    if ds.head? = some '0' && 1 < ds.length then none else some (valueOf 10 ds)

def based? (base : Nat) (t : Text) : Option Int :=
  (digits? (fun c => (hexDigit? c).any (· < base)) t).bind fun ds =>
    if valueOf base ds < 1 <<< 63 then some (valueOf base ds) else none

def integer? (t : Text) : Option Int :=
  match t with
  | '0' :: 'x' :: ds => based? 16 ds
  | '0' :: 'o' :: ds => based? 8 ds
  | '0' :: 'b' :: ds => based? 2 ds
  | t =>
    match decimal? (signed t).2 with
    | none => none
    | some n =>
      if (signed t).1 then if n ≤ 1 <<< 63 then some (-(n : Int)) else none
      else if n < 1 <<< 63 then some n else none

def isExponent (t : Text) : Bool := (digits? Char.isDigit (signed t).2).isSome

def isFloat (t : Text) : Bool :=
  let body := (signed t).2
  if body = ['i', 'n', 'f'] || body = ['n', 'a', 'n'] then true
  else
    let mark (c : Char) : Bool := c == 'e' || c == 'E'
    let mantissa := body.takeWhile fun c => !mark c
    let exponentFits := mantissa.length = body.length ||
      isExponent (body.drop (mantissa.length + 1))
    match Text.cut? ['.'] mantissa with
    | some (whole, fraction) =>
      exponentFits && (decimal? whole).isSome && (digits? Char.isDigit fraction).isSome
    | none => mantissa.length ≠ body.length && exponentFits && (decimal? mantissa).isSome

/-- `n` digits whose value lies between two bounds. -/
def isField (n low high : Nat) (t : Text) : Bool :=
  t.length = n && t.all Char.isDigit && low ≤ valueOf 10 t && valueOf 10 t ≤ high

def daysIn (year month : Nat) : Nat :=
  if month = 2 then if year % 4 = 0 && (year % 100 ≠ 0 || year % 400 = 0) then 29 else 28
  else if month = 4 || month = 6 || month = 9 || month = 11 then 30 else 31

def isDate (t : Text) : Bool :=
  match Text.splitBy (· == '-') t with
  | [y, m, d] =>
    isField 4 0 9999 y && isField 2 1 12 m && isField 2 1 (daysIn (valueOf 10 y) (valueOf 10 m)) d
  | _ => false

def isTime (t : Text) : Bool :=
  match Text.splitBy (· == ':') t with
  | [h, m, s] =>
    let second := s.takeWhile (· != '.')
    let fraction := s.drop (second.length + 1)
    isField 2 0 23 h && isField 2 0 59 m && isField 2 0 60 second &&
      (second.length = s.length || (fraction ≠ [] && fraction.all Char.isDigit))
  | _ => false

def isOffset (t : Text) : Bool :=
  match Text.splitBy (· == ':') t with
  | [h, m] => isField 2 0 23 h && isField 2 0 59 m
  | _ => false

/-- A time that may have an offset from the universal time at its end. -/
def isZonedTime (t : Text) : Bool :=
  if t.getLast? = some 'Z' || t.getLast? = some 'z' then isTime t.dropLast
  else
    let time := t.takeWhile fun c => c != '+' && c != '-'
    isTime time && (time.length = t.length || isOffset (t.drop (time.length + 1)))

def isDateTime (t : Text) : Bool :=
  isTime t || isDate t ||
    (isDate (t.take 10) && (t[10]?).any (fun c => c == 'T' || c == 't' || c == ' ') &&
      isZonedTime (t.drop 11))

def isWordChar (c : Char) : Bool :=
  c.isAlphanum || c == '+' || c == '-' || c == '_' || c == '.' || c == ':'

/-- A value without quotes and brackets. A date may be parted from its time by a space. -/
def word? (t : Text) : Option (Value × Text) :=
  let word := t.takeWhile isWordChar
  let rest := t.drop word.length
  let longer := (rest.drop 1).takeWhile isWordChar
  if isDate word && rest.head? = some ' ' && longer.head?.any Char.isDigit then
    let whole := word ++ ' ' :: longer
    if isDateTime whole then some (.other, t.drop whole.length) else none
  else if word = "true".toList then some (.boolean true, rest)
  else if word = "false".toList then some (.boolean false, rest)
  else match integer? word with
    | some n => some (.integer n, rest)
    | none => if isFloat word || isDateTime word then some (.other, rest) else none

end StaticSite.Toml
