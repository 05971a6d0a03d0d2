import StaticSite.Decimal

/-! Values of a YAML document, their equality as keys, and a one-line notation that shows their
structure. -/
namespace StaticSite.Yaml

/-- Integers and floating-point numbers are different numbers even if they are equal in value. -/
inductive Number
  | int (n : Int)
  | float (x : Binary64)
  | infinite (negative : Bool)
  | nan
  deriving DecidableEq, Repr

def Number.text : Number → Text
  | .int n => Text.ofInt n
  | .float x => x.toText
  | .infinite true => "-.inf".toList
  | .infinite false => ".inf".toList
  | .nan => ".nan".toList

/-- Zero has no sign here. -/
def Number.same : Number → Number → Bool
  | .float x, .float y => x == y || (x.mantissa == 0 && y.mantissa == 0)
  | a, b => a == b

inductive Value
  | null
  | bool (b : Bool)
  | number (n : Number)
  | string (t : Text)
  | sequence (items : List Value)
  | mapping (pairs : List (Value × Value))
  | tagged (tag : Text) (value : Value)
  deriving Repr

namespace Value

/-- A tag is the same with and without its exclamation mark. -/
def tagName (tag : Text) : Text :=
  match tag with
  | ['!'] => ['!']
  | '!' :: t => t
  | t => t

mutual
/-- Equality of values; mappings do not depend on the order of their pairs. -/
def same : Value → Value → Bool
  | .null, .null => true
  | .bool a, .bool b => a == b
  | .number a, .number b => a.same b
  | .string a, .string b => a == b
  | .sequence a, .sequence b => sameItems a b
  | .mapping a, .mapping b => a.length == b.length && samePairs a b
  | .tagged t a, .tagged u b => tagName t == tagName u && same a b
  | _, _ => false

def sameItems : List Value → List Value → Bool
  | [], [] => true
  | a :: as, b :: bs => same a b && sameItems as bs
  | _, _ => false

def samePairs : List (Value × Value) → List (Value × Value) → Bool
  | [], _ => true
  | (k, v) :: ps, qs => qs.any (fun q => same k q.1 && same v q.2) && samePairs ps qs
end

def hasKey (key : Value) (pairs : List (Value × Value)) : Bool := pairs.any fun p => p.1.same key

def hexText (n : Nat) : Text := Nat.toDigits 16 n

/-- Characters that the notation shows by their number: controls, blanks other than the space, and
what has no form of its own. -/
def isHidden (c : Char) : Bool :=
  let n := c.toNat
  n < 0x20 || (0x7F ≤ n && n ≤ 0xA0) || n == 0xAD || (0x300 ≤ n && n ≤ 0x36F) ||
  (0x600 ≤ n && n ≤ 0x605) ||
    n == 0x61C || n == 0x1680 || n == 0x180E || (0x2000 ≤ n && n ≤ 0x200F) ||
    (0x2028 ≤ n && n ≤ 0x202F) ||
    (0x205F ≤ n && n ≤ 0x206F) || n == 0x3000 || (0xE000 ≤ n && n ≤ 0xF8FF) || n == 0xFEFF ||
    (0xFE00 ≤ n && n ≤ 0xFE0F) || (0xFFF9 ≤ n && n ≤ 0xFFFB) || 0xE0000 ≤ n

def quoteChar (c : Char) : Text :=
  match c with
  | '\t' => ['\\', 't']
  | '\r' => ['\\', 'r']
  | '\n' => ['\\', 'n']
  | '"' => ['\\', '"']
  | '\\' => ['\\', '\\']
  | c =>
    if c.toNat = 0 then ['\\', '0']
    else if isHidden c then '\\' :: 'u' :: '\x7b' :: hexText c.toNat ++ ['\x7d'] else [c]

def quote (t : Text) : Text := '"' :: t.flatMap quoteChar ++ ['"']

def call (name : String) (inner : Text) : Text := name.toList ++ '(' :: inner ++ [')']

mutual
def show_ : Value → Text
  | .null => "Null".toList
  | .bool b => call "Bool" (if b then "true".toList else "false".toList)
  | .number n => call "Number" n.text
  | .string t => call "String" (quote t)
  | .sequence items => "Sequence [".toList ++ Text.join [',', ' '] (showItems items) ++ [']']
  | .mapping pairs =>
    "Mapping ".toList ++ '\x7b' :: Text.join [',', ' '] (showPairs pairs) ++ ['\x7d']
  | .tagged tag v =>
    "TaggedValue ".toList ++ '\x7b' :: " tag: !".toList ++ tagName tag ++ ", value: ".toList ++
      show_ v ++ [' ', '\x7d']

def showItems : List Value → List Text
  | [] => []
  | v :: vs => show_ v :: showItems vs

def showPairs : List (Value × Value) → List Text
  | [] => []
  | (k, v) :: ps => (showKey k ++ ':' :: ' ' :: show_ v) :: showPairs ps

def showKey : Value → Text
  | .bool b => if b then "true".toList else "false".toList
  | .number n => n.text
  | .string t => quote t
  | .null => "Null".toList
  | .sequence items => "Sequence [".toList ++ Text.join [',', ' '] (showItems items) ++ [']']
  | .mapping pairs =>
    "Mapping ".toList ++ '\x7b' :: Text.join [',', ' '] (showPairs pairs) ++ ['\x7d']
  | .tagged tag v =>
    "TaggedValue ".toList ++ '\x7b' :: " tag: !".toList ++ tagName tag ++ ", value: ".toList ++
      show_ v ++ [' ', '\x7d']
end

end Value
end StaticSite.Yaml
