import StaticSite.Text

/-! Addresses of interfaces: four numbers with dots between them, or eight groups of hexadecimal
digits, of which one run of zeros may be left out. -/
namespace StaticSite

inductive Address
  | v4 (bytes : List Nat)
  | v6 (groups : List Nat)
  deriving DecidableEq, Repr

namespace Address

def hexDigit? (c : Char) : Option Nat :=
  if c.isDigit then some (c.toNat - 0x30)
  else if 'a' ≤ c && c ≤ 'f' then some (c.toNat - 0x61 + 10)
  else if 'A' ≤ c && c ≤ 'F' then some (c.toNat - 0x41 + 10)
  else none

def byte? (t : Text) : Option Nat :=
  if t = [] || 3 < t.length || !t.all Char.isDigit || (t.head? = some '0' && 1 < t.length) then none
  else
    let n := t.foldl (fun a c => a * 10 + (hexDigit? c).getD 0) 0
    if n < 256 then some n else none

def bytes? (t : Text) : Option (List Nat) :=
  let parts := Text.splitBy (· == '.') t
  if parts.length = 4 then parts.mapM byte? else none

def group? (t : Text) : Option Nat :=
  if t = [] || 4 < t.length then none else (t.mapM hexDigit?).map fun ds =>
    ds.foldl (fun a d => a * 16 + d) 0

/-- Groups with colons between them; the last two may be written as four numbers. -/
def groups? (withBytes : Bool) (t : Text) : Option (List Nat) :=
  let parts := Text.splitBy (· == ':') t
  match parts.mapM group? with
  | some gs => some gs
  | none =>
    if withBytes then do
      let front ← parts.dropLast.mapM group?
      match ← bytes? (parts.getLast?.getD []) with
      | [a, b, c, d] => some (front ++ [a * 256 + b, c * 256 + d])
      | _ => none
    else none

def v6? (t : Text) : Option Address :=
  match Text.cut? [':', ':'] t with
  | none => (groups? true t).bind fun gs => if gs.length = 8 then some (.v6 gs) else none
  | some (before, after) => do
    let head ← if before = [] then some [] else groups? false before
    let tail ← if after = [] then some [] else groups? true after
    if head.length + tail.length < 8 then
      some (.v6 (head ++ List.replicate (8 - head.length - tail.length) 0 ++ tail))
    else none

def parse? (t : Text) : Option Address := ((bytes? t).map .v4).orElse fun _ => v6? t

def bytesText (bytes : List Nat) : Text := Text.join ['.'] (bytes.map Text.ofNat)

def groupsText (groups : List Nat) : Text := Text.join [':'] (groups.map (Nat.toDigits 16))

def zeros (groups : List Nat) : Nat := (groups.takeWhile (· == 0)).length

def longestZeros : List Nat → Nat × Nat
  | [] => (0, 0)
  | g :: gs =>
    let (start, length) := longestZeros gs
    if length ≤ zeros (g :: gs) then (0, zeros (g :: gs)) else (start + 1, length)

/-- The longest run of zeros is left out, if it is more than one. -/
def text : Address → Text
  | .v4 bytes => bytesText bytes
  | .v6 [0, 0, 0, 0, 0, 0xFFFF, a, b] =>
    "::ffff:".toList ++ bytesText [a / 256, a % 256, b / 256, b % 256]
  | .v6 groups =>
    let (start, length) := longestZeros groups
    if 1 < length then groupsText (groups.take start) ++ [':', ':'] ++
      groupsText (groups.drop (start + length))
    else groupsText groups

def withPort (a : Address) (port : Nat) : Text :=
  match a with
  | .v4 _ => a.text ++ ':' :: Text.ofNat port
  | .v6 _ => '[' :: a.text ++ ']' :: ':' :: Text.ofNat port

end Address
end StaticSite
