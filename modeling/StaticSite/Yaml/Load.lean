import StaticSite.Yaml.Node
import StaticSite.Yaml.Value

/-! From the structure of a document to its value: what plain scalars mean, and what aliases stand
for. -/
namespace StaticSite.Yaml

namespace Scalar

def isNull (t : Text) : Bool := ["null", "Null", "NULL", "~"].any (·.toList == t)

def bool? (t : Text) : Option Bool :=
  if ["true", "True", "TRUE"].any (·.toList == t) then some true
  else if ["false", "False", "FALSE"].any (·.toList == t) then some false
  else none

def digitValue? (radix : Nat) (c : Char) : Option Nat :=
  match hexDigit? c with
  | some d => if d < radix then some d else none
  | none => none

def natural? (radix : Nat) (t : Text) : Option Nat :=
  if t = [] then none else t.foldlM (fun n c => (digitValue? radix c).map fun d => n * radix + d) 0

/-- Digits after a leading zero are no number. -/
def isPadded (t : Text) : Bool :=
  match t with
  | '-' :: '0' :: d :: ds => (d :: ds).all Char.isDigit
  | '+' :: '0' :: d :: ds => (d :: ds).all Char.isDigit
  | '0' :: d :: ds => (d :: ds).all Char.isDigit
  | _ => false

def radix? (t : Text) : Option (Nat × Text) :=
  match t with
  | '0' :: 'x' :: t => some (16, t)
  | '0' :: 'o' :: t => some (8, t)
  | '0' :: 'b' :: t => some (2, t)
  | _ => none

def magnitude? (t : Text) : Option Nat :=
  match radix? t with
  | some (r, t) => natural? r t
  | none => natural? 10 t

def int? (t : Text) : Option Int :=
  if isPadded t then none
  else match t with
    | '-' :: t => (magnitude? t).map fun n => -(n : Int)
    | '+' :: t => (magnitude? t).map fun n => (n : Int)
    | t => (magnitude? t).map fun n => (n : Int)

/-- Integers of 64 bits are numbers. Larger ones of 128 bits are refused, and beyond that a decimal
is read as a floating-point number. -/
inductive Size
  | fits
  | refused
  | beyond

def sizeOf : Int → Size
  | .ofNat n => if n < 1 <<< 64 then .fits else if n < 1 <<< 128 then .refused else .beyond
  | .negSucc n => if n < 1 <<< 63 then .fits else if n < 1 <<< 127 then .refused else .beyond

def float? (t : Text) : Option Number :=
  let (signs, body) := match t with
    | '+' :: r => (true, r)
    | r => (false, r)
  let signedTwice := signs && (body.head? == some '+' || body.head? == some '-')
  if signedTwice then none
  else if [".inf", ".Inf", ".INF"].any (·.toList == body) then some (.infinite false)
  else if ["-.inf", "-.Inf", "-.INF"].any (·.toList == t) then some (.infinite true)
  else if [".nan", ".NaN", ".NAN"].any (·.toList == t) then some .nan
  else (Binary64.parse? body).map .float

/-- An integer in a scalar that must be one, or might be: the outer option is for integers that are
refused. -/
def number? (t : Text) : Option (Option Number) :=
  match int? t with
  | some n =>
    match sizeOf n with
    | .fits => some (some (.int n))
    | .refused => none
    | .beyond => some none
  | none => some none

def plain (t : Text) : Option Value :=
  if t = [] || isNull t then some .null
  else match bool? t with
    | some b => some (.bool b)
    | none =>
      match number? t with
      | none => none
      | some (some n) => some (.number n)
      | some none =>
        match (if isPadded t then none else float? t) with
        | some n => some (.number n)
        | none => some (.string t)

/-- A scalar with a tag of the language. Other tags make it a text. -/
def typed (tag t : Text) : Option Value :=
  let standard := fun (name : String) => tag = "tag:yaml.org,2002:".toList ++ name.toList
  if standard "bool" then (bool? t).map .bool
  else if standard "int" then (number? t).bind fun n => n.map .number
  else if standard "float" then (float? t).map .number
  else if standard "null" then if isNull t then some .null else none
  else some (.string t)

end Scalar

/-- The part of a tag that names a user's type: it begins with an exclamation mark. -/
def userTag? : Option Text → Option Text
  | some ['!'] => some ['!']
  | some ('!' :: t) => some t
  | _ => none

/-- Names of anchors with their numbers. An anchor's number is how many names there are before it,
so one that follows a repeated name shares its number with that; the later node counts then. -/
abbrev Names := List (Text × Nat)

def Names.add (names : Names) (name : Text) : Names :=
  (name, names.length) :: names.filter (·.1 ≠ name)

def Properties.number (names : Names) (p : Properties) : Properties × Names :=
  match p.anchor with
  | none => (p, names)
  | some name => ({ p with anchor := some (Text.ofNat names.length) }, names.add name)

mutual
/-- Puts numbers for the names of anchors and aliases. An alias needs an anchor before it. -/
def Node.number (names : Names) : Node → Option (Node × Names)
  | .alias name => (names.lookup name).map fun i => (.alias (Text.ofNat i), names)
  | .scalar p plain t => let (p, names) := p.number names; some (.scalar p plain t, names)
  | .sequence p xs => do
    let (p, names) := p.number names
    let (xs, names) ← Node.numberAll names xs
    return (.sequence p xs, names)
  | .mapping p ps => do
    let (p, names) := p.number names
    let (ps, names) ← Node.numberPairs names ps
    return (.mapping p ps, names)

def Node.numberAll (names : Names) : List Node → Option (List Node × Names)
  | [] => some ([], names)
  | x :: xs => do
    let (x, names) ← Node.number names x
    let (xs, names) ← Node.numberAll names xs
    return (x :: xs, names)

def Node.numberPairs (names : Names) : List (Node × Node) → Option (List (Node × Node) × Names)
  | [] => some ([], names)
  | (k, v) :: ps => do
    let (k, names) ← Node.number names k
    let (v, names) ← Node.number names v
    let (ps, names) ← Node.numberPairs names ps
    return ((k, v) :: ps, names)
end

mutual
def Node.nodes : Node → List Node
  | .alias name => [.alias name]
  | .scalar p plain t => [.scalar p plain t]
  | .sequence p xs => .sequence p xs :: Node.nodesAll xs
  | .mapping p ps => .mapping p ps :: Node.nodesPairs ps

def Node.nodesAll : List Node → List Node
  | [] => []
  | x :: xs => Node.nodes x ++ Node.nodesAll xs

def Node.nodesPairs : List (Node × Node) → List Node
  | [] => []
  | (k, v) :: ps => Node.nodes k ++ Node.nodes v ++ Node.nodesPairs ps
end

def Node.anchor? : Node → Option Text
  | .alias _ => none
  | .scalar p _ _ => p.anchor
  | .sequence p _ => p.anchor
  | .mapping p _ => p.anchor

def followLimit : List Node → Nat
  | [] => 0
  | .sequence _ _ :: nodes => 200 + followLimit nodes
  | .mapping _ _ :: nodes => 200 + followLimit nodes
  | _ :: nodes => 100 + followLimit nodes

/-- The node that an alias stands for. The state counts the aliases that were followed. -/
def follow (nodes : List Node) (n : Node) : StateT Nat Option Node :=
  match n with
  | .alias i => fun used =>
    if followLimit nodes < used + 1 then none
    else (nodes.reverse.find? fun n => n.anchor? == some i).map fun n => (n, used + 1)
  | n => pure n

def withTag (p : Properties) (v : Value) : Value :=
  match userTag? p.tag with
  | some tag => .tagged tag v
  | none => v

def scalarValue (p : Properties) (isPlain : Bool) (t : Text) : Option Value :=
  match userTag? p.tag, p.tag with
  | some tag, _ => (if isPlain then Scalar.plain t else some (.string t)).map (.tagged tag)
  | none, some tag => Scalar.typed tag t
  | none, none => if isPlain then Scalar.plain t else some (.string t)

/-- The value of a node with at most `depth` collections in each other, their keys all different. -/
def Node.value (nodes : List Node) : Nat → Node → StateT Nat Option Value
  | 0, n => do
    match ← follow nodes n with
    | .scalar p isPlain t => StateT.lift (scalarValue p isPlain t)
    | _ => failure
  | depth + 1, n => do
    match ← follow nodes n with
    | .alias _ => failure
    | .scalar p isPlain t => StateT.lift (scalarValue p isPlain t)
    | .sequence p xs => do
      let vs ← xs.mapM (Node.value nodes depth)
      return withTag p (.sequence vs)
    | .mapping p ps => do
      let pairs ← ps.foldlM (fun pairs (k, v) => do
        let k ← Node.value nodes depth k
        if k.hasKey pairs then failure
        let v ← Node.value nodes depth v
        return pairs ++ [(k, v)]) []
      return withTag p (.mapping pairs)

/-- The value of the only document in a text, an empty one being null. -/
def load? (t : Text) : Option Value := do
  let ts ← tokens t
  match ← Node.ofTokens? ts with
  | none => return .null
  | some n =>
    let (n, _) ← n.number []
    let (v, _) ← (Node.value n.nodes 128 n).run 0
    return v

end StaticSite.Yaml
