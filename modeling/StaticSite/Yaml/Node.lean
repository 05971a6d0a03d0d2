import StaticSite.Yaml.Token

/-! The structure of a document: scalars and collections with their anchors and tags, and
aliases. -/
namespace StaticSite.Yaml

structure Properties where
  anchor : Option Text
  tag : Option Text
  deriving Repr

inductive Node
  | alias (name : Text)
  | scalar (p : Properties) (plain : Bool) (text : Text)
  | sequence (p : Properties) (items : List Node)
  | mapping (p : Properties) (pairs : List (Node × Node))
  deriving Repr

namespace Node

def bare : Properties := ⟨none, none⟩

def missing : Node := .scalar bare true []

def resolveTag? (handle suffix : Text) : Option Text :=
  match handle with
  | [] => some suffix
  | ['!'] => some ('!' :: suffix)
  | ['!', '!'] => some ("tag:yaml.org,2002:".toList ++ suffix)
  | _ => none

/-- Anchor and tag in either order, each at most once. -/
def properties : List Token → Option (Properties × List Token)
  | .anchor a :: .tag h s :: ts => (resolveTag? h s).map fun t => (⟨some a, some t⟩, ts)
  | .tag h s :: .anchor a :: ts => (resolveTag? h s).map fun t => (⟨some a, some t⟩, ts)
  | .anchor a :: ts => some (⟨some a, none⟩, ts)
  | .tag h s :: ts => (resolveTag? h s).map fun t => (⟨none, some t⟩, ts)
  | ts => some (bare, ts)

def endsBlockNode : List Token → Bool
  | .key :: _ => true
  | .value :: _ => true
  | .blockEnd :: _ => true
  | _ => false

def endsEntry : List Token → Bool
  | .entry :: _ => true
  | .blockEnd :: _ => true
  | _ => false

def endsFlowItem (closing : Token) : List Token → Bool
  | .comma :: _ => true
  | t :: _ => t == closing
  | [] => false

mutual
/-- A node. Only inside blocks may it be a block; with `flush` it may be a sequence that is not
indented further than its key. -/
def read (inBlock flush : Bool) (ts : List Token) : Nat → Option (Node × List Token)
  | 0 => none
  | fuel + 1 =>
    match ts with
    | .alias name :: ts => some (.alias name, ts)
    | ts =>
      match properties ts with
      | none => none
      | some (p, .scalar plain text :: ts) => some (.scalar p plain text, ts)
      | some (p, .flowSequence :: ts) =>
        (readFlowItems true ts fuel).map fun (xs, ts) => (.sequence p xs, ts)
      | some (p, .flowMapping :: ts) =>
        (readFlowPairs true ts fuel).map fun (xs, ts) => (.mapping p xs, ts)
      | some (p, ts) =>
        match inBlock, flush, ts with
        | _, true, .entry :: _ =>
          (readEntries true ts fuel).map fun (xs, ts) => (.sequence p xs, ts)
        | true, _, .sequence :: ts =>
          (readEntries false ts fuel).map fun (xs, ts) => (.sequence p xs, ts)
        | true, _, .mapping :: ts => (readPairs ts fuel).map fun (xs, ts) => (.mapping p xs, ts)
        | _, _, ts => if p.anchor.isSome || p.tag.isSome then some (.scalar p true [], ts) else none

def readEntries (flush : Bool) (ts : List Token) : Nat → Option (List Node × List Token)
  | 0 => none
  | fuel + 1 =>
    match ts with
    | .entry :: ts =>
      if endsEntry ts || (flush && endsBlockNode ts) then
        (readEntries flush ts fuel).map fun (xs, ts) => (missing :: xs, ts)
      else do
        let (x, ts) ← read true false ts fuel
        let (xs, ts) ← readEntries flush ts fuel
        return (x :: xs, ts)
    | .blockEnd :: rest => if flush then some ([], ts) else some ([], rest)
    | ts => if flush then some ([], ts) else none

def readPairs (ts : List Token) : Nat → Option (List (Node × Node) × List Token)
  | 0 => none
  | fuel + 1 =>
    match ts with
    | .blockEnd :: ts => some ([], ts)
    | .key :: ts => do
      let (k, ts) ← if endsBlockNode ts then some (missing, ts) else read true true ts fuel
      let (v, ts) ← match ts with
        | .value :: ts => if endsBlockNode ts then some (missing, ts) else read true true ts fuel
        | ts => some (missing, ts)
      let (ps, ts) ← readPairs ts fuel
      return ((k, v) :: ps, ts)
    | _ => none

/-- The items of a sequence in brackets. A pair among them is a mapping of its own. -/
def readFlowItems (first : Bool) (ts : List Token) : Nat → Option (List Node × List Token)
  | 0 => none
  | fuel + 1 =>
    match first, ts with
    | _, .flowSequenceEnd :: ts => some ([], ts)
    | true, ts => readFlowItem ts fuel
    | false, .comma :: .flowSequenceEnd :: ts => some ([], ts)
    | false, .comma :: ts => readFlowItem ts fuel
    | false, _ => none

def readFlowItem (ts : List Token) : Nat → Option (List Node × List Token)
  | 0 => none
  | fuel + 1 =>
    match ts with
    | .key :: ts => do
      let (k, ts) ← match ts with
        | .value :: ts => some (missing, ts)
        | ts =>
          if endsFlowItem .flowSequenceEnd ts then some (missing, ts.drop 1)
            else read false false ts fuel
      let (v, ts) ← match ts with
        | .value :: ts =>
          if endsFlowItem .flowSequenceEnd ts then some (missing, ts) else read false false ts fuel
        | ts => some (missing, ts)
      let (xs, ts) ← readFlowItems false ts fuel
      return (.mapping bare [(k, v)] :: xs, ts)
    | ts => do
      let (x, ts) ← read false false ts fuel
      let (xs, ts) ← readFlowItems false ts fuel
      return (x :: xs, ts)

def readFlowPairs (first : Bool) (ts : List Token) : Nat → Option (List (Node × Node) × List Token)
  | 0 => none
  | fuel + 1 =>
    match first, ts with
    | _, .flowMappingEnd :: ts => some ([], ts)
    | true, ts => readFlowPair ts fuel
    | false, .comma :: .flowMappingEnd :: ts => some ([], ts)
    | false, .comma :: ts => readFlowPair ts fuel
    | false, _ => none

def readFlowPair (ts : List Token) : Nat → Option (List (Node × Node) × List Token)
  | 0 => none
  | fuel + 1 =>
    match ts with
    | .key :: ts => do
      let (k, ts) ← match ts with
        | .value :: _ => some (missing, ts)
        | ts =>
          if endsFlowItem .flowMappingEnd ts then some (missing, ts) else read false false ts fuel
      let (v, ts) ← match ts with
        | .value :: ts =>
          if endsFlowItem .flowMappingEnd ts then some (missing, ts) else read false false ts fuel
        | ts => some (missing, ts)
      let (ps, ts) ← readFlowPairs false ts fuel
      return ((k, v) :: ps, ts)
    | ts => do
      let (k, ts) ← read false false ts fuel
      let (ps, ts) ← readFlowPairs false ts fuel
      return ((k, missing) :: ps, ts)
end

def ofTokens? (ts : List Token) : Option (Option Node) :=
  match ts with
  | [] => some none
  | ts =>
    match read true false ts (4 * ts.length + 8) with
    | some (n, rest) => if rest.all (· == .documentEnd) then some (some n) else none
    | none => none

end Node
end StaticSite.Yaml
