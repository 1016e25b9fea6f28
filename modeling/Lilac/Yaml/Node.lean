import Lilac.Yaml.Token

/-!
# YAML nodes

A node is a scalar, a sequence of nodes, or a mapping from nodes to nodes. Nodes are read from
tokens by recursive descent; a missing item, key or value is an empty plain scalar. Collections may
be nested only so deep.

Every call of a reader takes one unit of fuel, and a reader without any refuses the tokens as it
refuses those that are not well formed. That case does not arise: `first_fuel_irrelevant` says that
more fuel than `ofTokens` gives changes nothing.
-/

namespace Lilac

namespace Yaml

/-- A node of a YAML document. -/
inductive Node where
  | scalar (plain : Bool) (text : Text)
  | sequence (items : List Node)
  | mapping (pairs : List (Node × Node))
  deriving Repr

namespace Node

/-- The node that stands for nothing. -/
def empty : Node := .scalar true []

/-- Whether the next token is one of several. -/
def isNext (expected : List Token) (ts : List Token) : Bool := ts.head?.any (· ∈ expected)

/-- Why tokens cannot be read on: the text cannot be scanned here, or it is not well formed. -/
def stuck {α : Type} : List Token → Except Fault α
  | .unreadable fault :: _ => .error fault
  | _ => .error .malformed

/-- The tokens after the comma in front of an item; the first item has none. -/
def afterEntry (isFirst : Bool) (ts : List Token) : Except Fault (List Token) :=
  if isFirst then .ok ts
  else
    match ts with
    | .flowEntry :: rest => .ok rest
    | ts => stuck ts

/-- How many levels of collections there may be. -/
def nestingLimit : Nat := 489

/-- The number of levels that may follow inside a collection, given the number that may follow
outside. -/
def inside : Nat → Except Fault Nat
  | 0 => .error (.value .tooDeep)
  | depth + 1 => .ok depth

mutual

/-- Reads a node with at most `depth` levels of collections. Block collections are read only where
`block` says so, and a sequence without an indentation of its own only where `indentless` does. -/
def read (block indentless : Bool) (depth : Nat) :
    Nat → List Token → Except Fault (Node × List Token)
  | 0, _ => .error .malformed
  | n + 1, ts =>
    match ts with
    | .scalar plain text :: rest => .ok (.scalar plain text, rest)
    | .flowSequenceStart :: rest => do
      let (items, rest) ← flowItems true (← inside depth) n rest
      .ok (.sequence items, rest)
    | .flowMappingStart :: rest => do
      let (pairs, rest) ← flowPairs true (← inside depth) n rest
      .ok (.mapping pairs, rest)
    | .blockSequenceStart :: rest =>
      if block then do
        let (items, rest) ← blockItems (← inside depth) n rest
        .ok (.sequence items, rest)
      else stuck ts
    | .blockMappingStart :: rest =>
      if block then do
        let (pairs, rest) ← blockPairs (← inside depth) n rest
        .ok (.mapping pairs, rest)
      else stuck ts
    | .blockEntry :: _ =>
      if indentless then do
        let (items, rest) ← indentlessItems (← inside depth) n ts
        .ok (.sequence items, rest)
      else stuck ts
    | ts => stuck ts
termination_by structural fuel _ => fuel

/-- Reads a node, or nothing if one of certain tokens is next. -/
def readUnless (stops : List Token) (block indentless : Bool) (depth : Nat) :
    Nat → List Token → Except Fault (Node × List Token)
  | 0, _ => .error .malformed
  | n + 1, ts => if isNext stops ts then .ok (empty, ts) else read block indentless depth n ts
termination_by structural fuel _ => fuel

/-- Reads a value after its mark, or nothing if there is no mark. -/
def valueUnless (stops : List Token) (block : Bool) (depth : Nat) :
    Nat → List Token → Except Fault (Node × List Token)
  | 0, _ => .error .malformed
  | n + 1, ts =>
    match ts with
    | .value :: rest => readUnless stops block block depth n rest
    | ts => .ok (empty, ts)
termination_by structural fuel _ => fuel

/-- Reads the items of a block sequence and its end. -/
def blockItems (depth : Nat) : Nat → List Token → Except Fault (List Node × List Token)
  | 0, _ => .error .malformed
  | n + 1, ts =>
    match ts with
    | .blockEntry :: rest => do
      let (item, rest) ← readUnless [.blockEntry, .blockEnd] true false depth n rest
      let (items, rest) ← blockItems depth n rest
      .ok (item :: items, rest)
    | .blockEnd :: rest => .ok ([], rest)
    | ts => stuck ts
termination_by structural fuel _ => fuel

/-- Reads the items of a sequence that has no indentation of its own. -/
def indentlessItems (depth : Nat) : Nat → List Token → Except Fault (List Node × List Token)
  | 0, _ => .error .malformed
  | n + 1, ts =>
    match ts with
    | .blockEntry :: rest => do
      let (item, rest) ←
        readUnless [.blockEntry, .key, .value, .blockEnd] true false depth n rest
      let (items, rest) ← indentlessItems depth n rest
      .ok (item :: items, rest)
    | ts => .ok ([], ts)
termination_by structural fuel _ => fuel

/-- Reads the keys and values of a block mapping and its end. -/
def blockPairs (depth : Nat) : Nat → List Token → Except Fault (List (Node × Node) × List Token)
  | 0, _ => .error .malformed
  | n + 1, ts =>
    match ts with
    | .key :: rest => do
      let (key, rest) ← readUnless [.key, .value, .blockEnd] true true depth n rest
      let (value, rest) ← valueUnless [.key, .value, .blockEnd] true depth n rest
      let (pairs, rest) ← blockPairs depth n rest
      .ok ((key, value) :: pairs, rest)
    | .blockEnd :: rest => .ok ([], rest)
    | ts => stuck ts
termination_by structural fuel _ => fuel

/-- Reads the items of a flow sequence and its end. A key among the items makes a mapping of one
pair. -/
def flowItems (isFirst : Bool) (depth : Nat) :
    Nat → List Token → Except Fault (List Node × List Token)
  | 0, _ => .error .malformed
  | n + 1, ts =>
    match ts with
    | .flowSequenceEnd :: rest => .ok ([], rest)
    | ts => do
      match ← afterEntry isFirst ts with
      | .flowSequenceEnd :: rest => .ok ([], rest)
      | .key :: rest =>
        let within ← inside depth
        let (key, rest) ←
          readUnless [.value, .flowEntry, .flowSequenceEnd] false false within n rest
        let (value, rest) ← valueUnless [.flowEntry, .flowSequenceEnd] false within n rest
        let (items, rest) ← flowItems false depth n rest
        .ok (.mapping [(key, value)] :: items, rest)
      | ts =>
        let (item, rest) ← read false false depth n ts
        let (items, rest) ← flowItems false depth n rest
        .ok (item :: items, rest)
termination_by structural fuel _ => fuel

/-- Reads the keys and values of a flow mapping and its end. -/
def flowPairs (isFirst : Bool) (depth : Nat) :
    Nat → List Token → Except Fault (List (Node × Node) × List Token)
  | 0, _ => .error .malformed
  | n + 1, ts =>
    match ts with
    | .flowMappingEnd :: rest => .ok ([], rest)
    | ts => do
      match ← afterEntry isFirst ts with
      | .flowMappingEnd :: rest => .ok ([], rest)
      | .key :: rest =>
        let (key, rest) ←
          readUnless [.value, .flowEntry, .flowMappingEnd] false false depth n rest
        let (value, rest) ← valueUnless [.flowEntry, .flowMappingEnd] false depth n rest
        let (pairs, rest) ← flowPairs false depth n rest
        .ok ((key, value) :: pairs, rest)
      | ts =>
        let (key, rest) ← read false false depth n ts
        let (pairs, rest) ← flowPairs false depth n rest
        .ok ((key, empty) :: pairs, rest)
termination_by structural fuel _ => fuel

end

/-- Reads the content of a document whose start is marked, which may be absent. -/
def marked (fuel : Nat) (ts : List Token) : Except Fault (Node × List Token) :=
  if ts = [] ∨ isNext [.documentStart, .documentEnd] ts then .ok (empty, ts)
  else read true false nestingLimit fuel ts

/-- Reads the first document. A text without a document stands for the empty one. -/
def first (fuel : Nat) : List Token → Except Fault (Node × List Token)
  | [] => .ok (empty, [])
  | .documentStart :: ts => marked fuel ts
  | ts => read true false nestingLimit fuel ts

/-- The single document that tokens make up. -/
def ofTokens (ts : List Token) : Except Fault Node := do
  let (node, rest) ← first (3 * ts.length + 3) ts
  let rest := rest.dropWhile (· = .documentEnd)
  if rest = [] then .ok node else stuck rest

/-- The document of a YAML text. -/
def parse (t : Text) : Except Fault Node := ofTokens (tokens t)

end Node

end Yaml

end Lilac
