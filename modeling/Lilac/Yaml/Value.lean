import Lilac.Yaml
import Lilac.Yaml.Node

/-!
# YAML values

The value of a document is built from its nodes: plain scalars stand for what they resolve to, other
scalars are strings. A mapping keeps its entries in order, and of entries with one key the last
counts. Keys must be scalars, and the key `<<` merges the entries of other mappings in front of the
mapping's own.

Of several faults the outermost counts, and of those at one depth the first. A collection comes
into being before what it holds, so a fault in it shows only when everything around it is in order.

This is the reader that the standard platform supplies. It leaves out anchors and aliases, tags,
block scalars, directives and escapes of surrogates: a text with one of them is refused as if it
were not well formed. That collections nest at most `Node.nestingLimit` deep is a limit of this
reader only, and so is the explanation it gives.
-/

namespace Lilac

namespace Yaml

namespace Value

/-- The value of a resolved plain scalar; the two marks have none. -/
def ofScalar : Scalar → Except Fault Value
  | .null => .ok .null
  | .bool b => .ok (.bool b)
  | .int n => .ok (.int n)
  | .other => .ok .other
  | .str t => .ok (.str t)
  | .merge => .error .malformed
  | .default => .error .malformed

private def ofText (plain : Bool) (t : Text) : Except Fault Value :=
  if plain then (Scalar.resolve t).mapError .value >>= ofScalar else .ok (.str t)

/-- The value of a scalar that is a key, where the mark of a default value is a string. -/
private def ofKey (plain : Bool) (t : Text) : Except Fault Value :=
  if t = ['='] then .ok (.str t) else ofText plain t

end Value

/-- A value under construction: merges are done, and scalars have their values or faults. -/
inductive Draft where
  | scalar (value : Except Fault Value)
  | list (items : List Draft)
  | map (entries : List (Draft × Draft))
  /-- A collection that cannot be: a mapping that merges what is no mapping, or a key that is no
  scalar. -/
  | misplaced

namespace Draft

/-! ## From nodes -/

private def isMerge : Node → Bool
  | .scalar plain t => plain && t = ['<', '<']
  | _ => false

private def ofKey : Node → Draft
  | .scalar plain t => .scalar (Value.ofKey plain t)
  | _ => .misplaced

private def entries? : Draft → Option (List (Draft × Draft))
  | .map entries => some entries
  | _ => none

/-- The entries that a merged draft brings in: those of a mapping, or of several mappings, the last
one first. -/
def mergedEntries? : Draft → Option (List (Draft × Draft))
  | .list items => (items.mapM entries?).map (·.reverse.flatten)
  | d => d.entries?

mutual

/-- The draft of a node. -/
def ofNode : Node → Draft
  | .scalar plain t => .scalar (Value.ofText plain t)
  | .sequence items => .list (ofItems items)
  | .mapping pairs =>
    match ofPairs? pairs with
    | some (merged, own) => .map (merged ++ own)
    | none => .misplaced

private def ofItems : List Node → List Draft
  | [] => []
  | item :: rest => ofNode item :: ofItems rest

/-- The entries of a mapping: those merged into it, and its own. -/
def ofPairs? : List (Node × Node) → Option (List (Draft × Draft) × List (Draft × Draft))
  | [] => some ([], [])
  | (k, v) :: rest => do
    let (merged, own) ← ofPairs? rest
    if isMerge k then some ((← (ofNode v).mergedEntries?) ++ merged, own)
    else some (merged, (ofKey k, ofNode v) :: own)

end

/-! ## Faults -/

private def scalarFault? : Draft → Option Fault
  | .scalar (.error fault) => some fault
  | _ => none

private def keyFault? : Draft → Option Fault
  | .scalar (.error fault) => some fault
  | .scalar (.ok _) => none
  | _ => some .malformed

/-- The first fault of a collection that does not lie in a collection inside it. -/
private def ownFault? : Draft → Option Fault
  | .scalar _ => none
  | .list items => items.findSome? scalarFault?
  | .map entries => entries.findSome? fun (k, v) ↦ k.keyFault? <|> v.scalarFault?
  | .misplaced => some .malformed

private def isCollection : Draft → Bool
  | .scalar _ => false
  | _ => true

private def inner : Draft → List Draft
  | .list items => items.filter isCollection
  | .map entries => (entries.map (·.2)).filter isCollection
  | _ => []

/-- The first fault of collections at one depth, or below them. The first argument bounds the
depth. -/
def faultBelow? : Nat → List Draft → Option Fault
  | 0, _ => none
  | n + 1, level => level.findSome? ownFault? <|> faultBelow? n (level.flatMap inner)

mutual

/-- How deeply collections nest in a draft. -/
def depth : Draft → Nat
  | .list items => itemsDepth items + 1
  | .map entries => entriesDepth entries + 1
  | _ => 1

private def itemsDepth : List Draft → Nat
  | [] => 0
  | item :: rest => max item.depth (itemsDepth rest)

private def entriesDepth : List (Draft × Draft) → Nat
  | [] => 0
  | (_, v) :: rest => max v.depth (entriesDepth rest)

end

/-- The fault of a draft that counts. -/
def fault? (d : Draft) : Option Fault := d.scalarFault? <|> faultBelow? d.depth [d]

/-! ## Values -/

mutual

/-- The value of a draft without faults. -/
def value : Draft → Value
  | .scalar (.ok v) => v
  | .scalar (.error _) => .null
  | .list items => .list (itemValues items)
  | .map entries => .map (entryValues entries)
  | .misplaced => .null

private def itemValues : List Draft → List Value
  | [] => []
  | item :: rest => item.value :: itemValues rest

private def entryValues : List (Draft × Draft) → List (Value × Value)
  | [] => []
  | (k, v) :: rest => (k.value, v.value) :: entryValues rest

end

/-- The value of a draft, or the fault that counts. -/
def finish (d : Draft) : Except Fault Value :=
  match d.fault? with
  | some fault => .error fault
  | none => .ok d.value

end Draft

/-- The value of a YAML text. -/
def Value.parse (t : Text) : Except Fault Value := do (Draft.ofNode (← Node.parse t)).finish

/-- The reader of this library. -/
def read : Reader := fun t ↦ (Value.parse t).mapError Fault.refusal

end Yaml

end Lilac
