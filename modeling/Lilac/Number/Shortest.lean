import Lilac.Number.Double

/-!
# The shortest decimal of a double

The shortest decimal that reads back as a given magnitude lies on the coarsest grid of powers of
ten that holds such a decimal at all, next to the magnitude. Where both neighbours on that grid
read back, the nearer one is taken, and the even one if they are equally near. Every candidate is
read back before it is accepted, and the exact binary expansion stands behind the search, so the
result always reads back.
-/

namespace Lilac

namespace Magnitude

/-- The magnitude written out exactly. -/
def exactly (x : Magnitude) : Decimal := ⟨x.units * Nat.pow 5 1074, -1074⟩

/-- Whether a decimal is read as this magnitude. -/
def reads (x : Magnitude) (d : Decimal) : Bool := d.nearestRank = x.rank

/-- The neighbour of the magnitude on the grid of multiples of `10 ^ power` that reads back, the
better one if both do. -/
def onGrid? (x : Magnitude) (power : Int) : Option Decimal :=
  let n := x.units * Nat.pow 10 (-power).toNat
  let d := Nat.pow 2 1074 * Nat.pow 10 power.toNat
  let below : Decimal := ⟨n / d, power⟩
  let above : Decimal := ⟨n / d + 1, power⟩
  if x.reads below then
    if x.reads above && roundHalfEven n d ≠ n / d then some above else some below
  else if x.reads above then some above
  else none

/-- A power of ten that is at least as large as the magnitude. -/
def topPower (x : Magnitude) : Int :=
  (((x.units.log2 : Int) + 1 - 1074) * 30103).fdiv 100000 + 1

/-- The grids to search, coarsest first: seventeen digits always suffice. -/
def grids (x : Magnitude) : List Int := (List.range 22).map fun (i : Nat) ↦ x.topPower - i

/-- The decimal with the fewest digits that is read as this magnitude. -/
def shortest (x : Magnitude) : Decimal :=
  if x.rank = 0 then ⟨0, 0⟩ else (x.grids.findSome? x.onGrid?).getD x.exactly

end Magnitude

namespace Double

/-- The sign of a number in front of a text. -/
def signed (negative : Bool) (t : Text) : Text := if negative then '-' :: t else t

/-- The shortest text that reads back as the double: positional while the leading digit stands for
a power of ten from -4 up to 15, with an exponent otherwise. -/
def text : Double → Text
  | .finite negative x =>
    let d := x.shortest
    signed negative
      (if -4 ≤ d.leadingExponent ∧ d.leadingExponent < 16 then d.positional else d.scientific)
  | .infinite negative => signed negative "inf".toList
  | .nan => "nan".toList

end Double

end Lilac
