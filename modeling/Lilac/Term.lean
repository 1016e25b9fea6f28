import Lilac.Literal

/-!
# Terms

A term is a literal or a call of a named function on arguments. An argument whose text could not be
read is a hole, which is printed as a question mark and never reads as a term.

Specification: `SPEC_FULL.md`, section 3.
-/

namespace Lilac

/-- A literal, or a call whose arguments are terms or holes. Follows `FunctionCall`. -/
inductive Term where
  /-- A literal. -/
  | literal (literal : Literal)
  /-- A call; `none` stands for an argument that could not be read. -/
  | call (name : Text) (arguments : List (Option Term))
  deriving Repr

namespace Term

mutual

/-- Equality of terms is decided part by part. -/
def decEq : (a b : Term) → Decidable (a = b)
  | .literal l, .literal m =>
    if h : l = m then .isTrue (by rw [h]) else .isFalse fun e ↦ h (Term.literal.inj e)
  | .call f xs, .call g ys =>
    if h : f = g then
      match decEqArguments xs ys with
      | .isTrue e => .isTrue (by rw [h, e])
      | .isFalse e => .isFalse fun eq ↦ e (Term.call.inj eq).2
    else .isFalse fun eq ↦ h (Term.call.inj eq).1
  | .literal _, .call _ _ => .isFalse nofun
  | .call _ _, .literal _ => .isFalse nofun

/-- Equality of argument lists is decided argument by argument. -/
def decEqArguments : (xs ys : List (Option Term)) → Decidable (xs = ys)
  | [], [] => .isTrue rfl
  | none :: xs, none :: ys =>
    match decEqArguments xs ys with
    | .isTrue h => .isTrue (by rw [h])
    | .isFalse h => .isFalse fun e ↦ h (List.cons.inj e).2
  | some x :: xs, some y :: ys =>
    match decEq x y, decEqArguments xs ys with
    | .isTrue h, .isTrue h' => .isTrue (by rw [h, h'])
    | .isFalse h, _ => .isFalse fun e ↦ h (Option.some.inj (List.cons.inj e).1)
    | _, .isFalse h => .isFalse fun e ↦ h (List.cons.inj e).2
  | [], _ :: _ => .isFalse nofun
  | _ :: _, [] => .isFalse nofun
  | none :: _, some _ :: _ => .isFalse nofun
  | some _ :: _, none :: _ => .isFalse nofun

end

instance : DecidableEq Term := decEq

mutual

/-- How deeply calls nest in a term: a literal has depth 0, a call is one deeper than its deepest
argument. -/
def depth : Term → Nat
  | .literal _ => 0
  | .call _ arguments => argumentsDepth arguments + 1

/-- The depth of the deepest argument. -/
def argumentsDepth : List (Option Term) → Nat
  | [] => 0
  | none :: rest => argumentsDepth rest
  | some t :: rest => max t.depth (argumentsDepth rest)

end

mutual

/-- The source text of a term, if all its literals have one. Follows `format_term`. -/
def print? : Term → Option Text
  | .literal l => l.print?
  | .call name arguments => do
    let texts ← printArguments? arguments
    some (name ++ '(' :: Text.join [',', ' '] texts ++ [')'])

/-- The source texts of the arguments of a call; a hole is a question mark. -/
def printArguments? : List (Option Term) → Option (List Text)
  | [] => some []
  | none :: rest => do
    let texts ← printArguments? rest
    some (['?'] :: texts)
  | some t :: rest => do
    let text ← t.print?
    let texts ← printArguments? rest
    some (text :: texts)

end

end Term

end Lilac
