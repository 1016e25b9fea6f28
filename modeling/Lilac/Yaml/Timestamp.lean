import Lilac.Calendar
import Lilac.Text.Basic

/-!
# Timestamps

A timestamp is a day in the form `2001-02-03`, or a day and a time in the form
`2001-2-3 4:05:06.7 +8:09`. In the longer form the month, the day and the hours may have one digit,
the letter `T` may stand between day and time, and the fraction and the zone may be absent.
-/

namespace Lilac

namespace Yaml

namespace Timestamp

open Calendar

private def isSpace (c : Char) : Bool := c = ' ' || c = '\t'

private def takeDigits? (count : Nat) (t : Text) : Option (Nat × Text) :=
  if count ≤ t.length ∧ (t.take count).all isAsciiDigit then
    some (ofAsciiDigits (t.take count), t.drop count)
  else none

private def takeNumber? (t : Text) : Option (Nat × Text) := takeDigits? 2 t <|> takeDigits? 1 t

private def takeChar? (expected : Char) : Text → Option Text
  | c :: t => if c = expected then some t else none
  | [] => none

/-- A day in the form `2001-02-03`. -/
private def day? (t : Text) : Option Moment := do
  let (year, t) ← takeDigits? 4 t
  let (month, t) ← takeDigits? 2 (← takeChar? '-' t)
  let (day, t) ← takeDigits? 2 (← takeChar? '-' t)
  if t = [] then some ⟨⟨year, month, day⟩, none, none⟩ else none

/-- What follows the mark between a day and a time: a letter or blanks. -/
private def takeMark? : Text → Option Text
  | c :: t =>
    if c = 'T' ∨ c = 't' then some t else if isSpace c then some (t.dropWhile isSpace) else none
  | [] => none

private def dropFraction : Text → Text
  | '.' :: t => t.dropWhile isAsciiDigit
  | t => t

/-- The minutes of an offset, which may be absent. -/
def offsetMinutes? : Text → Option Nat
  | [] => some 0
  | ':' :: t => do
    let (minutes, t) ← takeDigits? 2 t
    if t = [] then some minutes else none
  | _ => none

/-- The offset of a zone in minutes, after its sign. -/
private def offset? (t : Text) : Option Nat := do
  let (hours, t) ← takeNumber? t
  let minutes ← offsetMinutes? t
  some (60 * hours + minutes)

/-- The offset of a zone. The zone may be absent or the letter `Z`, and then there is none. -/
def zone? (t : Text) : Option (Option Int) :=
  match t, t.dropWhile isSpace with
  | [], _ => some none
  | _, ['Z'] => some none
  | _, '+' :: t => (offset? t).map fun n ↦ some n
  | _, '-' :: t => (offset? t).map fun n ↦ some (-n)
  | _, _ => none

/-- A day and a time in the longer form. -/
def dayTime? (t : Text) : Option Moment := do
  let (year, t) ← takeDigits? 4 t
  let (month, t) ← takeNumber? (← takeChar? '-' t)
  let (day, t) ← takeNumber? (← takeChar? '-' t)
  let (hour, t) ← takeNumber? (← takeMark? t)
  let (minute, t) ← takeDigits? 2 (← takeChar? ':' t)
  let (second, t) ← takeDigits? 2 (← takeChar? ':' t)
  let offset ← zone? (dropFraction t)
  some ⟨⟨year, month, day⟩, some ⟨hour, minute, second⟩, offset⟩

/-- The moment that a text has the form of, whether there is such a moment or not. -/
def read? (t : Text) : Option Moment := day? t <|> dayTime? t

end Timestamp

end Yaml

end Lilac
