import Lilac.Value

/-!
# Plain data

Syntax trees are exchanged as plain data: null, scalars, lists, and records with named fields. A
record is looked up by field name, and fields nobody asks for are ignored.
-/

namespace Lilac

/-- A tree of plain data. -/
inductive Data where
  /-- The absence of a value. -/
  | null
  /-- A scalar. -/
  | scalar (value : Value)
  /-- A list. -/
  | list (items : List Data)
  /-- A record, field by field. -/
  | record (fields : List (Text × Data))
  deriving Inhabited, Repr

namespace Data

/-- A string as plain data. -/
def text (t : Text) : Data := .scalar (.str t)

/-- A list of strings as plain data. -/
def texts (ts : List Text) : Data := .list (ts.map text)

/-- The field of a record with a given name. -/
def field? (name : Text) : List (Text × Data) → Option Data
  | [] => none
  | (key, d) :: rest => if key = name then some d else field? name rest

/-- A field is smaller than the fields it is taken from. -/
theorem sizeOf_field? {name : Text} {fields : List (Text × Data)} {d : Data}
    (h : field? name fields = some d) : sizeOf d < sizeOf fields := by
  induction fields with
  | nil => cases h
  | cons entry rest ih =>
    obtain ⟨key, value⟩ := entry
    simp only [field?] at h
    split at h
    · obtain rfl := Option.some.inj h
      simp
      omega
    · have := ih h
      simp
      omega

end Data

end Lilac
