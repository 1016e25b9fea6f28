import Lilac.Data.Encoding

/-!
# Reading syntax trees from plain data

Every part of a syntax tree is read from its record field by field, in the order of declaration, and
everything that does not fit is listed with the path to it. Nothing is converted: a string field
takes a string and nothing else. List fields may be absent and are then empty; a field that is
present must fit. Fields without a meaning are ignored. A call may nest as deeply as it likes: the
guard against data that nest more than 255 levels deep is left out.

Specification: `SPEC_FULL.md`, section 3.
-/

namespace Lilac

/-- Why a piece of data does not fit. -/
inductive MismatchKind where
  /-- A required field is absent. -/
  | absent
  /-- A string is required. -/
  | notString
  /-- A list is required. -/
  | notList
  /-- The value of a literal is no boolean. -/
  | notBool
  /-- The value of a literal is no integer. -/
  | notInt
  /-- The value of a literal is no double. -/
  | notFloat
  /-- The kind of a literal or of a call is a different one. -/
  | wrongTag
  /-- There is no such kind of literals. -/
  | unknownLiteralKind
  /-- A record is required. -/
  | notRecord
  /-- A term is required, and this is no record. -/
  | notTerm
  /-- A term is required, and this record has no kind. -/
  | untagged
  /-- A term is required, and there is no such kind of terms. -/
  | unknownTag
  deriving DecidableEq, Repr

/-- Something that does not fit, with the path that leads to it. -/
structure Mismatch where
  path : List Text
  kind : MismatchKind
  deriving DecidableEq, Repr

/-- The result of reading data: what was read, or everything that does not fit. -/
abbrev Reading (α : Type) := Except (List Mismatch) α

namespace Reading

variable {α β γ : Type}

/-- The failure to read the data at hand. -/
def fail (kind : MismatchKind) : Reading α := .error [⟨[], kind⟩]

/-- Extends the paths of what does not fit by a step at their beginning. -/
def under (step : Text) : Reading α → Reading α :=
  Except.mapError (·.map fun m ↦ ⟨step :: m.path, m.kind⟩)

/-- Two readings together; what does not fit in the first is listed first. -/
def both (f : α → β → γ) : Reading α → Reading β → Reading γ
  | .ok a, .ok b => .ok (f a b)
  | .ok _, .error es => .error es
  | .error es, .ok _ => .error es
  | .error es, .error es' => .error (es ++ es')

/-- Reads every item of a list, numbered from `index`. -/
def items (read : Data → Reading α) (index : Nat) : List Data → Reading (List α)
  | [] => .ok []
  | d :: rest =>
    both List.cons ((read d).under (toAsciiDigits index)) (items read (index + 1) rest)

/-- Reads a required field. -/
def required (name : Text) (read : Data → Reading α) (fields : List (Text × Data)) : Reading α :=
  under name <| match Data.field? name fields with
    | some d => read d
    | none => fail .absent

/-- Reads a field that has a default. -/
def optional (name : Text) (default : α) (read : Data → Reading α) (fields : List (Text × Data)) :
    Reading α :=
  under name <| match Data.field? name fields with
    | some d => read d
    | none => .ok default

/-- Reads a string. -/
def text : Data → Reading Text
  | .scalar (.str t) => .ok t
  | _ => fail .notString

/-- Reads a list. -/
def list (read : Data → Reading α) : Data → Reading (List α)
  | .list ds => items read 0 ds
  | _ => fail .notList

/-- Reads a record. -/
def record (read : List (Text × Data) → Reading α) : Data → Reading α
  | .record fields => read fields
  | _ => fail .notRecord

/-- Checks the kind of a record that may leave it out. -/
def tag (expected : Text) : List (Text × Data) → Reading Unit :=
  optional Field.kind () fun
    | .scalar (.str t) => if t = expected then .ok () else fail .wrongTag
    | _ => fail .wrongTag

/-- Reads the kind of a literal. -/
def literalKind : Data → Reading LiteralKind
  | .scalar (.str t) =>
    match LiteralKind.ofName? t with
    | some k => .ok k
    | none => fail .unknownLiteralKind
  | _ => fail .unknownLiteralKind

/-- Reads the value of a literal: any scalar, of whatever kind the literal is. -/
def value : Data → Reading Value
  | .scalar v => .ok v
  | _ =>
    .error [⟨["bool".toList], .notBool⟩, ⟨["int".toList], .notInt⟩, ⟨["float".toList], .notFloat⟩,
      ⟨["str".toList], .notString⟩]

end Reading

namespace Literal

/-- Reads the kind and the value of a literal. -/
def ofFields (fields : List (Text × Data)) : Reading Literal :=
  .both Literal.mk (.required Field.literalType Reading.literalKind fields)
    (.required Field.value Reading.value fields)

/-- Reads a literal. -/
def ofData : Data → Reading Literal :=
  .record fun fields ↦ .both (fun _ l ↦ l) (.tag literalTag fields) (ofFields fields)

end Literal

namespace Term

mutual

/-- Reads a term, which must say of which kind it is. -/
def ofData (d : Data) : Reading Term :=
  match d with
  | .record fields =>
    match Data.field? Field.kind fields with
    | none => .fail .untagged
    | some (.scalar (.str t)) =>
      if t = callTag then .under callTag (callOfFields fields)
      else if t = literalTag then .under literalTag ((Literal.ofFields fields).map .literal)
      else .fail .unknownTag
    | some _ => .fail .unknownTag
  | _ => .fail .notTerm
termination_by (sizeOf d, 0)

/-- Reads the name and the arguments of a call. -/
def callOfFields (fields : List (Text × Data)) : Reading Term :=
  .both Term.call (.required Field.name Reading.text fields)
    (.under Field.arguments <| match _arguments : Data.field? Field.arguments fields with
      | none => .ok []
      | some (.list ds) => argumentsOfData 0 ds
      | some _ => .fail .notList)
termination_by (sizeOf fields, 1)
decreasing_by
  have h := Data.sizeOf_field? _arguments
  simp only [Data.list.sizeOf_spec] at h
  apply Prod.Lex.left
  omega

/-- Reads arguments of a call, numbered from `index`; null is a hole. -/
def argumentsOfData (index : Nat) (ds : List Data) : Reading (List (Option Term)) :=
  match ds with
  | [] => .ok []
  | .null :: rest => .both List.cons (.ok none) (argumentsOfData (index + 1) rest)
  | d :: rest =>
    .both List.cons (.under (toAsciiDigits index) ((ofData d).map some))
      (argumentsOfData (index + 1) rest)
termination_by (sizeOf ds, 0)

end

/-- Reads a call, which may leave out of which kind it is. -/
def callOfData : Data → Reading Term :=
  .record fun fields ↦ .both (fun _ t ↦ t) (.tag callTag fields) (callOfFields fields)

end Term

namespace Case

/-- Reads a case. -/
def ofData : Data → Reading Case :=
  .record fun fields ↦
    .both Case.mk (.optional Field.arguments [] (Reading.list Reading.text) fields)
      (.required Field.body Term.ofData fields)

/-- Reads the cases in a function's body. -/
def bodyOfData : Data → Reading (List Case) :=
  .record (.optional Field.cases [] (Reading.list ofData))

end Case

namespace Header

/-- Reads a header. -/
def ofData : Data → Reading Header :=
  .record fun fields ↦
    .both (fun name lists ↦ ⟨name, lists.1, lists.2⟩) (.required Field.name Reading.text fields)
      (.both Prod.mk (.optional Field.inputs [] (Reading.list Reading.text) fields)
        (.optional Field.outputs [] (Reading.list Reading.text) fields))

end Header

namespace Function

/-- Reads a function. -/
def ofData : Data → Reading Function :=
  .record fun fields ↦
    .both Function.mk (.required Field.header Header.ofData fields)
      (.optional Field.body [] Case.bodyOfData fields)

end Function

end Lilac
