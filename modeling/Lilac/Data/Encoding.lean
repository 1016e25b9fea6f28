import Lilac.Data
import Lilac.Function

/-!
# Syntax trees as plain data

Each part of a syntax tree is a record. A literal and a call carry their `kind`, which tells them
apart where either may stand; a hole among the arguments of a call is null.

Specification: `SPEC_FULL.md`, section 3.
-/

namespace Lilac

/-! ## The names of the fields -/

namespace Field

/-- Tells a call from a literal. -/
def kind : Text := "kind".toList

/-- The kind of a literal. -/
def literalType : Text := "literal_type".toList

/-- The value of a literal. -/
def value : Text := "value".toList

/-- The name of a called or declared function. -/
def name : Text := "name".toList

/-- The arguments of a call or of a case. -/
def arguments : Text := "arguments".toList

/-- The body of a case or of a function. -/
def body : Text := "body".toList

/-- The cases of a function's body. -/
def cases : Text := "cases".toList

/-- The inputs of a header. -/
def inputs : Text := "inputs".toList

/-- The outputs of a header. -/
def outputs : Text := "outputs".toList

/-- The header of a function. -/
def header : Text := "header".toList

end Field

/-- The kind of a call. -/
def callTag : Text := "call".toList

/-- The kind of a literal. -/
def literalTag : Text := "expression".toList

/-- A literal as plain data. -/
def Literal.toData (l : Literal) : Data :=
  .record [(Field.kind, .text literalTag), (Field.literalType, .text l.kind.name),
    (Field.value, .scalar l.value)]

namespace Term

mutual

/-- A term as plain data. -/
def toData : Term → Data
  | .literal l => l.toData
  | .call name arguments =>
    .record [(Field.kind, .text callTag), (Field.name, .text name),
      (Field.arguments, .list (argumentsToData arguments))]

/-- The arguments of a call as plain data. -/
def argumentsToData : List (Option Term) → List Data
  | [] => []
  | none :: rest => .null :: argumentsToData rest
  | some t :: rest => t.toData :: argumentsToData rest

end

end Term

/-- A case as plain data. -/
def Case.toData (c : Case) : Data :=
  .record [(Field.arguments, .texts c.arguments), (Field.body, c.body.toData)]

/-- The cases of a function as plain data. -/
def Case.bodyToData (cases : List Case) : Data :=
  .record [(Field.cases, .list (cases.map Case.toData))]

/-- A header as plain data. -/
def Header.toData (h : Header) : Data :=
  .record [(Field.name, .text h.name), (Field.inputs, .texts h.inputs),
    (Field.outputs, .texts h.outputs)]

/-- A function as plain data. -/
def Function.toData (f : Function) : Data :=
  .record [(Field.header, f.header.toData), (Field.body, Case.bodyToData f.cases)]

end Lilac
