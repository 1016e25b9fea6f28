import Lilac.Data.Decoding

/-!
# Syntax trees read back from data

The data of a syntax tree is read as the tree itself, whatever the tree holds: holes among the
arguments of a call, empty names and lists, and literals with a value of another kind than their
own.
-/

namespace Lilac

namespace Reading

variable {α β γ : Type}

@[simp] theorem under_ok (step : Text) (a : α) : under step (.ok a : Reading α) = .ok a := rfl

@[simp] theorem both_ok (f : α → β → γ) (a : α) (b : β) :
    both f (.ok a) (.ok b) = .ok (f a b) := rfl

/-- A field that is there and fits is read, whether it is required or not. -/
theorem required_eq_ok {name : Text} {fields : List (Text × Data)} {d : Data}
    {read : Data → Reading α} {a : α} (hfield : Data.field? name fields = some d)
    (hread : read d = .ok a) : required name read fields = .ok a := by
  rw [required, hfield]
  dsimp only
  rw [hread, under_ok]

theorem optional_eq_ok {name : Text} {fields : List (Text × Data)} {d : Data} {default : α}
    {read : Data → Reading α} {a : α} (hfield : Data.field? name fields = some d)
    (hread : read d = .ok a) : optional name default read fields = .ok a := by
  rw [optional, hfield]
  dsimp only
  rw [hread, under_ok]

/-- A list is read back if each of its items is. -/
theorem list_map {read : Data → Reading α} {write : α → Data} {xs : List α}
    (h : ∀ x ∈ xs, read (write x) = .ok x) : list read (.list (xs.map write)) = .ok xs := by
  have hitems (index : Nat) : items read index (xs.map write) = .ok xs := by
    induction xs generalizing index with
    | nil => rfl
    | cons x xs ih =>
      rw [List.map_cons, items, h x List.mem_cons_self,
        ih fun y hy ↦ h y (List.mem_cons_of_mem x hy)]
      rfl
  exact hitems 0

theorem list_texts (ts : List Text) : list text (.texts ts) = .ok ts := list_map fun _ _ ↦ rfl

end Reading

/-! ## Terms -/

private theorem LiteralKind.ofName?_name (k : LiteralKind) : ofName? k.name = some k := by
  cases k <;> decide

theorem Literal.ofFields_toData (l : Literal) :
    ofFields [(Field.kind, .text literalTag), (Field.literalType, .text l.kind.name),
      (Field.value, .scalar l.value)] = .ok l := by
  have hkind : Reading.literalKind (.text l.kind.name) = .ok l.kind := by
    rw [Data.text, Reading.literalKind, l.kind.ofName?_name]
  rw [ofFields, Reading.required_eq_ok rfl hkind]
  rfl

namespace Term

private theorem exists_toData_eq_record (t : Term) : ∃ fields, t.toData = .record fields := by
  cases t with
  | literal l => exact ⟨_, rfl⟩
  | call name arguments => exact ⟨_, by rw [toData]⟩

/-- A record that says it is a call is read as one. -/
theorem ofData_call {fields : List (Text × Data)}
    (hkind : Data.field? Field.kind fields = some (.text callTag)) :
    ofData (.record fields) = .under callTag (callOfFields fields) := by
  rw [ofData, hkind]
  dsimp only [Data.text]
  rw [if_pos rfl]

private theorem ofData_literal {fields : List (Text × Data)}
    (hkind : Data.field? Field.kind fields = some (.text literalTag)) :
    ofData (.record fields) = .under literalTag ((Literal.ofFields fields).map .literal) := by
  rw [ofData, hkind]
  dsimp only [Data.text]
  rw [if_neg (by decide), if_pos rfl]

theorem callOfFields_eq_ok {fields : List (Text × Data)} {name : Text} {ds : List Data}
    {arguments : List (Option Term)}
    (hname : Reading.required Field.name Reading.text fields = .ok name)
    (hfield : Data.field? Field.arguments fields = some (.list ds))
    (harguments : argumentsOfData 0 ds = .ok arguments) :
    callOfFields fields = .ok (.call name arguments) := by
  rw [callOfFields, hname]
  split
  · next hnone => cases hfield.symm.trans hnone
  · next ds' hsome =>
    cases hfield.symm.trans hsome
    rw [harguments]
    rfl
  · next d hlist hsome => exact absurd (Option.some.inj (hsome.symm.trans hfield)) (hlist ds)

mutual

/-- A term is read back from its data. -/
theorem ofData_toData (t : Term) : ofData t.toData = .ok t := by
  match t with
  | .literal l =>
    rw [toData, Literal.toData, ofData_literal rfl]
    exact congrArg (fun r ↦ Reading.under literalTag (Except.map Term.literal r))
      l.ofFields_toData
  | .call name arguments =>
    rw [toData, ofData_call rfl,
      callOfFields_eq_ok rfl rfl (argumentsOfData_argumentsToData arguments 0), Reading.under_ok]

theorem argumentsOfData_argumentsToData (xs : List (Option Term)) (index : Nat) :
    argumentsOfData index (argumentsToData xs) = .ok xs := by
  match xs with
  | [] => rw [argumentsToData, argumentsOfData]
  | none :: rest =>
    rw [argumentsToData, argumentsOfData, argumentsOfData_argumentsToData rest]
    rfl
  | some t :: rest =>
    have ht := ofData_toData t
    obtain ⟨fields, hfields⟩ := t.exists_toData_eq_record
    rw [argumentsToData, hfields, argumentsOfData, ← hfields, ht,
      argumentsOfData_argumentsToData rest]
    · rfl
    · nofun

end

end Term

/-! ## Functions -/

/-- A case is read back from its data. -/
theorem Case.ofData_toData (c : Case) : ofData c.toData = .ok c := by
  rw [ofData, toData, Reading.record, Reading.optional_eq_ok rfl (Reading.list_texts c.arguments),
    Reading.required_eq_ok rfl c.body.ofData_toData, Reading.both_ok]

/-- The cases of a function are read back from their data. -/
theorem Case.bodyOfData_bodyToData (cases : List Case) :
    bodyOfData (bodyToData cases) = .ok cases := by
  rw [bodyOfData, bodyToData, Reading.record,
    Reading.optional_eq_ok rfl (Reading.list_map fun c _ ↦ c.ofData_toData)]

/-- A header is read back from its data. -/
theorem Header.ofData_toData (h : Header) : ofData h.toData = .ok h := by
  have hname : Reading.text (.text h.name) = .ok h.name := rfl
  rw [ofData, toData, Reading.record, Reading.required_eq_ok rfl hname,
    Reading.optional_eq_ok rfl (Reading.list_texts h.inputs),
    Reading.optional_eq_ok rfl (Reading.list_texts h.outputs), Reading.both_ok, Reading.both_ok]

/-- A function is read back from its data. -/
theorem Function.ofData_toData (f : Function) : ofData f.toData = .ok f := by
  rw [ofData, toData, Reading.record, Reading.required_eq_ok rfl f.header.ofData_toData,
    Reading.optional_eq_ok rfl (Case.bodyOfData_bodyToData f.cases), Reading.both_ok]

end Lilac
