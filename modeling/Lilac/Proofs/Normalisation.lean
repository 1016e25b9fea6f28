import Lilac.Proofs.Encoding
import Mathlib.Logic.Relation

/-!
# Reading data normalises it

Data that is read as a node of a syntax tree and the data written for that node are read alike, and
every node is read back from what is written for it. Fields without a meaning do not count: records
that differ only in such fields, at any depth, are read as the same node or fail in the same way.

About the models of `Function` and its parts. Specification: `SPEC_FULL.md`, section 3.
-/

namespace Lilac

namespace Data

/-- The scalar that data consists of. -/
def scalar? : Data → Option Value
  | .scalar v => some v
  | _ => none

private theorem field?_append (name : Text) (front rest : List (Text × Data)) :
    field? name (front ++ rest) = (field? name front).or (field? name rest) := by
  induction front with
  | nil => rfl
  | cons entry front ih =>
    rw [List.cons_append, field?, field?]
    split
    · rfl
    · exact ih

end Data

namespace Reading

variable {α β γ : Type}

private theorem both_eq_ok_iff {f : α → β → γ} {x : Reading α} {y : Reading β} {c : γ} :
    both f x y = .ok c ↔ ∃ a b, x = .ok a ∧ y = .ok b ∧ f a b = c := by
  cases x with
  | ok a =>
    cases y with
    | ok b => simp [both]
    | error es => simp [both]
  | error es =>
    cases y with
    | ok b => simp [both]
    | error es' => simp [both]

private theorem required_eq_getD (name : Text) (read : Data → Reading α)
    (fields : List (Text × Data)) :
    required name read fields =
      under name (((Data.field? name fields).map read).getD (fail .absent)) := by
  rw [required]
  cases Data.field? name fields with
  | none => rfl
  | some d => rfl

private theorem optional_eq_getD (name : Text) (default : α) (read : Data → Reading α)
    (fields : List (Text × Data)) :
    optional name default read fields =
      under name (((Data.field? name fields).map read).getD (.ok default)) := by
  rw [optional]
  cases Data.field? name fields with
  | none => rfl
  | some d => rfl

/-- A field that is absent from two records, or read alike, counts alike. -/
theorem required_congr {name : Text} {read : Data → Reading α} {fields fields' : List (Text × Data)}
    (h : (Data.field? name fields).map read = (Data.field? name fields').map read) :
    required name read fields = required name read fields' := by
  rw [required_eq_getD, required_eq_getD, h]

theorem optional_congr {name : Text} (default : α) {read : Data → Reading α}
    {fields fields' : List (Text × Data)}
    (h : (Data.field? name fields).map read = (Data.field? name fields').map read) :
    optional name default read fields = optional name default read fields' := by
  rw [optional_eq_getD, optional_eq_getD, h]

/-- The kind of a record that may leave it out counts only as a scalar. -/
theorem tag_eq (expected : Text) (fields : List (Text × Data)) :
    tag expected fields =
      under Field.kind (match (Data.field? Field.kind fields).map Data.scalar? with
        | none => .ok ()
        | some (some (.str t)) => if t = expected then .ok () else fail .wrongTag
        | some _ => fail .wrongTag) := by
  rw [tag, optional]
  rcases Data.field? Field.kind fields with _ | _ | v | _ | _
  case some.scalar => cases v <;> rfl
  all_goals rfl

private theorem items_congr {read : Data → Reading α} {d d' : Data} (h : read d = read d')
    (index : Nat) (front rest : List Data) :
    items read index (front ++ d :: rest) = items read index (front ++ d' :: rest) := by
  induction front generalizing index with
  | nil => rw [List.nil_append, List.nil_append, items, items, h]
  | cons x front ih => rw [List.cons_append, List.cons_append, items, items, ih]

end Reading

namespace Term

/-- Reads an argument of a call: null is a hole. -/
def argumentOfData : Data → Reading (Option Term)
  | .null => .ok none
  | d => (ofData d).map some

private theorem ofData_record (fields : List (Text × Data)) :
    ofData (.record fields) = match (Data.field? Field.kind fields).map Data.scalar? with
      | none => .fail .untagged
      | some (some (.str t)) =>
        if t = callTag then .under callTag (callOfFields fields)
        else if t = literalTag then .under literalTag ((Literal.ofFields fields).map .literal)
        else .fail .unknownTag
      | some _ => .fail .unknownTag := by
  rw [ofData]
  rcases Data.field? Field.kind fields with _ | _ | v | _ | _
  case some.scalar => cases v <;> rfl
  all_goals rfl

private theorem argumentsOfData_eq_items (index : Nat) (ds : List Data) :
    argumentsOfData index ds = Reading.items argumentOfData index ds := by
  induction ds generalizing index with
  | nil => rw [argumentsOfData, Reading.items]
  | cons d ds ih =>
    by_cases hnull : d = .null
    · subst hnull
      rw [argumentsOfData, Reading.items, ih]
      rfl
    · rw [argumentsOfData, Reading.items, ih, argumentOfData]
      · exact hnull
      · exact hnull

/-- A call is read from its name and its arguments, which may be left out. -/
theorem callOfFields_eq (fields : List (Text × Data)) :
    callOfFields fields = .both Term.call (.required Field.name Reading.text fields)
      (.optional Field.arguments [] (Reading.list argumentOfData) fields) := by
  rw [callOfFields, Reading.optional]
  congr 2
  split
  · next hnone => rw [hnone]
  · next ds hsome =>
    rw [hsome]
    exact argumentsOfData_eq_items 0 ds
  · next d hlist hsome =>
    rw [hsome]
    cases d with
    | list ds => exact absurd rfl (hlist ds)
    | null => rfl
    | scalar v => rfl
    | record fields => rfl

end Term

/-! ## Nodes and their fields -/

/-- The kinds of nodes of a syntax tree. Each has a record of its own. -/
inductive NodeKind where
  | literal
  | call
  | case
  | body
  | header
  | function
  deriving DecidableEq, Repr

/-- What is expected at a place of the data of a syntax tree. -/
inductive Slot where
  /-- The word for a call or for a literal. -/
  | tag
  /-- A string. -/
  | text
  /-- The word for a kind of literals. -/
  | literalKind
  /-- Any scalar. -/
  | value
  /-- A node of a given kind. -/
  | node (kind : NodeKind)
  /-- A call or a literal. -/
  | term
  /-- A call, a literal or null. -/
  | argument
  /-- A list. -/
  | list (item : Slot)
  /-- Anything: the place has no meaning. -/
  | free

namespace NodeKind

/-- The fields with a meaning, and what is expected in each. -/
def slots : NodeKind → List (Text × Slot)
  | literal => [(Field.kind, .tag), (Field.literalType, .literalKind), (Field.value, .value)]
  | call => [(Field.kind, .tag), (Field.name, .text), (Field.arguments, .list .argument)]
  | case => [(Field.arguments, .list .text), (Field.body, .term)]
  | body => [(Field.cases, .list (.node .case))]
  | header => [(Field.name, .text), (Field.inputs, .list .text), (Field.outputs, .list .text)]
  | function => [(Field.header, .node .header), (Field.body, .node .body)]

/-- What a node of the kind is. -/
abbrev Tree : NodeKind → Type
  | literal => Literal
  | call => Term
  | case => Case
  | body => List Case
  | header => Header
  | function => Function

/-- Whether a tree is a node of the kind: of terms, only calls are calls. -/
def IsNode : (k : NodeKind) → k.Tree → Prop
  | call, t => ∃ name arguments, t = Term.call name arguments
  | _, _ => True

/-- Reads a node. -/
def read : (k : NodeKind) → Data → Reading k.Tree
  | literal => Literal.ofData
  | call => Term.callOfData
  | case => Case.ofData
  | body => Case.bodyOfData
  | header => Header.ofData
  | function => Function.ofData

/-- A node as data. -/
def write : (k : NodeKind) → k.Tree → Data
  | literal => Literal.toData
  | call => Term.toData
  | case => Case.toData
  | body => Case.bodyToData
  | header => Header.toData
  | function => Function.toData

end NodeKind

namespace Slot

/-- The fields with a meaning in the record of a term, which says itself of which kind it is. -/
def termSlots (fields : List (Text × Data)) : List (Text × Slot) :=
  match (Data.field? Field.kind fields).map Data.scalar? with
  | some (some (.str t)) =>
    if t = callTag then NodeKind.call.slots
    else if t = literalTag then NodeKind.literal.slots
    else [(Field.kind, .tag)]
  | _ => [(Field.kind, .tag)]

private theorem lookup_termSlots (fields : List (Text × Data)) :
    (termSlots fields).lookup Field.kind = some tag := by
  unfold termSlots
  split
  · split
    · rfl
    · split
      · rfl
      · rfl
  · rfl

/-- The fields with a meaning in a record that stands at the place. -/
def slots : Slot → List (Text × Data) → List (Text × Slot)
  | node k, _ => k.slots
  | term, fields | argument, fields => termSlots fields
  | _, _ => []

/-- What is expected in a field of a record that stands at the place. -/
def field (s : Slot) (fields : List (Text × Data)) (name : Text) : Slot :=
  ((s.slots fields).lookup name).getD free

/-- What is expected of the items of a list that stands at the place. -/
def item : Slot → Slot
  | list s => s
  | _ => free

/-- What is read at the place. -/
abbrev Tree : Slot → Type
  | tag => Option Value
  | text => Text
  | literalKind => LiteralKind
  | value => Value
  | node k => k.Tree
  | term => Term
  | argument => Option Term
  | list s => List s.Tree
  | free => Unit

/-- Reads what is expected at the place. -/
def read : (s : Slot) → Data → Reading s.Tree
  | tag => fun d ↦ .ok d.scalar?
  | text => Reading.text
  | literalKind => Reading.literalKind
  | value => Reading.value
  | node k => k.read
  | term => Term.ofData
  | argument => Term.argumentOfData
  | list s => Reading.list s.read
  | free => fun _ ↦ .ok ()

end Slot

/-- Data and the same data with an annotation: one more field, without a meaning, in a record at any
depth. -/
inductive Annotated : Slot → Data → Data → Prop
  /-- The field is put somewhere into the record at hand. -/
  | here {s : Slot} (front rest : List (Text × Data)) {name : Text} (d : Data)
      (hname : (s.slots (front ++ rest)).lookup name = none) :
      Annotated s (.record (front ++ rest)) (.record (front ++ (name, d) :: rest))
  /-- It is put into a record in one of the fields. -/
  | field {s : Slot} (front rest : List (Text × Data)) {name : Text} {d d' : Data}
      (h : Annotated (s.field (front ++ (name, d) :: rest) name) d d') :
      Annotated s (.record (front ++ (name, d) :: rest)) (.record (front ++ (name, d') :: rest))
  /-- It is put into a record in one of the items. -/
  | item {s : Slot} (front rest : List Data) {d d' : Data} (h : Annotated s.item d d') :
      Annotated s (.list (front ++ d :: rest)) (.list (front ++ d' :: rest))

/-! ## Records that agree are read alike -/

/-- The fields with a meaning are absent from both records, or read alike. -/
def Agree (slots : List (Text × Slot)) (fields fields' : List (Text × Data)) : Prop :=
  ∀ name s, slots.lookup name = some s →
    (Data.field? name fields).map s.read = (Data.field? name fields').map s.read

namespace Agree

variable {slots : List (Text × Slot)} {fields fields' : List (Text × Data)} {name : Text}

private theorem append (front : List (Text × Data)) (h : Agree slots fields fields') :
    Agree slots (front ++ fields) (front ++ fields') := by
  intro name s hname
  rw [Data.field?_append, Data.field?_append, Option.map_or, Option.map_or, h name s hname]

private theorem cons_of_none (hname : slots.lookup name = none) (d : Data)
    (rest : List (Text × Data)) : Agree slots rest ((name, d) :: rest) := by
  intro name' s hname'
  have hne : name ≠ name' := by
    rintro rfl
    cases hname.symm.trans hname'
  rw [Data.field?, if_neg hne]

private theorem cons_of_read {d d' : Data}
    (h : ∀ s, slots.lookup name = some s → s.read d = s.read d') (rest : List (Text × Data)) :
    Agree slots ((name, d) :: rest) ((name, d') :: rest) := by
  intro name' s hname
  rw [Data.field?, Data.field?]
  split
  · next heq =>
    subst heq
    rw [Option.map_some, Option.map_some, h s hname]
  · rfl

/-- The kind of a record is the same scalar, or no scalar. -/
theorem tag (h : Agree slots fields fields') (hkind : slots.lookup Field.kind = some .tag) :
    (Data.field? Field.kind fields).map Data.scalar? =
      (Data.field? Field.kind fields').map Data.scalar? := by
  have hinjective : Function.Injective (Except.ok : Option Value → Reading (Option Value)) :=
    fun _ _ ↦ Except.ok.inj
  apply Option.map_injective hinjective
  rw [Option.map_map, Option.map_map]
  exact h Field.kind .tag hkind

private theorem tag_eq (h : Agree slots fields fields')
    (hkind : slots.lookup Field.kind = some .tag) (expected : Text) :
    Reading.tag expected fields = Reading.tag expected fields' := by
  rw [Reading.tag_eq, Reading.tag_eq, h.tag hkind]

end Agree

/-- The kind and the value of a literal are read alike from records that agree. -/
theorem Literal.ofFields_congr {fields fields' : List (Text × Data)}
    (h : Agree NodeKind.literal.slots fields fields') : ofFields fields = ofFields fields' := by
  have hkind := Reading.required_congr (h Field.literalType .literalKind rfl)
  have hvalue := Reading.required_congr (h Field.value .value rfl)
  exact congrArg₂ (Reading.both Literal.mk) hkind hvalue

namespace Term

variable {fields fields' : List (Text × Data)}

/-- The name and the arguments of a call are read alike from records that agree. -/
theorem callOfFields_congr (h : Agree NodeKind.call.slots fields fields') :
    callOfFields fields = callOfFields fields' := by
  have hname := Reading.required_congr (h Field.name .text rfl)
  have harguments := Reading.optional_congr [] (h Field.arguments (.list .argument) rfl)
  rw [callOfFields_eq, callOfFields_eq]
  exact congrArg₂ (Reading.both Term.call) hname harguments

private theorem ofData_congr (h : Agree (Slot.termSlots fields) fields fields') :
    ofData (.record fields) = ofData (.record fields') := by
  rw [ofData_record, ofData_record, ← h.tag (Slot.lookup_termSlots fields)]
  rw [Slot.termSlots] at h
  split
  · rfl
  · next t htag =>
    rw [htag] at h
    dsimp only at h
    by_cases hcall : t = callTag
    · rw [if_pos hcall] at h
      rw [if_pos hcall, if_pos hcall, callOfFields_congr h]
    · by_cases hliteral : t = literalTag
      · rw [if_neg hcall, if_pos hliteral] at h
        rw [if_neg hcall, if_neg hcall, if_pos hliteral, if_pos hliteral, Literal.ofFields_congr h]
      · rw [if_neg hcall, if_neg hcall, if_neg hliteral, if_neg hliteral]
  · rfl

end Term

/-- A node is read alike from records that agree. -/
private theorem NodeKind.read_congr {k : NodeKind} {fields fields' : List (Text × Data)}
    (h : Agree k.slots fields fields') : k.read (.record fields) = k.read (.record fields') := by
  cases k with
  | literal =>
    exact congrArg₂ (Reading.both _) (h.tag_eq rfl literalTag)
      (Literal.ofFields_congr h)
  | call =>
    exact congrArg₂ (Reading.both _) (h.tag_eq rfl callTag)
      (Term.callOfFields_congr h)
  | case =>
    have harguments := Reading.optional_congr [] (h Field.arguments (.list .text) rfl)
    have hbody := Reading.required_congr (h Field.body .term rfl)
    exact congrArg₂ (Reading.both Case.mk) harguments hbody
  | body => exact Reading.optional_congr [] (h Field.cases (.list (.node .case)) rfl)
  | header =>
    have hname := Reading.required_congr (h Field.name .text rfl)
    have hinputs := Reading.optional_congr [] (h Field.inputs (.list .text) rfl)
    have houtputs := Reading.optional_congr [] (h Field.outputs (.list .text) rfl)
    exact congrArg₂ (Reading.both _) hname (congrArg₂ (Reading.both Prod.mk) hinputs houtputs)
  | function =>
    have hheader := Reading.required_congr (h Field.header (.node .header) rfl)
    have hbody := Reading.optional_congr [] (h Field.body (.node .body) rfl)
    exact congrArg₂ (Reading.both Function.mk) hheader hbody

namespace Slot

private theorem read_record_congr {s : Slot} {fields fields' : List (Text × Data)}
    (h : Agree (s.slots fields) fields fields') :
    s.read (.record fields) = s.read (.record fields') := by
  cases s with
  | node k => exact NodeKind.read_congr h
  | term => exact Term.ofData_congr h
  | argument => exact congrArg (Except.map some) (Term.ofData_congr h)
  | tag => rfl
  | text => rfl
  | literalKind => rfl
  | value => rfl
  | list s => rfl
  | free => rfl

private theorem read_list_congr {s : Slot} {d d' : Data} (h : s.item.read d = s.item.read d')
    (front rest : List Data) :
    s.read (.list (front ++ d :: rest)) = s.read (.list (front ++ d' :: rest)) := by
  have hterm (ds : List Data) : Term.ofData (.list ds) = .fail .notTerm := by
    rw [Term.ofData]
    intro fields hrecord
    cases hrecord
  cases s with
  | list s => exact Reading.items_congr h 0 front rest
  | node k => cases k <;> rfl
  | term => exact (hterm _).trans (hterm _).symm
  | argument => exact congrArg (Except.map some) ((hterm _).trans (hterm _).symm)
  | tag => rfl
  | text => rfl
  | literalKind => rfl
  | value => rfl
  | free => rfl

end Slot

/-- An annotation does not change what is read. -/
theorem Annotated.read_eq {s : Slot} {d d' : Data} (h : Annotated s d d') :
    s.read d = s.read d' := by
  induction h with
  | here front rest d hname =>
    exact Slot.read_record_congr (.append front (.cons_of_none hname d rest))
  | field front rest _ ih =>
    apply Slot.read_record_congr
    refine .append front (.cons_of_read ?_ rest)
    intro s' hname
    rw [Slot.field, hname] at ih
    exact ih
  | item front rest _ ih => exact Slot.read_list_congr ih front rest

/-! ## Nodes are read back -/

/-- A literal is read back from its data. -/
theorem Literal.ofData_toData (l : Literal) : ofData l.toData = .ok l := by
  have htag (fields : List (Text × Data)) :
      Reading.tag literalTag ((Field.kind, .text literalTag) :: fields) = .ok () := rfl
  rw [ofData, toData, Reading.record, htag, l.ofFields_toData, Reading.both_ok]

/-- A call is read back from its data. -/
theorem Term.callOfData_toData (name : Text) (arguments : List (Option Term)) :
    callOfData (call name arguments).toData = .ok (call name arguments) := by
  have htag (fields : List (Text × Data)) :
      Reading.tag callTag ((Field.kind, .text callTag) :: fields) = .ok () := rfl
  rw [callOfData, toData, Reading.record, htag,
    callOfFields_eq_ok rfl rfl (argumentsOfData_argumentsToData arguments 0), Reading.both_ok]

private theorem Term.exists_of_callOfData {d : Data} {t : Term} (h : callOfData d = .ok t) :
    ∃ name arguments, t = call name arguments := by
  match d with
  | .record fields =>
    obtain ⟨-, t', -, ht, rfl⟩ := Reading.both_eq_ok_iff.mp h
    rw [callOfFields_eq] at ht
    obtain ⟨name, arguments, -, -, rfl⟩ := Reading.both_eq_ok_iff.mp ht
    exact ⟨name, arguments, rfl⟩

namespace NodeKind

/-- A node is read back from its data. -/
theorem read_write {k : NodeKind} {tree : k.Tree} (h : k.IsNode tree) :
    k.read (k.write tree) = .ok tree := by
  cases k with
  | literal => exact Literal.ofData_toData tree
  | call =>
    obtain ⟨name, arguments, rfl⟩ := h
    exact Term.callOfData_toData name arguments
  | case => exact Case.ofData_toData tree
  | body => exact Case.bodyOfData_bodyToData tree
  | header => exact Header.ofData_toData tree
  | function => exact Function.ofData_toData tree

/-- What is read as a node of a kind is one. -/
theorem isNode_of_read {k : NodeKind} {d : Data} {tree : k.Tree} (h : k.read d = .ok tree) :
    k.IsNode tree := by
  cases k with
  | call => exact Term.exists_of_callOfData h
  | literal => trivial
  | case => trivial
  | body => trivial
  | header => trivial
  | function => trivial

/-- Annotations, however many, do not change what is read. -/
theorem read_eq_of_annotated {k : NodeKind} {d d' : Data}
    (h : Relation.ReflTransGen (Annotated (.node k)) d d') : k.read d' = k.read d := by
  induction h with
  | refl => rfl
  | tail _ hstep ih => exact hstep.read_eq.symm.trans ih

/-- Reading normalises data, for every kind of node. What was read is a node that is read again from
what is written for it, every node is read from what is written for it as exactly that node, and
further fields without a meaning, in any records and as many as there may be, change nothing. -/
theorem reading_normalises (k : NodeKind) :
    (∀ d tree, k.read d = .ok tree → k.IsNode tree ∧ k.read (k.write tree) = .ok tree) ∧
      (∀ tree, k.IsNode tree → k.read (k.write tree) = .ok tree) ∧
      ∀ d d', Relation.ReflTransGen (Annotated (.node k)) d d' → k.read d' = k.read d :=
  ⟨fun _ _ h ↦ ⟨isNode_of_read h, read_write (isNode_of_read h)⟩, fun _ ↦ read_write,
    fun _ _ ↦ read_eq_of_annotated⟩

/-- A call with a hole, and with a string that is kept under the kind of integers. -/
def oddCall : Term := .call ['g'] [none, some (.literal ⟨.integer, .str ['7']⟩)]

/-- The data of the call, with its kind behind its parts. -/
def oddFields : List (Text × Data) :=
  [(Field.name, .text ['g']),
    (Field.arguments, .list [.null, Literal.toData ⟨.integer, .str ['7']⟩]),
    (Field.kind, .text callTag)]

/-- A case that leaves out its formals is completed, and annotations of the case and of the call in
its body are passed over. -/
theorem reading_normalises_oddCall :
    case.read (.record [(Field.body, .record oddFields)]) = .ok ⟨[], oddCall⟩ ∧
      case.read (case.write ⟨[], oddCall⟩) = .ok ⟨[], oddCall⟩ ∧
      case.read (.record [(Field.body, .record (oddFields ++ [(Field.inputs, .null)])),
        (Field.kind, .text literalTag)]) = .ok ⟨[], oddCall⟩ := by
  have hread : case.read (.record [(Field.body, .record oddFields)]) = .ok ⟨[], oddCall⟩ := by
    have harguments : Term.argumentsOfData 0 [.null, Literal.toData ⟨.integer, .str ['7']⟩] =
        .ok [none, some (.literal ⟨.integer, .str ['7']⟩)] :=
      Term.argumentsOfData_argumentsToData [none, some (.literal ⟨.integer, .str ['7']⟩)] 0
    have hcall : Term.ofData (.record oddFields) = .ok oddCall := by
      rw [Term.ofData_call rfl, Term.callOfFields_eq_ok rfl rfl harguments]
      rfl
    rw [read, Case.ofData, Reading.record, Reading.required_eq_ok rfl hcall]
    rfl
  have hcall : Annotated .term (.record (oddFields ++ []))
      (.record (oddFields ++ [(Field.inputs, .null)])) := .here oddFields [] .null rfl
  have hbody : Annotated (.node case) (.record [(Field.body, .record oddFields)])
      (.record [(Field.body, .record (oddFields ++ [(Field.inputs, .null)]))]) :=
    .field [] [] hcall
  have hkind (d : Data) : Annotated (.node case) (.record [(Field.body, d)])
      (.record [(Field.body, d), (Field.kind, .text literalTag)]) :=
    .here [(Field.body, d)] [] (.text literalTag) rfl
  have hsteps := (Relation.ReflTransGen.single hbody).tail (hkind _)
  exact ⟨hread, ((reading_normalises case).1 _ _ hread).2,
    ((reading_normalises case).2.2 _ _ hsteps).trans hread⟩

end NodeKind

end Lilac
