import Lilac.Proofs.Steps

/-!
# Ledgers

A ledger follows one kind of thing through the assembler. What a line brings in is afterwards either
entered in the document or held by what is pending, and at the end everything held is entered; so a
document has the entries its lines brought in, in their order. Each ledger is checked step by step
once, and says of whole documents what becomes of their lines.
-/

namespace Lilac

namespace Document

/-! ## Readings -/

/-- The lines with what is pending when each of them is read. -/
def readings (pending : Option Pending) : List Line → List (Option Pending × Line)
  | [] => []
  | line :: rest => (pending, line) :: readings (step pending line).1 rest

@[simp] theorem readings_nil (pending : Option Pending) : readings pending [] = [] := rfl

@[simp] theorem readings_cons (pending : Option Pending) (line : Line) (rest : List Line) :
    readings pending (line :: rest) = (pending, line) :: readings (step pending line).1 rest := rfl

/-- The second of two parts is read with what the first leaves pending. -/
theorem readings_append (pending : Option Pending) (a b : List Line) :
    readings pending (a ++ b) = readings pending a ++ readings (run pending a).1 b := by
  induction a generalizing pending with
  | nil => rfl
  | cons line a ih => rw [List.cons_append, readings_cons, ih, readings_cons, run_cons]; rfl

/-- Every line is read once, in order. -/
theorem map_snd_readings (pending : Option Pending) (lines : List Line) :
    (readings pending lines).map (·.2) = lines := by
  induction lines generalizing pending with
  | nil => rfl
  | cons line rest ih => rw [readings_cons, List.map_cons, ih]

theorem mem_of_mem_readings {pending : Option Pending} {lines : List Line}
    {x : Option Pending × Line} (h : x ∈ readings pending lines) : x.2 ∈ lines := by
  have hmem := List.mem_map_of_mem (f := (·.2)) h
  rwa [map_snd_readings] at hmem

end Document

open Document

/-! ## Ledgers -/

/-- What becomes of one kind of thing: how many of them are held by what is pending, what a line
brings in, and what is entered in a document. No step and not the end of the text loses any. -/
structure Ledger (α : Type) where
  /-- What is held by what is pending. -/
  held : Option Pending → List α
  /-- What a line brings in. -/
  income : Option Pending → Line → List α
  /-- What is entered in a document. -/
  entries : Document Span → List α
  held_none : held none = []
  entries_append : ∀ a b, entries (a ++ b) = entries a ++ entries b
  entries_step : ∀ {line pending next added}, Step line pending next added →
    entries added ++ held next = held pending ++ income pending line
  entries_atEnd : ∀ pending, entries (atEnd pending) = held pending

namespace Ledger

variable {α β : Type} (L : Ledger α)

private theorem entries_assembleFrom (pending : Option Pending) (lines : List Line) :
    L.entries (assembleFrom pending lines) =
      L.held pending ++ (readings pending lines).flatMap fun x ↦ L.income x.1 x.2 := by
  induction lines generalizing pending with
  | nil => rw [assembleFrom, L.entries_atEnd, readings_nil, List.flatMap_nil, List.append_nil]
  | cons line rest ih =>
    rw [assembleFrom_cons, L.entries_append, ih, ← List.append_assoc,
      L.entries_step (step_spec pending line), readings_cons, List.flatMap_cons, List.append_assoc]

/-- A document has the entries that its lines brought in. -/
theorem entries_assemble (lines : List Line) :
    L.entries (assemble lines) = (readings none lines).flatMap fun x ↦ L.income x.1 x.2 := by
  rw [assemble, entries_assembleFrom, L.held_none, List.nil_append]

/-- The ledger of what is made of each thing. -/
def flatMap (f : α → List β) : Ledger β where
  held pending := (L.held pending).flatMap f
  income pending line := (L.income pending line).flatMap f
  entries d := (L.entries d).flatMap f
  held_none := by rw [L.held_none, List.flatMap_nil]
  entries_append a b := by rw [L.entries_append, List.flatMap_append]
  entries_step h := by rw [← List.flatMap_append, L.entries_step h, List.flatMap_append]
  entries_atEnd pending := by rw [L.entries_atEnd]

/-- If lines bring in their own places on a condition, and no two stand at the same one, a place is
entered once or not at all as its line meets the condition. -/
theorem count_entries (L : Ledger Span) {C : Option Pending → Line → Prop}
    [∀ pending line, Decidable (C pending line)]
    (hincome : ∀ pending line, L.income pending line = if C pending line then [line.span] else [])
    {before after : List Line} {line : Line}
    (hnodup : ((before ++ line :: after).map (·.span)).Nodup) :
    (L.entries (assemble (before ++ line :: after))).count line.span =
      if C (run none before).1 line then 1 else 0 := by
  -- No other line brings in this place.
  have hother {pending : Option Pending} {lines : List Line}
      (hne : line.span ∉ lines.map (·.span)) :
      ((readings pending lines).flatMap fun x ↦ L.income x.1 x.2).count line.span = 0 := by
    rw [List.count_eq_zero]
    intro hmem
    obtain ⟨x, hx, hs⟩ := List.mem_flatMap.mp hmem
    rw [hincome] at hs
    split at hs
    · rw [List.mem_singleton.mp hs] at hne
      exact hne (List.mem_map_of_mem (mem_of_mem_readings hx))
    · cases hs
  rw [List.map_append, List.map_cons, List.nodup_append] at hnodup
  obtain ⟨-, hafter, hbefore⟩ := hnodup
  rw [entries_assemble, readings_append, readings_cons, List.flatMap_append, List.flatMap_cons,
    List.count_append, List.count_append, hother (List.nodup_cons.mp hafter).1,
    hother fun hmem ↦ hbefore _ hmem _ List.mem_cons_self rfl, Nat.add_zero, Nat.zero_add, hincome]
  split <;> simp

/-- If lines bring in their own places on a condition on the line alone, the places of the lines
that meet it are entered in order. -/
theorem entries_eq_map_filter (L : Ledger Span) {C : Line → Prop} [DecidablePred C]
    (hincome : ∀ pending line, L.income pending line = if C line then [line.span] else [])
    (lines : List Line) : L.entries (assemble lines) = (lines.filter C).map (·.span) := by
  have hreadings (rs : List (Option Pending × Line)) :
      (rs.flatMap fun x ↦ L.income x.1 x.2) = ((rs.map (·.2)).filter C).map (·.span) := by
    induction rs with
    | nil => rfl
    | cons x rs ih =>
      by_cases hx : C x.2 <;> simp [hincome, hx] at ih ⊢ <;> exact ih
  rw [entries_assemble, hreadings, map_snd_readings]

end Ledger

/-! ## Parts of functions -/

/-- A part of a function with its place: the header, or a case with the place of the header it is
under. -/
inductive Part where
  | header (h : Header) (place : Span)
  | case (headerAt : Span) (c : Case) (place : Span)

namespace Part

/-- Where a part stands. -/
def place : Part → Span
  | .header _ s => s
  | .case _ _ s => s

end Part

/-- The parts of a definition, header first. -/
def Definition.parts (d : Definition Span) : List Part :=
  .header d.function.header d.headerAt ::
    (d.function.cases.zip d.casesAt).map fun x ↦ .case d.headerAt x.1 x.2

/-- Every case of a definition has its place. -/
def Definition.Aligned (d : Definition Span) : Prop := d.function.cases.length = d.casesAt.length

namespace Definition

variable {d : Definition Span}

/-- The place of each case comes with the case. -/
theorem Aligned.map_snd_zip (h : d.Aligned) :
    (d.function.cases.zip d.casesAt).map (·.2) = d.casesAt :=
  List.map_snd_zip (Nat.le_of_eq h.symm)

/-- Each case comes with its place. -/
theorem Aligned.map_fst_zip (h : d.Aligned) :
    (d.function.cases.zip d.casesAt).map (·.1) = d.function.cases :=
  List.map_fst_zip (Nat.le_of_eq h)

end Definition

/-- The parts of a pending function; one whose header could not be read has none. -/
def Pending.parts (p : Pending) : List Part :=
  match p.header with
  | some h => .header h p.headerAt :: p.cases.reverse.map fun x ↦ .case p.headerAt x.1 x.2
  | none => []

/-- A pending function has the parts of the definition it amounts to. -/
theorem Pending.flatMap_parts_definition? (p : Pending) :
    p.definition?.toList.flatMap Definition.parts = p.parts := by
  cases hheader : p.header with
  | none => simp [definition?, parts, hheader]
  | some h =>
    simp only [definition?, parts, hheader, Option.map_some, Option.toList_some, List.flatMap_cons,
      List.flatMap_nil, List.append_nil, Definition.parts, List.zip_map', List.map_map]
    rfl

namespace Document

private theorem flatMap_parts_pendingDefinitions (pending : Option Pending) :
    (pendingDefinitions pending).flatMap Definition.parts =
      pending.toList.flatMap Pending.parts := by
  cases pending with
  | none => rfl
  | some p => simp [Pending.flatMap_parts_definition?]

/-- The part that a line is read as: a header, or a case after a header that could be read. -/
def part? (pending : Option Pending) (line : Line) : Option Part :=
  match line.kind with
  | .header => (Header.parse? line.text).map (.header · line.span)
  | .case => do
    let p ← pending
    let _ ← p.header
    let c ← Case.parse? line.text
    some (.case p.headerAt c line.span)
  | _ => none

end Document

namespace Ledger

/-- The ledger of the parts of functions. -/
def parts : Ledger Part where
  held pending := pending.toList.flatMap Pending.parts
  income pending line := (part? pending line).toList
  entries d := d.definitions.flatMap Definition.parts
  held_none := rfl
  entries_append a b := List.flatMap_append
  entries_atEnd pending := by rw [definitions_atEnd, flatMap_parts_pendingDefinitions]
  entries_step {line pending next added} h := by
    cases h with
    | blank hkind => simp [part?, hkind]
    | header h hkind hparse =>
      simp [part?, hkind, hparse, flatMap_parts_pendingDefinitions, Pending.parts]
    | malformedHeader hkind hparse =>
      simp [part?, hkind, hparse, flatMap_parts_pendingDefinitions, Pending.parts]
    | opening p hkind => simp [part?, hkind, Pending.parts]
    | strayOpening hkind => simp [part?, hkind]
    | extraOpening p hkind => simp [part?, hkind]
    | closing p hkind => simp [part?, hkind, Pending.flatMap_parts_definition?]
    | strayClosing hkind => simp [part?, hkind]
    | case p c hkind hparse =>
      cases hheader : p.header with
      | none => simp [part?, hkind, hheader, Pending.parts]
      | some h => simp [part?, hkind, hheader, hparse, Pending.parts]
    | strayCase hkind => simp [part?, hkind]
    | malformedCase p hkind hparse => simp [part?, hkind, hparse]

end Ledger

/-! ## Documents of lines -/

namespace Document

/-- A line is read as a header part if it is a header that can be read. -/
theorem of_part?_eq_header {pending : Option Pending} {line : Line} {h : Header} {s : Span}
    (hpart : part? pending line = some (.header h s)) :
    line.kind = .header ∧ Header.parse? line.text = some h ∧ s = line.span := by
  unfold part? at hpart
  split at hpart
  · next hkind =>
    obtain ⟨h', hparse, heq⟩ := Option.map_eq_some_iff.mp hpart
    obtain ⟨rfl, rfl⟩ := Part.header.inj heq
    exact ⟨hkind, hparse, rfl⟩
  · simp [Option.bind_eq_some_iff] at hpart
  · cases hpart

/-- A line is read as a case part if it is a case that can be read, after a header that could be
read. -/
theorem of_part?_eq_case {pending : Option Pending} {line : Line} {c : Case} {headerAt s : Span}
    (hpart : part? pending line = some (.case headerAt c s)) :
    line.kind = .case ∧ Case.parse? line.text = some c ∧ s = line.span := by
  unfold part? at hpart
  split at hpart
  · simp at hpart
  · next hkind =>
    simp only [Option.bind_eq_bind, Option.bind_eq_some_iff, Option.some.injEq,
      Part.case.injEq] at hpart
    obtain ⟨p, -, h, -, c', hparse, -, rfl, rfl⟩ := hpart
    exact ⟨hkind, hparse, rfl⟩
  · cases hpart

/-- A part stands where its line does. -/
theorem place_of_part? {pending : Option Pending} {line : Line} {x : Part}
    (hpart : part? pending line = some x) : x.place = line.span := by
  cases x with
  | header h s => exact (of_part?_eq_header hpart).2.2
  | case headerAt c s => exact (of_part?_eq_case hpart).2.2

/-- The parts of a document are what its lines are read as, in order. -/
theorem flatMap_parts_assemble (lines : List Line) :
    (assemble lines).definitions.flatMap Definition.parts =
      (readings none lines).flatMap fun r ↦ (part? r.1 r.2).toList :=
  Ledger.parts.entries_assemble lines

theorem mem_parts_assemble {lines : List Line} {x : Part} :
    x ∈ (assemble lines).definitions.flatMap Definition.parts ↔
      ∃ r ∈ readings none lines, part? r.1 r.2 = some x := by
  rw [flatMap_parts_assemble, List.mem_flatMap]
  simp only [Option.mem_toList]

variable {lines : List Line} {d : Definition Span}

/-- The header of a function was read from a header line that stands at its place. -/
theorem exists_header_of_mem (h : d ∈ (assemble lines).definitions) :
    ∃ line ∈ lines, line.kind = .header ∧ Header.parse? line.text = some d.function.header ∧
      d.headerAt = line.span := by
  obtain ⟨r, hr, hpart⟩ := mem_parts_assemble.mp
    (List.mem_flatMap.mpr ⟨d, h, List.mem_cons_self⟩)
  exact ⟨r.2, mem_of_mem_readings hr, of_part?_eq_header hpart⟩

/-- Each case of a function was read from a case line that stands at its place. -/
theorem exists_case_of_mem (h : d ∈ (assemble lines).definitions) {x : Case × Span}
    (hx : x ∈ d.function.cases.zip d.casesAt) :
    ∃ line ∈ lines, line.kind = .case ∧ Case.parse? line.text = some x.1 ∧ x.2 = line.span := by
  obtain ⟨r, hr, hpart⟩ := mem_parts_assemble.mp (List.mem_flatMap.mpr
    ⟨d, h, List.mem_cons_of_mem _ (List.mem_map_of_mem hx)⟩)
  exact ⟨r.2, mem_of_mem_readings hr, of_part?_eq_case hpart⟩

/-- A step adds no definition but the pending one. -/
theorem Step.mem_pendingDefinitions {line : Line} {pending next : Option Pending}
    {added : Document Span} (h : Step line pending next added) (hd : d ∈ added.definitions) :
    d ∈ pendingDefinitions pending := by
  cases h with
  | header | malformedHeader => simpa using hd
  | closing => simpa using hd
  | blank | opening | strayOpening | extraOpening | strayClosing | case | strayCase
  | malformedCase => cases hd

private theorem aligned_of_mem_pendingDefinitions {pending : Option Pending}
    (hd : d ∈ pendingDefinitions pending) : d.Aligned := by
  cases pending with
  | none => cases hd
  | some p =>
    obtain ⟨h, -, rfl⟩ := Option.map_eq_some_iff.mp (Option.mem_toList.mp hd)
    simp [Definition.Aligned]

/-- All cases of a document have places. -/
theorem aligned_of_mem_assembleFrom {pending : Option Pending}
    (hd : d ∈ (assembleFrom pending lines).definitions) : d.Aligned := by
  induction lines generalizing pending with
  | nil =>
    rw [assembleFrom, definitions_atEnd] at hd
    exact aligned_of_mem_pendingDefinitions hd
  | cons line rest ih =>
    rw [assembleFrom_cons, definitions_append] at hd
    rcases List.mem_append.mp hd with hd | hd
    · exact aligned_of_mem_pendingDefinitions ((step_spec pending line).mem_pendingDefinitions hd)
    · exact ih hd

end Document

end Lilac
