import Lilac.Document.Assembly

/-!
# Runs of the assembler

The document of some lines is what a run over them adds, followed by what is still pending at the
end. Runs over two parts of a text compose, and what holds of every header and of every case that
can be read from a line holds of the functions of the document: a step only adds functions whose
parts were read from lines.
-/

namespace Lilac

namespace Document

/-! ## Concatenation -/

section Concatenation

variable {σ : Type}

@[simp]
theorem empty_append (d : Document σ) : empty ++ d = d := rfl

@[simp]
theorem append_empty (d : Document σ) : d ++ empty = d := by
  show Document.mk _ _ = _
  rw [empty, List.append_nil, List.append_nil]

theorem append_assoc (a b c : Document σ) : a ++ b ++ c = a ++ (b ++ c) := by
  show Document.mk _ _ = Document.mk _ _
  congr 1 <;> exact List.append_assoc _ _ _

@[simp]
theorem issues_append (a b : Document σ) : (a ++ b).issues = a.issues ++ b.issues := rfl

@[simp]
theorem functions_append (a b : Document σ) : (a ++ b).functions = a.functions ++ b.functions :=
  List.map_append

end Concatenation

/-! ## Runs -/

/-- What is pending after some lines, and what they add to the document. -/
def run (pending : Option Pending) : List Line → Option Pending × Document Span
  | [] => (pending, .empty)
  | line :: rest =>
    let (next, added) := step pending line
    let (last, more) := run next rest
    (last, added ++ more)

@[simp]
theorem run_nil (pending : Option Pending) : run pending [] = (pending, .empty) := rfl

theorem run_cons (pending : Option Pending) (line : Line) (rest : List Line) :
    run pending (line :: rest) = ((run (step pending line).1 rest).1,
      (step pending line).2 ++ (run (step pending line).1 rest).2) := rfl

/-- A run over one line is a step. -/
@[simp]
theorem run_singleton (pending : Option Pending) (line : Line) :
    run pending [line] = step pending line := by
  rw [run_cons, run_nil, append_empty]

/-- A run over two parts is a run over the first and then one over the second. -/
theorem run_append (pending : Option Pending) (a b : List Line) :
    run pending (a ++ b) = ((run (run pending a).1 b).1,
      (run pending a).2 ++ (run (run pending a).1 b).2) := by
  induction a generalizing pending with
  | nil => rfl
  | cons line a ih => rw [List.cons_append, run_cons, ih, run_cons, append_assoc]

/-- The document of some lines is what a run over them adds and what is left pending. -/
theorem assembleFrom_eq (pending : Option Pending) (lines : List Line) :
    assembleFrom pending lines = (run pending lines).2 ++ atEnd (run pending lines).1 := by
  induction lines generalizing pending with
  | nil => rfl
  | cons line rest ih =>
    rw [assembleFrom, run_cons, append_assoc, ← ih]

end Document

/-- A complete function whose header could be read has the cases collected for it. -/
theorem Pending.functions_finish {p : Pending} {h : Header} (hp : p.header = some h) :
    p.finish.functions = [⟨h, p.cases.reverse.map (·.1)⟩] := by
  rw [finish, hp]
  rfl

/-- Completing a function reports nothing. -/
theorem Pending.issues_finish (p : Pending) : p.finish.issues = [] := by
  unfold finish
  split <;> rfl

/-! ## Where functions come from -/

variable {H : Header → Prop} {C : Case → Prop}

/-- A function whose header and cases have given properties. -/
structure Function.MadeOf (H : Header → Prop) (C : Case → Prop) (f : Function) : Prop where
  header : H f.header
  cases : ∀ c ∈ f.cases, C c

/-- A pending function whose header, if it could be read, and cases have given properties. -/
structure Pending.MadeOf (H : Header → Prop) (C : Case → Prop) (p : Pending) : Prop where
  header : ∀ h ∈ p.header, H h
  cases : ∀ x ∈ p.cases, C x.1

/-- A complete function is made of what was pending. -/
theorem Pending.MadeOf.finish {p : Pending} (hp : p.MadeOf H C) :
    ∀ f ∈ p.finish.functions, f.MadeOf H C := by
  intro f hf
  unfold Pending.finish at hf
  split at hf
  · next h hheader =>
    obtain rfl := List.mem_singleton.mp hf
    refine ⟨hp.header h hheader, fun c hc ↦ ?_⟩
    obtain ⟨x, hx, rfl⟩ := List.mem_map.mp hc
    exact hp.cases x (List.mem_reverse.mp hx)
  · exact absurd hf List.not_mem_nil

namespace Document

/-- What a line or a run gives, if it is made of headers and cases with given properties. -/
structure MadeOf (H : Header → Prop) (C : Case → Prop)
    (result : Option Pending × Document Span) : Prop where
  pending : ∀ p ∈ result.1, p.MadeOf H C
  functions : ∀ f ∈ result.2.functions, f.MadeOf H C

/-- A fault adds no function to what is pending. -/
theorem madeOf_fault {pending : Option Pending} (hp : ∀ p ∈ pending, p.MadeOf H C) (fault : Fault)
    (place : Span) : MadeOf H C (pending, .fault fault place) :=
  ⟨hp, List.forall_mem_nil _⟩

/-- A header finishes what is pending and starts a function without cases. -/
theorem madeOf_onHeader {pending : Option Pending} {line : Line}
    (hheader : ∀ h, Header.parse? line.text = some h → H h) (hp : ∀ p ∈ pending, p.MadeOf H C) :
    MadeOf H C (onHeader pending line) := by
  constructor
  · intro p hnew
    obtain rfl := Option.some.inj hnew
    exact ⟨hheader, List.forall_mem_nil _⟩
  · have hfault : (if Header.parse? line.text = none then
        fault .malformedHeader line.span else empty).functions = [] := by
      split <;> rfl
    rw [onHeader, functions_append, hfault, List.append_nil]
    cases pending with
    | none => exact List.forall_mem_nil _
    | some p =>
      have hopen : (if p.isOpen then
          fault .unclosedBeforeHeader line.span else empty).functions = [] := by
        split <;> rfl
      rw [beforeHeader, functions_append, hopen]
      exact (hp p rfl).finish

/-- An opening brace changes neither header nor cases. -/
theorem madeOf_onOpening {pending : Option Pending} {line : Line}
    (hp : ∀ p ∈ pending, p.MadeOf H C) : MadeOf H C (onOpening pending line) := by
  cases pending with
  | none => exact madeOf_fault hp _ _
  | some p =>
    rw [onOpening]
    split
    · exact madeOf_fault hp _ _
    · refine ⟨fun q hq ↦ ?_, List.forall_mem_nil _⟩
      obtain rfl := Option.some.inj hq
      exact ⟨(hp p rfl).header, (hp p rfl).cases⟩

/-- A closing brace finishes what is pending, if it is open. -/
theorem madeOf_onClosing {pending : Option Pending} {line : Line}
    (hp : ∀ p ∈ pending, p.MadeOf H C) : MadeOf H C (onClosing pending line) := by
  cases pending with
  | none => exact madeOf_fault hp _ _
  | some p =>
    rw [onClosing]
    split
    · exact ⟨fun q hq ↦ absurd hq (Option.not_mem_none q), (hp p rfl).finish⟩
    · exact madeOf_fault hp _ _

/-- A case that can be read joins what is pending. -/
theorem madeOf_onCase {pending : Option Pending} {line : Line}
    (hcase : ∀ c, Case.parse? line.text = some c → C c) (hp : ∀ p ∈ pending, p.MadeOf H C) :
    MadeOf H C (onCase pending line) := by
  cases pending with
  | none => exact madeOf_fault hp _ _
  | some p =>
    rw [onCase]
    split
    · exact madeOf_fault hp _ _
    · next c hc =>
      refine ⟨fun q hq ↦ ?_, List.forall_mem_nil _⟩
      obtain rfl := Option.some.inj hq
      exact ⟨(hp p rfl).header, List.forall_mem_cons.mpr ⟨hcase c hc, (hp p rfl).cases⟩⟩

/-- What a step keeps: if its line can only be read as a header or case with the given properties,
what it gives is made of such headers and cases. -/
theorem madeOf_step {pending : Option Pending} {line : Line}
    (hheader : ∀ h, Header.parse? line.text = some h → H h)
    (hcase : ∀ c, Case.parse? line.text = some c → C c) (hp : ∀ p ∈ pending, p.MadeOf H C) :
    MadeOf H C (step pending line) := by
  unfold step
  split
  · exact madeOf_onHeader hheader hp
  · exact madeOf_onOpening hp
  · exact madeOf_onClosing hp
  · exact madeOf_onCase hcase hp
  · exact ⟨hp, List.forall_mem_nil _⟩

/-- What a run keeps, if all its lines can only be read as headers and cases with the given
properties. -/
theorem madeOf_run {lines : List Line}
    (hheader : ∀ line ∈ lines, ∀ h, Header.parse? line.text = some h → H h)
    (hcase : ∀ line ∈ lines, ∀ c, Case.parse? line.text = some c → C c)
    {pending : Option Pending} (hp : ∀ p ∈ pending, p.MadeOf H C) :
    MadeOf H C (run pending lines) := by
  induction lines generalizing pending with
  | nil => exact ⟨hp, List.forall_mem_nil _⟩
  | cons line rest ih =>
    obtain ⟨hh, hheaders⟩ := List.forall_mem_cons.mp hheader
    obtain ⟨hc, hcases⟩ := List.forall_mem_cons.mp hcase
    obtain ⟨hnext, hadded⟩ := madeOf_step hh hc hp
    obtain ⟨hlast, hmore⟩ := ih hheaders hcases hnext
    refine ⟨hlast, ?_⟩
    rw [run_cons, functions_append]
    exact List.forall_mem_append.mpr ⟨hadded, hmore⟩

/-- The functions of a document are made of headers and cases that were read from its lines. -/
theorem madeOf_assemble {lines : List Line}
    (hheader : ∀ line ∈ lines, ∀ h, Header.parse? line.text = some h → H h)
    (hcase : ∀ line ∈ lines, ∀ c, Case.parse? line.text = some c → C c) :
    ∀ f ∈ (assemble lines).functions, f.MadeOf H C := by
  have hrun : MadeOf H C (run none lines) :=
    madeOf_run hheader hcase fun p hp ↦ absurd hp (Option.not_mem_none p)
  rw [assemble, assembleFrom_eq, functions_append]
  refine List.forall_mem_append.mpr ⟨hrun.functions, ?_⟩
  cases hpending : (run none lines).1 with
  | none => exact List.forall_mem_nil _
  | some p =>
    have hopen : (if p.isOpen then fault .unclosedAtEnd p.headerAt else empty).functions = [] := by
      split <;> rfl
    rw [atEnd, functions_append, hopen]
    exact (hrun.pending p hpending).finish

end Document

end Lilac
