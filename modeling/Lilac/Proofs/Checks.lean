import Lilac.Check
import Lilac.Proofs.Ledgers

/-!
# Diagnostics of documents whose cases have places

A violation is in the header of its function or in one of its cases. Where every case has a place,
as in all documents that are read, the diagnostics of a document can therefore always be given: one
for each fault, and one for each function with a violation, at a place of the document.
-/

namespace Lilac

/-! ## Where a violation is -/

private theorem Case.caseIndex_of_violation? {inputs : List Text} {index : Nat} {c : Case}
    {v : Violation} (h : c.violation? inputs index = some v) : v.caseIndex = some index := by
  unfold violation? at h
  split at h
  · obtain rfl := Option.some.inj h
    rfl
  · obtain ⟨position, -, rfl⟩ := Option.map_eq_some_iff.mp h
    rfl

/-- The first violation among some cases is in one of them. -/
theorem Case.caseIndex_of_firstViolation? {inputs : List Text} {index : Nat} {cs : List Case}
    {v : Violation} (h : firstViolation? inputs index cs = some v) :
    ∃ i, v.caseIndex = some i ∧ index ≤ i ∧ i < index + cs.length := by
  induction cs generalizing index with
  | nil => cases h
  | cons c cs ih =>
    simp only [firstViolation?, Option.orElse_eq_orElse, Option.orElse_eq_or,
      Option.or_eq_some_iff] at h
    rw [List.length_cons]
    rcases h with h | ⟨-, h⟩
    · exact ⟨index, caseIndex_of_violation? h, by omega, by omega⟩
    · obtain ⟨i, hi, hlow, hhigh⟩ := ih h
      exact ⟨i, hi, by omega, by omega⟩

/-- The case that a violation of a function is in is one of its cases. -/
theorem Function.caseIndex_lt {f : Function} {v : Violation} (h : f.violation? = some v) :
    ∀ i ∈ v.caseIndex, i < f.cases.length := by
  intro i hi
  unfold violation? at h
  split at h
  · obtain rfl := Option.some.inj h
    cases hi
  · obtain ⟨j, hj, -, hlt⟩ := Case.caseIndex_of_firstViolation? h
    rw [Option.mem_def, hj] at hi
    obtain rfl := Option.some.inj hi
    omega

/-- A violation of a function with a name is in one of its cases. -/
theorem Function.exists_caseIndex {f : Function} {v : Violation} (hname : f.header.name ≠ [])
    (h : f.violation? = some v) : ∃ i, v.caseIndex = some i ∧ i < f.cases.length := by
  have hlt := caseIndex_lt h
  rw [violation?, if_neg hname] at h
  obtain ⟨i, hi, -, -⟩ := Case.caseIndex_of_firstViolation? h
  exact ⟨i, hi, hlt i hi⟩

/-! ## What is found -/

namespace Definition

/-- Where a violation is placed: at the case it is in, or at the header. -/
def placeOf (d : Definition Span) (v : Violation) : Span :=
  match v.caseIndex with
  | none => d.headerAt
  | some i => d.casesAt.getD i d.headerAt

/-- The places of a definition, header first. -/
def places (d : Definition Span) : List Span := d.headerAt :: d.casesAt

/-- A violation is placed at the header or at a case. -/
theorem placeOf_mem (d : Definition Span) (v : Violation) : d.placeOf v ∈ d.places := by
  unfold placeOf
  split
  · exact List.mem_cons_self
  · next i _ =>
    rw [List.getD_eq_getElem?_getD]
    cases hi : d.casesAt[i]? with
    | none => exact List.mem_cons_self
    | some s => exact List.mem_cons_of_mem _ (List.mem_of_getElem? hi)

/-- The diagnostic of a definition, if its function has a violation. -/
def finding? (d : Definition Span) : Option Diagnostic :=
  d.function.violation?.map fun v ↦ v.toDiagnostic (some (d.placeOf v))

private theorem Aligned.diagnostic?_eq {d : Definition Span} (h : d.Aligned) :
    Definition.diagnostic? ⟨d.function, some d.headerAt, d.casesAt.map some⟩ =
      some d.finding? := by
  rw [diagnostic?, finding?]
  cases hv : d.function.violation? with
  | none => rfl
  | some v =>
    have hlt := Function.caseIndex_lt hv
    cases hindex : v.caseIndex with
    | none => simp [placeOf?, placeOf, hindex]
    | some i =>
      have hi : i < d.casesAt.length := h ▸ hlt i hindex
      simp [placeOf?, placeOf, hindex, hi]

end Definition

/-- The diagnostic of a fault. -/
def Issue.finding (i : Issue Span) : Diagnostic := ⟨.error, i.fault.message, none, some i.place⟩

namespace Document

/-- All places of a document: those of its faults and those of its functions. -/
def places (d : Document Span) : List Span :=
  d.issues.map (·.place) ++ d.definitions.flatMap Definition.places

/-- What is found in a document: its faults, then the first violation of each function. -/
def findings (d : Document Span) : List Diagnostic :=
  d.issues.map Issue.finding ++ d.definitions.filterMap Definition.finding?

private theorem mapM_diagnostic? {ds : List (Definition Span)} (h : ∀ d ∈ ds, d.Aligned) :
    (ds.map fun d ↦ (⟨d.function, some d.headerAt, d.casesAt.map some⟩ :
      Definition (Option Span))).mapM Definition.diagnostic? =
        some (ds.map Definition.finding?) := by
  induction ds with
  | nil => rfl
  | cons d ds ih =>
    obtain ⟨hd, hds⟩ := List.forall_mem_cons.mp h
    rw [List.map_cons, List.mapM_cons, hd.diagnostic?_eq, ih hds]
    rfl

/-- If all cases have places, the diagnostics of a document can be given. -/
theorem diagnostics?_eq {d : Document Span} (h : ∀ x ∈ d.definitions, x.Aligned) :
    (d.mapPlaces some).diagnostics? = some d.findings := by
  have hissues : (d.mapPlaces some).issues.map Issue.toDiagnostic = d.issues.map Issue.finding := by
    simp [mapPlaces, Issue.toDiagnostic, Issue.finding]
  have hdefinitions : (d.mapPlaces some).definitions.mapM Definition.diagnostic? =
      some (d.definitions.map Definition.finding?) := mapM_diagnostic? h
  have hfound : (d.definitions.map Definition.finding?).reduceOption =
      d.definitions.filterMap Definition.finding? := List.filterMap_map
  rw [diagnostics?, hdefinitions, hissues, findings, ← hfound]
  rfl

/-- If all cases have places, checking a document lists what is found in it by position. -/
theorem check?_eq {d : Document Span} (h : ∀ x ∈ d.definitions, x.Aligned) (limit : Int) :
    (d.mapPlaces some).check? limit =
      some (takeLimit limit (d.findings.mergeSort Diagnostic.notAfter)) := by
  rw [check?, diagnostics?_eq h]
  rfl

/-- What is found in a document is at one of its places. -/
theorem exists_place_of_mem_findings {d : Document Span} {x : Diagnostic} (h : x ∈ d.findings) :
    ∃ s ∈ d.places, x.span = some s := by
  rcases List.mem_append.mp h with h | h
  · obtain ⟨i, hi, rfl⟩ := List.mem_map.mp h
    exact ⟨i.place, List.mem_append_left _ (List.mem_map_of_mem hi), rfl⟩
  · obtain ⟨y, hy, hfinding⟩ := List.mem_filterMap.mp h
    obtain ⟨v, -, rfl⟩ := Option.map_eq_some_iff.mp hfinding
    have hplace : y.placeOf v ∈ d.definitions.flatMap Definition.places :=
      List.mem_flatMap.mpr ⟨y, hy, y.placeOf_mem v⟩
    exact ⟨y.placeOf v, List.mem_append_right _ hplace, rfl⟩

end Document

/-- Cutting off a list at a limit keeps a part of it. -/
theorem takeLimit_sublist {α : Type} (limit : Int) (xs : List α) :
    (takeLimit limit xs).Sublist xs := by
  unfold takeLimit
  split
  · exact List.take_sublist _ _
  · exact List.take_sublist _ _

end Lilac
