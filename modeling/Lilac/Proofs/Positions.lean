import Lilac.Proofs.Checks
import Lilac.Proofs.Spans

/-!
# Positions in documents

Every place in the document of a source text, and every place of its diagnostics, is that of a
scanned line that is not blank. Reading the source text again at the place of a header or a case
gives that header or case, and the places of all parts of functions come in the order of the source.

About `scan` and `parse_document`. Specification: `SPEC_FULL.md`, section 2.
-/

namespace Lilac

private theorem Definition.Aligned.map_place_parts {d : Definition Span} (h : d.Aligned) :
    d.parts.map Part.place = d.places := by
  rw [parts, places, List.map_cons, List.map_map]
  exact congrArg (d.headerAt :: ·) h.map_snd_zip

namespace Document

/-! ## Places of lines -/

/-- If lines and the pending header have places of some kind, what a line leaves pending and the
faults it adds have them as well. -/
theorem Step.places {P : Span → Prop} {line : Line} {pending next : Option Pending}
    {added : Document Span} (h : Step line pending next added)
    (hline : line.kind ≠ .blank → P line.span) (hpending : ∀ p ∈ pending, P p.headerAt) :
    (∀ p ∈ next, P p.headerAt) ∧ ∀ i ∈ added.issues, P i.place := by
  cases h with
  | blank => exact ⟨hpending, by simp⟩
  | header h hkind =>
    have hplace := hline (by simp [hkind])
    refine ⟨by simpa using hplace, ?_⟩
    cases hopen : isOpen pending <;> simp [hopen, hplace]
  | malformedHeader hkind =>
    have hplace := hline (by simp [hkind])
    refine ⟨by simpa using hplace, ?_⟩
    cases hopen : isOpen pending <;> simp [hopen, hplace]
  | opening p => exact ⟨by simpa using hpending, by simp⟩
  | case p => exact ⟨by simpa using hpending, by simp⟩
  | closing p => exact ⟨by simp, by simp⟩
  | strayOpening hkind | extraOpening _ hkind | strayClosing hkind | strayCase hkind
  | malformedCase _ hkind =>
    exact ⟨hpending, by simpa using hline (by simp [hkind])⟩

private theorem place_of_mem_issues {P : Span → Prop} {pending : Option Pending} {lines : List Line}
    (hlines : ∀ line ∈ lines, line.kind ≠ .blank → P line.span)
    (hpending : ∀ p ∈ pending, P p.headerAt) :
    ∀ i ∈ (assembleFrom pending lines).issues, P i.place := by
  induction lines generalizing pending with
  | nil =>
    cases pending with
    | none => simp [assembleFrom]
    | some p =>
      have hplace := hpending p rfl
      cases hopen : p.isOpen <;> simp [assembleFrom, issues_atEnd_some, hopen, hplace]
  | cons line rest ih =>
    obtain ⟨hline, hrest⟩ := List.forall_mem_cons.mp hlines
    obtain ⟨hnext, hadded⟩ := (step_spec pending line).places hline hpending
    rw [assembleFrom_cons, issues_append]
    exact List.forall_mem_append.mpr ⟨hadded, ih hrest hnext⟩

/-- Every place of a document is that of a line that is not blank. -/
theorem exists_line_of_mem_places {lines : List Line} {s : Span} (h : s ∈ (assemble lines).places) :
    ∃ line ∈ lines, line.kind ≠ .blank ∧ line.span = s := by
  rcases List.mem_append.mp h with h | h
  · obtain ⟨i, hi, rfl⟩ := List.mem_map.mp h
    exact place_of_mem_issues (P := fun s ↦ ∃ line ∈ lines, line.kind ≠ .blank ∧ line.span = s)
      (fun line hline hkind ↦ ⟨line, hline, hkind, rfl⟩) (by simp) i hi
  · obtain ⟨d, hd, hs⟩ := List.mem_flatMap.mp h
    rcases List.mem_cons.mp hs with rfl | hs
    · obtain ⟨line, hline, hkind, -, hspan⟩ := exists_header_of_mem hd
      exact ⟨line, hline, by simp [hkind], hspan.symm⟩
    · rw [← (aligned_of_mem_assembleFrom hd).map_snd_zip] at hs
      obtain ⟨x, hx, rfl⟩ := List.mem_map.mp hs
      obtain ⟨line, hline, hkind, -, hspan⟩ := exists_case_of_mem hd hx
      exact ⟨line, hline, by simp [hkind], hspan.symm⟩

private theorem place_parts_sublist (rs : List (Option Pending × Line)) :
    ((rs.flatMap fun r ↦ (part? r.1 r.2).toList).map Part.place).Sublist
      (rs.map fun r ↦ r.2.span) := by
  induction rs with
  | nil => exact .slnil
  | cons r rs ih =>
    rw [List.flatMap_cons, List.map_append, List.map_cons]
    cases hpart : part? r.1 r.2 with
    | none => exact ih.cons _
    | some x =>
      rw [← place_of_part? hpart]
      exact ih.cons_cons _

private theorem flatMap_places_sublist (lines : List Line) :
    ((assemble lines).definitions.flatMap Definition.places).Sublist (lines.map (·.span)) := by
  have hparts : (assemble lines).definitions.flatMap Definition.places =
      ((assemble lines).definitions.flatMap Definition.parts).map Part.place := by
    rw [List.map_flatMap]
    exact congrArg List.flatten
      (List.map_congr_left fun d hd ↦ (aligned_of_mem_assembleFrom hd).map_place_parts.symm)
  have hspans : (readings none lines).map (fun r ↦ r.2.span) = lines.map (·.span) := by
    conv => rhs; rw [← map_snd_readings none lines, List.map_map]
    rfl
  rw [hparts, flatMap_parts_assemble, ← hspans]
  exact place_parts_sublist _

/-! ## Places in a source text -/

variable {source : Text}

/-- Every place of the document of a source text is genuine. -/
theorem genuine_of_mem_places {s : Span} (h : s ∈ (parse source).places) : s.Genuine source := by
  obtain ⟨line, hline, hkind, rfl⟩ := exists_line_of_mem_places h
  exact Line.genuine_span hline hkind

/-- The diagnostics of a source text can be given, and all of them are at genuine places. -/
theorem exists_check?_genuine (source : Text) (limit : Int) :
    ∃ found, ((parse source).mapPlaces some).check? limit = some found ∧
      ∀ x ∈ found, ∃ s, x.span = some s ∧ s.Genuine source := by
  refine ⟨_, check?_eq (fun _ ↦ aligned_of_mem_assembleFrom) limit, fun x hx ↦ ?_⟩
  have hfound : x ∈ (parse source).findings :=
    List.mem_mergeSort.mp ((takeLimit_sublist limit _).subset hx)
  obtain ⟨s, hs, hspan⟩ := exists_place_of_mem_findings hfound
  exact ⟨s, hspan, genuine_of_mem_places hs⟩

/-- The header of a function is read again at its place. -/
theorem parse?_cut_headerAt {d : Definition Span} (h : d ∈ (parse source).definitions) :
    Header.parse? (d.headerAt.cut source) = some d.function.header := by
  obtain ⟨line, hline, -, hparse, hspan⟩ := exists_header_of_mem h
  rw [hspan, Line.cut_span hline, hparse]

/-- The cases of a function are read again at their places. -/
theorem map_parse?_cut_casesAt {d : Definition Span} (h : d ∈ (parse source).definitions) :
    d.casesAt.map (fun s ↦ Case.parse? (s.cut source)) = d.function.cases.map some := by
  have haligned : d.Aligned := aligned_of_mem_assembleFrom h
  have hread : ∀ x ∈ d.function.cases.zip d.casesAt,
      Case.parse? (x.2.cut source) = some x.1 := by
    intro x hx
    obtain ⟨line, hline, -, hparse, hspan⟩ := exists_case_of_mem h hx
    rw [hspan, Line.cut_span hline, hparse]
  conv => lhs; rw [← haligned.map_snd_zip, List.map_map]
  conv => rhs; rw [← haligned.map_fst_zip, List.map_map]
  exact List.map_congr_left hread

/-- The places of all functions, each with its header before its cases, come in order. -/
theorem pairwise_flatMap_places (source : Text) :
    ((parse source).definitions.flatMap Definition.places).Pairwise Span.Before :=
  (List.pairwise_map.mpr (Line.pairwise_scan source)).sublist (flatMap_places_sublist _)

-- A brace at the end of a header, a carriage return and a comment do not count.
example : (parse "\tfunc f x -> y \x7b\r\n f(x) = 1; // one\r\n\x7d".toList).definitions.flatMap
    Definition.places = [⟨1, 2, 15⟩, ⟨2, 2, 11⟩] := by cbv

/-- Every position in the document of a source text and in its diagnostics is genuine; headers and
cases are read again at their places; and the places of all functions are strictly increasing. -/
theorem positions_genuine (source : Text) (limit : Int) :
    (∀ s ∈ (parse source).places, s.Genuine source) ∧
      (∃ found, ((parse source).mapPlaces some).check? limit = some found ∧
        ∀ x ∈ found, ∃ s, x.span = some s ∧ s.Genuine source) ∧
      (∀ d ∈ (parse source).definitions,
        Header.parse? (d.headerAt.cut source) = some d.function.header ∧
          d.casesAt.map (fun s ↦ Case.parse? (s.cut source)) = d.function.cases.map some) ∧
      ((parse source).definitions.flatMap Definition.places).Pairwise Span.Before :=
  ⟨fun _ ↦ genuine_of_mem_places, exists_check?_genuine source limit,
    fun _ h ↦ ⟨parse?_cut_headerAt h, map_parse?_cut_casesAt h⟩, pairwise_flatMap_places source⟩

end Document

end Lilac
