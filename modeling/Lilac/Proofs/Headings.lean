import Lilac.Proofs.Steps

/-!
# Under which header a line stands

What is pending after some lines is told by the lines alone: by the last header among them and what
came after it. The function of that header is opened by a brace before its first case, it is closed
by a brace after that, and it is pending until then.
-/

namespace Lilac

namespace Line

/-- A case that can be read. -/
def IsReadableCase (line : Line) : Prop := line.kind = .case ∧ Case.parse? line.text ≠ none

/-- Some line stands in a relation to the lines before it. -/
def Occurs (P : List Line → Line → Prop) (lines : List Line) : Prop :=
  ∃ before line after, lines = before ++ line :: after ∧ P before line

/-- After one more line, it is that line or one of those before it. -/
theorem occurs_concat {P : List Line → Line → Prop} {lines : List Line} {line : Line} :
    Occurs P (lines ++ [line]) ↔ Occurs P lines ∨ P lines line := by
  constructor
  · rintro ⟨before, x, after, heq, hx⟩
    rcases List.eq_nil_or_concat after with rfl | ⟨after, y, rfl⟩
    · obtain ⟨rfl, hlast⟩ := List.append_inj' heq rfl
      obtain rfl := List.singleton_inj.mp hlast
      exact .inr hx
    · rw [List.concat_eq_append, ← List.cons_append, ← List.append_assoc] at heq
      exact .inl ⟨before, x, after, (List.append_inj' heq rfl).1, hx⟩
  · rintro (⟨before, x, after, rfl, hx⟩ | hline)
    · exact ⟨before, x, after ++ [line], by simp, hx⟩
    · exact ⟨lines, line, [], rfl, hline⟩

/-- The lines after a header open its function: there is an opening brace before any case that can
be read. -/
def Opened (since : List Line) : Prop :=
  Occurs (fun before line ↦ line.kind = .opening ∧ ∀ l ∈ before, ¬l.IsReadableCase) since

/-- The lines after a header close its function: there is a closing brace after it was opened. -/
def Closed (since : List Line) : Prop :=
  Occurs (fun before line ↦ line.kind = .closing ∧ Opened before) since

/-- The last header among some lines, and the lines after it. -/
structure LastHeader (lines : List Line) (header : Line) (since : List Line) : Prop where
  kind : header.kind = .header
  headerless : ∀ line ∈ since, line.kind ≠ .header
  split : ∃ earlier, lines = earlier ++ header :: since

private theorem headerless_or_exists_lastHeader (lines : List Line) :
    (∀ line ∈ lines, line.kind ≠ .header) ∨ ∃ header since, LastHeader lines header since := by
  induction lines with
  | nil => exact .inl (by simp)
  | cons line rest ih =>
    rcases ih with hrest | ⟨header, since, hkind, hsince, earlier, rfl⟩
    · by_cases hkind : line.kind = .header
      · exact .inr ⟨line, rest, hkind, hrest, [], rfl⟩
      · exact .inl (List.forall_mem_cons.mpr ⟨hkind, hrest⟩)
    · exact .inr ⟨header, since, hkind, hsince, line :: earlier, rfl⟩

end Line

open Line

/-- A pending function is what a header and the lines after it amount to. -/
structure Pending.Tracks (header : Line) (since : List Line) (p : Pending) : Prop where
  header_eq : p.header = Header.parse? header.text
  headerAt_eq : p.headerAt = header.span
  not_closed : ¬Closed since
  isOpen_iff : p.isOpen = true ↔ Opened since
  cases_eq_nil_iff : p.cases = [] ↔ ∀ line ∈ since, ¬line.IsReadableCase

private theorem Pending.Tracks.concat {header line : Line} {since : List Line} {p q : Pending}
    (h : p.Tracks header since) (hheader : q.header = p.header) (hat : q.headerAt = p.headerAt)
    (hclosing : line.kind = .closing → p.isOpen = false)
    (hopen : q.isOpen = true ↔ p.isOpen = true ∨ line.kind = .opening ∧ p.cases = [])
    (hcases : q.cases = [] ↔ p.cases = [] ∧ ¬line.IsReadableCase) :
    q.Tracks header (since ++ [line]) where
  header_eq := hheader.trans h.header_eq
  headerAt_eq := hat.trans h.headerAt_eq
  not_closed := by
    rw [Closed, occurs_concat]
    rintro (hclosed | ⟨hkind, hopened⟩)
    · exact h.not_closed hclosed
    · rw [← h.isOpen_iff, hclosing hkind] at hopened
      cases hopened
  isOpen_iff := by rw [hopen, Opened, occurs_concat, h.isOpen_iff, h.cases_eq_nil_iff, Opened]
  cases_eq_nil_iff := by
    rw [hcases, h.cases_eq_nil_iff, List.forall_mem_append, List.forall_mem_singleton]

namespace Document

/-- What is pending after a header and the lines after it: nothing if they close its function. -/
def Tracks (header : Line) (since : List Line) : Option Pending → Prop
  | none => Closed since
  | some p => p.Tracks header since

/-- A line that is not a header keeps track. -/
theorem Step.tracks {header line : Line} {since : List Line} {pending next : Option Pending}
    {added : Document Span} (h : Step line pending next added) (hkind : line.kind ≠ .header)
    (htracks : Tracks header since pending) : Tracks header (since ++ [line]) next := by
  have hnone (hclosed : Closed since) : Closed (since ++ [line]) := occurs_concat.mpr (.inl hclosed)
  cases h with
  | header _ hheader | malformedHeader hheader => exact absurd hheader hkind
  | blank hblank =>
    cases pending with
    | none => exact hnone htracks
    | some p =>
      refine Pending.Tracks.concat htracks rfl rfl ?_ ?_ ?_ <;> simp [hblank, IsReadableCase]
  | opening p hopening hopen hcases =>
    refine Pending.Tracks.concat htracks rfl rfl ?_ ?_ ?_ <;>
      simp [hopening, hcases, IsReadableCase]
  | extraOpening p hopening hbusy =>
    have hopen : p.cases = [] → p.isOpen = true := fun hcases ↦
      hbusy.resolve_right (absurd hcases)
    refine Pending.Tracks.concat htracks rfl rfl ?_ ?_ ?_
    · simp [hopening]
    · simpa [hopening] using hopen
    · simp [hopening, IsReadableCase]
  | closing p hclosing hopen =>
    exact occurs_concat.mpr (.inr ⟨hclosing, htracks.isOpen_iff.mp hopen⟩)
  | strayClosing hclosing hopen =>
    cases pending with
    | none => exact hnone htracks
    | some p =>
      refine Pending.Tracks.concat htracks rfl rfl (fun _ ↦ hopen) ?_ ?_ <;>
        simp [hclosing, IsReadableCase]
  | case p c hcase hparse =>
    refine Pending.Tracks.concat htracks rfl rfl ?_ ?_ ?_ <;> simp [hcase, hparse, IsReadableCase]
  | malformedCase p hcase hparse =>
    refine Pending.Tracks.concat htracks rfl rfl ?_ ?_ ?_ <;> simp [hcase, hparse, IsReadableCase]
  | strayOpening | strayCase => exact hnone htracks

/-- A header starts a function that is neither opened nor has a case. -/
theorem Step.tracks_header {line : Line} {pending next : Option Pending} {added : Document Span}
    (h : Step line pending next added) (hkind : line.kind = .header) : Tracks line [] next := by
  have hfresh {header : Option Header} (hparse : Header.parse? line.text = header) :
      Pending.Tracks line [] ⟨header, line.span, [], false⟩ :=
    ⟨hparse.symm, rfl, by simp [Closed, Occurs], by simp [Opened, Occurs], by simp⟩
  cases h with
  | header _ _ hparse | malformedHeader _ hparse => exact hfresh hparse
  | blank hother | opening _ hother | strayOpening hother | extraOpening _ hother
  | closing _ hother | strayClosing hother | case _ _ hother | strayCase hother
  | malformedCase _ hother =>
    rw [hkind] at hother
    cases hother

/-- Lines that are not headers keep track. -/
theorem Tracks.run {header : Line} {a b : List Line} {pending : Option Pending}
    (htracks : Tracks header a pending) (hb : ∀ line ∈ b, line.kind ≠ .header) :
    Tracks header (a ++ b) (run pending b).1 := by
  induction b generalizing a pending with
  | nil => simpa using htracks
  | cons line b ih =>
    obtain ⟨hline, hb⟩ := List.forall_mem_cons.mp hb
    have hstep := ih ((step_spec pending line).tracks hline htracks) hb
    rwa [List.append_assoc] at hstep

/-- What is pending after some lines is told by the last header and the lines after it. -/
theorem tracks_of_lastHeader {lines since : List Line} {header : Line}
    (h : LastHeader lines header since) : Tracks header since (run none lines).1 := by
  obtain ⟨earlier, rfl⟩ := h.split
  rw [run_append, run_cons]
  exact ((step_spec _ header).tracks_header h.kind).run h.headerless

/-- Only a header makes something pending. -/
theorem Step.eq_none {line : Line} {next : Option Pending} {added : Document Span}
    (h : Step line none next added) (hkind : line.kind ≠ .header) : next = none := by
  cases h with
  | header _ hheader | malformedHeader hheader => exact absurd hheader hkind
  | blank | strayOpening | strayClosing | strayCase => rfl

private theorem run_eq_none_of_headerless {lines : List Line}
    (h : ∀ line ∈ lines, line.kind ≠ .header) : (run none lines).1 = none := by
  induction lines with
  | nil => rfl
  | cons line rest ih =>
    obtain ⟨hline, hrest⟩ := List.forall_mem_cons.mp h
    rw [run_cons, (step_spec none line).eq_none hline]
    exact ih hrest

/-- A pending function is that of the last header. -/
theorem exists_lastHeader_of_run {lines : List Line} {p : Pending}
    (h : (run none lines).1 = some p) :
    ∃ header since, LastHeader lines header since ∧ p.Tracks header since := by
  rcases headerless_or_exists_lastHeader lines with hheaderless | ⟨header, since, hlast⟩
  · rw [run_eq_none_of_headerless hheaderless] at h
    cases h
  · have htracks := tracks_of_lastHeader hlast
    rw [h] at htracks
    exact ⟨header, since, hlast, htracks⟩

end Document

end Lilac
