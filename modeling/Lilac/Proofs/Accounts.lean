import Lilac.Proofs.Headings
import Lilac.Proofs.Ledgers
import Lilac.Proofs.Spans

/-!
# What becomes of the lines

No line is lost or counted twice. A header gives a function or is reported; a case joins the
function of the nearest header before it, is reported, or is passed over because that header could
not be read; and the braces that are not reported pair up, but for the functions that are reported
as unclosed.

About `parse_document`. Specification: `SPEC_FULL.md`, section 7.
-/

namespace Lilac

open Document Line

namespace Document

/-- The places of the faults of some kinds. -/
def placesOf (faults : List Fault) (d : Document Span) : List Span :=
  (d.issues.filter fun i ↦ i.fault ∈ faults).map (·.place)

theorem placesOf_append (faults : List Fault) (a b : Document Span) :
    placesOf faults (a ++ b) = placesOf faults a ++ placesOf faults b := by
  simp [placesOf]

end Document

/-! ## Ledgers of places -/

namespace Part

/-- Where a header stands. -/
def headerPlace : Part → List Span
  | .header _ s => [s]
  | .case _ _ _ => []

/-- Where a case stands. -/
def casePlace : Part → List Span
  | .header _ _ => []
  | .case _ _ s => [s]

end Part

namespace Ledger

/-- The ledger of the places of headers. -/
def headers : Ledger Span := parts.flatMap Part.headerPlace

/-- The headers of a document are those of its definitions. -/
theorem entries_headers (d : Document Span) :
    headers.entries d = d.definitions.map (·.headerAt) := by
  have hparts (x : Definition Span) : x.parts.flatMap Part.headerPlace = [x.headerAt] := by
    simp [Definition.parts, Part.headerPlace, List.flatMap_map]
  show (d.definitions.flatMap Definition.parts).flatMap Part.headerPlace = _
  rw [List.flatMap_assoc, List.map_eq_flatMap]
  simp only [hparts]

/-- A line brings in a header if it is one that can be read. -/
theorem income_headers (pending : Option Pending) (line : Line) :
    headers.income pending line =
      if line.kind = .header ∧ Header.parse? line.text ≠ none then [line.span] else [] := by
  show (part? pending line).toList.flatMap Part.headerPlace = _
  cases hkind : line.kind with
  | header =>
    cases hparse : Header.parse? line.text <;> simp [part?, hkind, hparse, Part.headerPlace]
  | case =>
    cases hpart : part? pending line with
    | none => simp
    | some x =>
      cases x with
      | header =>
        rw [(of_part?_eq_header hpart).1] at hkind
        cases hkind
      | case => simp [Part.headerPlace]
  | opening | closing | blank => simp [part?, hkind]

/-- The ledger of the places of cases. -/
def cases : Ledger Span := parts.flatMap Part.casePlace

private theorem entries_cases {d : Document Span} (h : ∀ x ∈ d.definitions, x.Aligned) :
    cases.entries d = d.definitions.flatMap (·.casesAt) := by
  have hparts {x : Definition Span} (hx : x.Aligned) :
      x.parts.flatMap Part.casePlace = x.casesAt := by
    conv => rhs; rw [← hx.map_snd_zip, List.map_eq_flatMap]
    rw [Definition.parts, List.flatMap_cons, List.flatMap_map]
    rfl
  show (d.definitions.flatMap Definition.parts).flatMap Part.casePlace = _
  rw [List.flatMap_assoc]
  exact congrArg List.flatten (List.map_congr_left fun x hx ↦ hparts (h x hx))

private theorem income_cases (pending : Option Pending) (line : Line) :
    cases.income pending line =
      if line.kind = .case ∧ pending.bind (·.header) ≠ none ∧ Case.parse? line.text ≠ none then
        [line.span]
      else [] := by
  show (part? pending line).toList.flatMap Part.casePlace = _
  cases hkind : line.kind with
  | case =>
    cases pending with
    | none => simp [part?, hkind]
    | some p =>
      cases hheader : p.header <;> cases hparse : Case.parse? line.text <;>
        simp [part?, hkind, hheader, hparse, Part.casePlace]
  | header => cases hparse : Header.parse? line.text <;> simp [part?, hkind, hparse, Part.casePlace]
  | opening | closing | blank => simp [part?, hkind]

/-- A ledger of reported lines: a line is reported at once, so nothing is held. -/
def reports (faults : List Fault) (hend : .unclosedAtEnd ∉ faults)
    (income : Option Pending → Line → List Span)
    (hstep : ∀ {line pending next added}, Step line pending next added →
      placesOf faults added = income pending line) : Ledger Span where
  held _ := []
  income := income
  entries := placesOf faults
  held_none := rfl
  entries_append := placesOf_append faults
  entries_atEnd pending := by
    cases pending with
    | none => rfl
    | some p => cases hopen : p.isOpen <;> simp [placesOf, issues_atEnd_some, hopen, hend]
  entries_step h := by rw [hstep h, List.append_nil, List.nil_append]

/-- The ledger of the headers that are reported. -/
def malformedHeaders : Ledger Span :=
  reports [.malformedHeader] (by decide)
    (fun _ line ↦
      if line.kind = .header ∧ Header.parse? line.text = none then [line.span] else [])
    fun {line pending next added} h ↦ by
      cases h with
      | header h hkind hparse => cases hopen : isOpen pending <;> simp [placesOf, hopen, hparse]
      | malformedHeader hkind hparse =>
        cases hopen : isOpen pending <;> simp [placesOf, hopen, hkind, hparse]
      | blank hkind | opening _ hkind | strayOpening hkind | extraOpening _ hkind | closing _ hkind
      | strayClosing hkind | case _ _ hkind | strayCase hkind | malformedCase _ hkind =>
        simp [placesOf, hkind]

/-- The ledger of the cases that are reported. -/
def reportedCases : Ledger Span :=
  reports [.malformedCase, .caseOutsideFunction] (by decide)
    (fun pending line ↦
      if line.kind = .case ∧ (pending = none ∨ Case.parse? line.text = none) then [line.span]
      else [])
    fun {line pending next added} h ↦ by
      cases h with
      | header h hkind hparse | malformedHeader hkind hparse =>
        cases hopen : isOpen pending <;> simp [placesOf, hopen, hkind]
      | case p c hkind hparse => simp [placesOf, hparse]
      | malformedCase p hkind hparse => simp [placesOf, hkind, hparse]
      | blank hkind | opening _ hkind | strayOpening hkind | extraOpening _ hkind | closing _ hkind
      | strayClosing hkind | strayCase hkind =>
        simp [placesOf, hkind]

end Ledger

namespace Document

/-- How many functions of a document have their header at a place. -/
def headerCount (d : Document Span) (s : Span) : Nat := (d.definitions.map (·.headerAt)).count s

/-- How many cases of functions of a document stand at a place. -/
def caseCount (d : Document Span) (s : Span) : Nat := (d.definitions.flatMap (·.casesAt)).count s

/-- How many faults of some kinds a document has at a place. -/
def faultCount (faults : List Fault) (d : Document Span) (s : Span) : Nat :=
  (d.placesOf faults).count s

/-- A header starts exactly one function and is not reported, or it cannot be read, starts none and
is reported once. -/
def HeaderAccounted (d : Document Span) (line : Line) : Prop :=
  (Header.parse? line.text ≠ none ∧ d.headerCount line.span = 1 ∧
      d.faultCount [.malformedHeader] line.span = 0) ∨
    (Header.parse? line.text = none ∧ d.headerCount line.span = 0 ∧
      d.faultCount [.malformedHeader] line.span = 1)

/-- A case belongs to the function of the nearest header before it. -/
def JoinsNearest (d : Document Span) (before : List Line) (line : Line) : Prop :=
  ∃ header since x, LastHeader before header since ∧ x ∈ d.definitions ∧
    x.headerAt = header.span ∧ line.span ∈ x.casesAt

/-- A case can be read, but the nearest header before it could not, and its function is not closed
before the case. -/
def IsPassedOver (before : List Line) (line : Line) : Prop :=
  Case.parse? line.text ≠ none ∧ ∃ header since, LastHeader before header since ∧
    Header.parse? header.text = none ∧ ¬Closed since

/-- Exactly one of these holds of a case: it belongs to one function, that of the nearest header
before it; it is reported once; it is passed over. -/
def CaseAccounted (d : Document Span) (before : List Line) (line : Line) : Prop :=
  (d.caseCount line.span = 1 ∧ JoinsNearest d before line ∧
      d.faultCount [.malformedCase, .caseOutsideFunction] line.span = 0 ∧
      ¬IsPassedOver before line) ∨
    (d.caseCount line.span = 0 ∧
      d.faultCount [.malformedCase, .caseOutsideFunction] line.span = 1 ∧
      ¬IsPassedOver before line) ∨
    (d.caseCount line.span = 0 ∧
      d.faultCount [.malformedCase, .caseOutsideFunction] line.span = 0 ∧
      IsPassedOver before line)

/-! ## Headers and cases of a source text -/

section Lines

variable {source : Text} {before after : List Line} {line : Line}

private theorem nodup_split (hscan : scan source = before ++ line :: after) :
    ((before ++ line :: after).map (·.span)).Nodup := hscan ▸ nodup_spans source

/-- A function starts at each header that can be read. -/
theorem headerCount_span (hscan : scan source = before ++ line :: after) :
    (parse source).headerCount line.span =
      if line.kind = .header ∧ Header.parse? line.text ≠ none then 1 else 0 := by
  rw [headerCount, ← Ledger.entries_headers, parse, hscan]
  exact Ledger.headers.count_entries Ledger.income_headers (nodup_split hscan)

/-- Each header that cannot be read is reported. -/
theorem faultCount_malformedHeader_span (hscan : scan source = before ++ line :: after) :
    (parse source).faultCount [.malformedHeader] line.span =
      if line.kind = .header ∧ Header.parse? line.text = none then 1 else 0 := by
  rw [faultCount, parse, hscan]
  exact Ledger.malformedHeaders.count_entries (fun _ _ ↦ rfl) (nodup_split hscan)

/-- Each case that can be read belongs to a function if a header that could be read is pending. -/
theorem caseCount_span (hscan : scan source = before ++ line :: after) :
    (parse source).caseCount line.span =
      if line.kind = .case ∧ (run none before).1.bind (·.header) ≠ none ∧
        Case.parse? line.text ≠ none then 1 else 0 := by
  have haligned : ∀ d ∈ (parse source).definitions, d.Aligned := fun _ ↦
    aligned_of_mem_assembleFrom
  rw [caseCount, ← Ledger.entries_cases haligned, parse, hscan]
  exact Ledger.cases.count_entries Ledger.income_cases (nodup_split hscan)

/-- Each case that cannot be read, or before which nothing is pending, is reported. -/
theorem faultCount_case_span (hscan : scan source = before ++ line :: after) :
    (parse source).faultCount [.malformedCase, .caseOutsideFunction] line.span =
      if line.kind = .case ∧ ((run none before).1 = none ∨ Case.parse? line.text = none) then 1
      else 0 := by
  rw [faultCount, parse, hscan]
  exact Ledger.reportedCases.count_entries (fun _ _ ↦ rfl) (nodup_split hscan)

/-- A header line of a source text starts one function, or is reported once. -/
theorem headerAccounted_of_mem (hline : line ∈ scan source) (hkind : line.kind = .header) :
    HeaderAccounted (parse source) line := by
  obtain ⟨before, after, hscan⟩ := List.append_of_mem hline
  rw [HeaderAccounted, headerCount_span hscan, faultCount_malformedHeader_span hscan]
  cases hparse : Header.parse? line.text <;> simp [hkind]

private theorem of_case_mem_parts {d : Definition Span} {headerAt s : Span} {c : Case}
    (h : .case headerAt c s ∈ d.parts) : d.headerAt = headerAt ∧ s ∈ d.casesAt := by
  rcases List.mem_cons.mp h with heq | h
  · cases heq
  · obtain ⟨x, hx, heq⟩ := List.mem_map.mp h
    obtain ⟨rfl, rfl, rfl⟩ := Part.case.inj heq
    exact ⟨rfl, (List.of_mem_zip hx).2⟩

/-- A case that is read while a function is pending belongs to it. -/
theorem joinsNearest_of_run {p : Pending} {h : Header} {c : Case}
    (hrun : (run none before).1 = some p) (hkind : line.kind = .case) (hheader : p.header = some h)
    (hparse : Case.parse? line.text = some c) :
    JoinsNearest (assemble (before ++ line :: after)) before line := by
  obtain ⟨header, since, hlast, htracks⟩ := exists_lastHeader_of_run hrun
  have hpart : part? (some p) line = some (.case p.headerAt c line.span) := by
    simp [part?, hkind, hheader, hparse]
  have hread : (some p, line) ∈ readings none (before ++ line :: after) := by
    rw [readings_append, readings_cons, hrun]
    exact List.mem_append_right _ List.mem_cons_self
  obtain ⟨x, hx, hmem⟩ := List.mem_flatMap.mp (mem_parts_assemble.mpr ⟨_, hread, hpart⟩)
  obtain ⟨hat, hcase⟩ := of_case_mem_parts hmem
  exact ⟨header, since, x, hlast, hx, hat.trans htracks.headerAt_eq, hcase⟩

/-- A case line of a source text joins a function, is reported, or is passed over. -/
theorem caseAccounted_of_scan (hscan : scan source = before ++ line :: after)
    (hkind : line.kind = .case) : CaseAccounted (parse source) before line := by
  rw [CaseAccounted, caseCount_span hscan, faultCount_case_span hscan]
  -- What is pending decides, and the lines before the case tell what that is: nothing, a function
  -- that will be dropped, or one that will be kept.
  cases hrun : (run none before).1 with
  | none =>
    have hclosed : ¬IsPassedOver before line := by
      rintro ⟨-, header, since, hlast, -, hopen⟩
      have htracks := tracks_of_lastHeader hlast
      rw [hrun] at htracks
      exact hopen htracks
    exact .inr (.inl ⟨by simp, by simp [hkind], hclosed⟩)
  | some p =>
    cases hparse : Case.parse? line.text with
    | none => exact .inr (.inl ⟨by simp, by simp [hkind], by simp [IsPassedOver, hparse]⟩)
    | some c =>
      cases hheader : p.header with
      | none =>
        obtain ⟨header, since, hlast, htracks⟩ := exists_lastHeader_of_run hrun
        have hpassed : IsPassedOver before line :=
          ⟨by simp [hparse], header, since, hlast, htracks.header_eq ▸ hheader, htracks.not_closed⟩
        exact .inr (.inr ⟨by simp [hheader], by simp, hpassed⟩)
      | some h =>
        have hjoins : JoinsNearest (parse source) before line := by
          rw [parse, hscan]
          exact joinsNearest_of_run hrun hkind hheader hparse
        have hreadable : ¬IsPassedOver before line := by
          rintro ⟨-, header, since, hlast, hmalformed, -⟩
          have htracks := tracks_of_lastHeader hlast
          rw [hrun] at htracks
          have heq := htracks.header_eq
          rw [hheader, hmalformed] at heq
          cases heq
        exact .inl ⟨by simp [hkind, hheader], hjoins, by simp, hreadable⟩

-- A case under a header that cannot be read is neither kept nor reported.
example : parse "func f\nf(x) = 1;".toList = ⟨[], [⟨.malformedHeader, ⟨1, 1, 7⟩⟩]⟩ := by cbv

end Lines

/-! ## Braces -/

/-- How many faults of some kinds a document has. -/
def faultTotal (faults : List Fault) (d : Document Span) : Nat := (d.placesOf faults).length

@[simp] theorem faultTotal_append (faults : List Fault) (a b : Document Span) :
    faultTotal faults (a ++ b) = faultTotal faults a + faultTotal faults b := by
  rw [faultTotal, placesOf_append, List.length_append, faultTotal, faultTotal]

/-- A brace opens or closes the pending function or is reported, and a function that is still open
when it is completed by a header is reported. -/
theorem Step.braces {line : Line} {pending next : Option Pending} {added : Document Span}
    (h : Step line pending next added) :
    (isOpen pending).toNat + [line].countP (·.kind = .opening) +
        added.faultTotal [.unmatchedClosing] =
      (isOpen next).toNat + [line].countP (·.kind = .closing) +
        added.faultTotal [.openingWithoutHeader, .unexpectedOpening] +
        added.faultTotal [.unclosedBeforeHeader, .unclosedAtEnd] := by
  cases h with
  | header h hkind | malformedHeader hkind =>
    cases hopen : isOpen pending <;> simp [faultTotal, placesOf, hopen, hkind]
  | opening p hkind hopen => simp [faultTotal, placesOf, hopen, hkind]
  | closing p hkind hopen => simp [faultTotal, placesOf, hopen, hkind]
  | strayClosing hkind hopen => simp [faultTotal, placesOf, hopen, hkind]
  | blank hkind | strayOpening hkind | extraOpening _ hkind | case _ _ hkind | strayCase hkind
  | malformedCase _ hkind => simp [faultTotal, placesOf, hkind]

/-- Counted from what is pending, braces balance in a document. -/
theorem braces_assembleFrom (pending : Option Pending) (lines : List Line) :
    (isOpen pending).toNat + lines.countP (·.kind = .opening) +
        (assembleFrom pending lines).faultTotal [.unmatchedClosing] =
      lines.countP (·.kind = .closing) +
        (assembleFrom pending lines).faultTotal [.openingWithoutHeader, .unexpectedOpening] +
        (assembleFrom pending lines).faultTotal [.unclosedBeforeHeader, .unclosedAtEnd] := by
  induction lines generalizing pending with
  | nil =>
    cases pending with
    | none => rfl
    | some p =>
      cases hopen : p.isOpen <;>
        simp [assembleFrom, faultTotal, placesOf, issues_atEnd_some, hopen]
  | cons line rest ih =>
    have hstep := (step_spec pending line).braces
    have hrest := ih (step pending line).1
    have hcons (kind : LineKind) : (line :: rest).countP (·.kind = kind) =
        [line].countP (·.kind = kind) + rest.countP (·.kind = kind) := by
      rw [← List.countP_append, List.singleton_append]
    rw [assembleFrom_cons, hcons, hcons]
    simp only [faultTotal_append]
    omega

/-! ## All lines -/

/-- No line of a source text is lost or counted twice: headers start functions, in order, or are
reported; cases join the function of the nearest header, are reported, or are passed over; and
braces balance up to those that are reported. -/
theorem lines_accounted (source : Text) :
    ((∀ line ∈ scan source, line.kind = .header → HeaderAccounted (parse source) line) ∧
      (parse source).definitions.map (·.headerAt) =
        ((scan source).filter fun line ↦
          line.kind = .header ∧ Header.parse? line.text ≠ none).map (·.span)) ∧
    (∀ before line after, scan source = before ++ line :: after → line.kind = .case →
      CaseAccounted (parse source) before line) ∧
    ((scan source).countP (·.kind = .opening) : Int) -
        (parse source).faultTotal [.openingWithoutHeader, .unexpectedOpening] =
      (scan source).countP (·.kind = .closing) - (parse source).faultTotal [.unmatchedClosing] +
        (parse source).faultTotal [.unclosedBeforeHeader, .unclosedAtEnd] := by
  refine ⟨⟨fun _ ↦ headerAccounted_of_mem, ?_⟩, fun _ _ _ ↦ caseAccounted_of_scan, ?_⟩
  · rw [← Ledger.entries_headers]
    exact Ledger.headers.entries_eq_map_filter Ledger.income_headers (scan source)
  · have hbraces := braces_assembleFrom none (scan source)
    rw [isOpen_none, Bool.toNat_false, Nat.zero_add] at hbraces
    rw [parse, assemble]
    omega

end Document

end Lilac
