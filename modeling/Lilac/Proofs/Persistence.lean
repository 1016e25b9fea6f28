import Lilac.Proofs.Listings
import Lilac.Proofs.Violations

/-!
# Diagnostics of a growing text

Appending lines to a text takes no diagnostic back but the one that the text ended before a closing
brace, and moves none. The function that was pending may get further cases, but its first violation
stays the first. New diagnostics may come in between, and the old ones keep their order.

About `check_document`. Specification: `SPEC_FULL.md`, section 7.
-/

namespace Lilac

namespace Definition

variable {d d' : Definition Span}

private theorem GrowsInto.violation?_eq (h : d.GrowsInto d') {v : Violation}
    (hv : d.function.violation? = some v) : d'.function.violation? = some v := by
  obtain ⟨more, hcases⟩ := h.cases_isPrefix
  unfold Function.violation? at hv ⊢
  rw [h.header_eq]
  split at hv
  · next hname => rw [if_pos hname, hv]
  · next hname => rw [if_neg hname, ← hcases, Case.firstViolation?_append, hv, Option.some_or]

/-- A definition that grows keeps its diagnostic. -/
theorem GrowsInto.finding?_eq (h : d.GrowsInto d') (haligned : d.Aligned) {x : Diagnostic}
    (hx : d.finding? = some x) : d'.finding? = some x := by
  obtain ⟨v, hv, rfl⟩ := Option.map_eq_some_iff.mp hx
  have hplace : d'.placeOf v = d.placeOf v := by
    unfold placeOf
    split
    · exact h.headerAt_eq
    · next i hi =>
      obtain ⟨more, hcasesAt⟩ := h.casesAt_isPrefix
      have hlt : i < d.casesAt.length := haligned ▸ Function.caseIndex_lt hv i hi
      rw [← hcasesAt, h.headerAt_eq, List.getD_eq_getElem?_getD, List.getElem?_append_left hlt,
        ← List.getD_eq_getElem?_getD]
  rw [finding?, h.violation?_eq hv, Option.map_some, hplace]

/-- Definitions that grow keep their diagnostics, in order. -/
private theorem AllGrowInto.filterMap_finding?_sublist {ds ds' : List (Definition Span)}
    (h : AllGrowInto ds ds') (haligned : ∀ d ∈ ds, d.Aligned) :
    (ds.filterMap finding?).Sublist (ds'.filterMap finding?) := by
  induction ds generalizing ds' with
  | nil => exact List.nil_sublist _
  | cons d ds ih =>
    obtain ⟨d', hd', hgrows⟩ := h 0 d rfl
    obtain ⟨rest, rfl⟩ := List.head?_eq_some_iff.mp (List.head?_eq_getElem?.trans hd')
    obtain ⟨hd, hds⟩ := List.forall_mem_cons.mp haligned
    have hrest : (ds.filterMap finding?).Sublist (rest.filterMap finding?) := by
      apply ih _ hds
      intro i x hx
      exact h (i + 1) x hx
    cases hx : d.finding? with
    | none =>
      rw [List.filterMap_cons_none hx]
      exact hrest.trans ((List.sublist_cons_self d' rest).filterMap _)
    | some x =>
      rw [List.filterMap_cons_some hx, List.filterMap_cons_some (hgrows.finding?_eq hd hx)]
      exact hrest.cons_cons x

end Definition

namespace Document

private theorem filter_message_sublist (d : Document Span) :
    ((d.issues.map Issue.finding).filter (·.message ≠ Fault.unclosedAtEnd.message)).Sublist
      (d.lastingIssues.map Issue.finding) := by
  unfold lastingIssues
  by_cases hunclosed : d.endsUnclosed = true
  · rw [if_pos hunclosed]
    cases hlast : d.issues.getLast? with
    | none => simp [endsUnclosed, hlast] at hunclosed
    | some i =>
      obtain ⟨front, hfront⟩ := List.getLast?_eq_some_iff.mp hlast
      have hfault : i.fault = .unclosedAtEnd := by simpa [endsUnclosed, hlast] using hunclosed
      have hout : [i.finding].filter (·.message ≠ Fault.unclosedAtEnd.message) = [] := by
        simp [Issue.finding, hfault]
      rw [hfront, List.dropLast_concat, List.map_append, List.map_singleton, List.filter_append,
        hout, List.append_nil]
      exact List.filter_sublist
  · rw [if_neg hunclosed]
    exact List.filter_sublist

/-- What is found in some lines, without the report on their end, is found again when lines
follow. -/
theorem filter_findings_sublist (lines more : List Line) :
    ((assemble lines).findings.filter (·.message ≠ Fault.unclosedAtEnd.message)).Sublist
      (assemble (lines ++ more)).findings := by
  have hissues := (growsInto_assemble_append lines more).issues_isPrefix.map Issue.finding
  have hdefinitions := (allGrowInto_assemble_append lines more).filterMap_finding?_sublist
    fun _ ↦ aligned_of_mem_assembleFrom
  rw [findings, List.filter_append, findings]
  apply List.Sublist.append
  · exact (filter_message_sublist _).trans hissues.sublist
  · exact List.filter_sublist.trans hdefinitions

/-- When lines are appended to a text, its diagnostics stay as they are and in the same order,
except for the report that the text ended before a closing brace, if the limit leaves room for all
that are there then. -/
theorem diagnostics_persist (s t : Text) {limit : Int}
    (hlimit : (parse (s ++ '\n' :: t)).total ≤ limit) :
    ∃ before after, ((parse s).mapPlaces some).check? limit = some before ∧
      ((parse (s ++ '\n' :: t)).mapPlaces some).check? limit = some after ∧
      (before.filter (·.message ≠ Fault.unclosedAtEnd.message)).Sublist after := by
  refine ⟨_, _, check?_parse s limit, check?_parse _ limit, ?_⟩
  have hnonneg : 0 ≤ limit := by omega
  have hall : (parse (s ++ '\n' :: t)).check limit =
      (parse (s ++ '\n' :: t)).findings.mergeSort Diagnostic.notAfter := by
    rw [check_eq_take _ hnonneg, List.take_of_length_le]
    rw [List.length_mergeSort, length_findings]
    omega
  have hfound : ((parse s).findings.filter (·.message ≠ Fault.unclosedAtEnd.message)).Sublist
      (parse (s ++ '\n' :: t)).findings := by
    rw [parse, parse, Line.scan_append]
    exact filter_findings_sublist _ _
  rw [check_eq_take s hnonneg, hall]
  apply ((List.take_sublist _ _).filter _).trans
  rw [Diagnostic.filter_mergeSort]
  exact Diagnostic.mergeSort_sublist_mergeSort hfound

/-- A function that is left open and has a violation gets another case with one, and then a header
that cannot be read follows: the violation stays, and the report on the end of the text gives way to
two on the header. -/
theorem diagnostics_persist_unclosed :
    (parse ("func f a -> b \x7b\nf(x) = 1;".toList ++ '\n' ::
        "f(y) = 2;\nfunc g".toList)).total = 3 ∧
      ∃ before after,
        ((parse "func f a -> b \x7b\nf(x) = 1;".toList).mapPlaces some).check? 3 = some before ∧
        ((parse ("func f a -> b \x7b\nf(x) = 1;".toList ++ '\n' ::
          "f(y) = 2;\nfunc g".toList)).mapPlaces some).check? 3 = some after ∧
        (before.filter (·.message ≠ Fault.unclosedAtEnd.message)).Sublist after ∧
        before = [Issue.finding ⟨.unclosedAtEnd, ⟨1, 1, 14⟩⟩,
          (Violation.argument 0 0).toDiagnostic (some ⟨2, 1, 10⟩)] ∧
        after = [(Violation.argument 0 0).toDiagnostic (some ⟨2, 1, 10⟩),
          Issue.finding ⟨.unclosedBeforeHeader, ⟨4, 1, 7⟩⟩,
          Issue.finding ⟨.malformedHeader, ⟨4, 1, 7⟩⟩] := by
  have htotal : (parse ("func f a -> b \x7b\nf(x) = 1;".toList ++ '\n' ::
      "f(y) = 2;\nfunc g".toList)).total = 3 := by decide +kernel
  have hlimit : ((parse ("func f a -> b \x7b\nf(x) = 1;".toList ++ '\n' ::
      "f(y) = 2;\nfunc g".toList)).total : Int) ≤ 3 := by rw [htotal]; decide
  have hfirst : (parse "func f a -> b \x7b\nf(x) = 1;".toList).findings =
      [Issue.finding ⟨.unclosedAtEnd, ⟨1, 1, 14⟩⟩,
        (Violation.argument 0 0).toDiagnostic (some ⟨2, 1, 10⟩)] := by decide +kernel
  have hthen : (parse ("func f a -> b \x7b\nf(x) = 1;".toList ++ '\n' ::
      "f(y) = 2;\nfunc g".toList)).findings =
        [Issue.finding ⟨.unclosedBeforeHeader, ⟨4, 1, 7⟩⟩,
          Issue.finding ⟨.malformedHeader, ⟨4, 1, 7⟩⟩,
          (Violation.argument 0 0).toDiagnostic (some ⟨2, 1, 10⟩)] := by decide +kernel
  obtain ⟨before, after, hbefore, hafter, hsublist⟩ := diagnostics_persist _ _ hlimit
  refine ⟨htotal, before, after, hbefore, hafter, hsublist, ?_, ?_⟩
  · rw [check?_parse, check_eq_take _ (by decide), hfirst] at hbefore
    simpa [Diagnostic.mergeSort_cons, Diagnostic.notAfter, Diagnostic.position, Issue.finding,
      Violation.toDiagnostic] using hbefore.symm
  · rw [check?_parse, check_eq_take _ (by decide), hthen] at hafter
    simpa [Diagnostic.mergeSort_cons, Diagnostic.notAfter, Diagnostic.position, Issue.finding,
      Violation.toDiagnostic] using hafter.symm

end Document

end Lilac
