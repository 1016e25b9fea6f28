import Lilac.Proofs.Accounts
import Lilac.Proofs.Growth
import Lilac.Proofs.Order
import Lilac.Proofs.Positions
import Lilac.Settings
import Lilac.Yaml.Value

/-!
# Listings of diagnostics

Checking the document of a source text lists one diagnostic for each fault and one for each function
with a violation. A violation is always in a case, and no fault is reported for a case that belongs
to a function; so the diagnostic of a function has a position of its own, and only faults can share
one. A limit cuts the list off and changes nothing in front of the cut.

About `check_document`. Specification: `SPEC_FULL.md`, section 4.5.
-/

namespace Lilac

/-! ## Limits -/

namespace Settings

private theorem eq_or_exists_of_setting {α : Type} {key : String} {default a : α}
    {read : Yaml.Value → Option α} {fault : SettingsFault}
    {entries : List (Yaml.Value × Yaml.Value)}
    (h : setting key default read fault entries = .ok a) :
    a = default ∨ ∃ v, read v = some a := by
  unfold setting at h
  split at h
  · exact .inl (Except.ok.inj h).symm
  · next v _ =>
    split at h
    · next b hread => exact .inr ⟨v, Except.ok.inj h ▸ hread⟩
    · cases h

private theorem nonneg_of_limitOf? {v : Yaml.Value} {limit : Int} (h : limitOf? v = some limit) :
    0 ≤ limit := by
  unfold limitOf? at h
  split at h
  · split at h
    · next hnonneg => exact Option.some.inj h ▸ hnonneg
    · cases h
  · cases h

/-- The limit that a value sets is not negative. -/
private theorem limit_nonneg_of_ofValue {label : Text} {v : Yaml.Value} {settings : Settings}
    (h : ofValue label v = .ok settings) : 0 ≤ settings.limit := by
  unfold ofValue at h
  split at h
  · obtain rfl := Except.ok.inj h
    decide
  · next entries =>
    cases hlimit : setting "max-number-of-problems" 1000 limitOf? (.badLimit label) entries with
    | error fault =>
      rw [hlimit] at h
      cases h
    | ok limit =>
      cases hexclude : setting "exclude" [] excludeOf? (.badExclude label) entries with
      | error fault =>
        rw [hlimit, hexclude] at h
        cases h
      | ok exclude =>
        rw [hlimit, hexclude] at h
        obtain rfl := Except.ok.inj h
        rcases eq_or_exists_of_setting hlimit with rfl | ⟨v, hv⟩
        · exact Int.natCast_nonneg 1000
        · exact nonneg_of_limitOf? hv
  · cases h

/-- Settings that are read have a limit that is not negative. -/
theorem limit_nonneg_of_parse {read : Yaml.Reader} {label t : Text} {settings : Settings}
    (h : parse read label t = .ok settings) : 0 ≤ settings.limit := by
  unfold parse at h
  split at h
  · next v _ =>
    cases hv : ofValue label v with
    | error fault =>
      rw [hv] at h
      cases h
    | ok held =>
      rw [hv] at h
      obtain rfl := Except.ok.inj h
      exact limit_nonneg_of_ofValue hv
  · cases h
  · cases h

end Settings

/-! ## Diagnostics of faults and of functions -/

private theorem Span.Before.position_ne {a b : Span} (h : a.Before b) :
    (a.line, a.column) ≠ (b.line, b.column) := by
  intro heq
  obtain ⟨hline, hcolumn⟩ := Prod.mk.inj heq
  rcases h with h | ⟨-, h⟩ <;> omega

namespace Document

/-- How many diagnostics a document has: one for each fault and one for each function with a
violation. -/
def total (d : Document Span) : Nat :=
  d.issues.length + d.definitions.countP (·.function.violation?.isSome)

/-- There are as many findings as there are diagnostics. -/
theorem length_findings (d : Document Span) : d.findings.length = d.total := by
  rw [findings, total, List.length_append, List.length_map, List.length_filterMap_eq_countP]
  simp [Definition.finding?]

/-- Everything found is an error. -/
theorem severity_of_mem_findings {d : Document Span} {x : Diagnostic} (h : x ∈ d.findings) :
    x.severity = .error := by
  rcases List.mem_append.mp h with h | h
  · obtain ⟨i, -, rfl⟩ := List.mem_map.mp h
    rfl
  · obtain ⟨y, -, hy⟩ := List.mem_filterMap.mp h
    obtain ⟨v, -, rfl⟩ := Option.map_eq_some_iff.mp hy
    rfl

variable {source : Text}

/-- A violation of a function in a source text is in a case, and placed there. -/
theorem exists_case_of_violation? {d : Definition Span} (hd : d ∈ (parse source).definitions)
    {v : Violation} (hv : d.function.violation? = some v) :
    ∃ i s, v.caseIndex = some i ∧ d.casesAt[i]? = some s ∧
      d.finding? = some (v.toDiagnostic (some s)) := by
  have hname : d.function.header.name ≠ [] := by
    obtain ⟨line, -, -, hparse, -⟩ := exists_header_of_mem hd
    exact (Text.isName_iff.mp (Header.wellFormed_of_parse? hparse).name).1
  have haligned : d.Aligned := aligned_of_mem_assembleFrom hd
  obtain ⟨i, hi, hlt⟩ := Function.exists_caseIndex hname hv
  have hi' : i < d.casesAt.length := haligned ▸ hlt
  refine ⟨i, d.casesAt[i], hi, List.getElem?_eq_getElem hi', ?_⟩
  rw [Definition.finding?, hv, Option.map_some, Definition.placeOf, hi]
  simp [hi']

/-! ## Positions of their own -/

private theorem eq_of_position_eq {a b : Line} (ha : a ∈ Line.scan source)
    (hb : b ∈ Line.scan source)
    (h : (a.span.line, a.span.column) = (b.span.line, b.span.column)) : a = b := by
  obtain ⟨before, after, hscan⟩ := List.append_of_mem ha
  have hordered := Line.pairwise_scan source
  rw [hscan, List.pairwise_append, List.pairwise_cons] at hordered
  obtain ⟨-, ⟨hafter, -⟩, hbefore⟩ := hordered
  rw [hscan, List.mem_append, List.mem_cons] at hb
  rcases hb with hb | rfl | hb
  · exact absurd h.symm (hbefore b hb a List.mem_cons_self).position_ne
  · rfl
  · exact absurd h (hafter b hb).position_ne

/-- Every fault in a source text is reported for one of its lines, the end of the text being
reported at a header. -/
theorem exists_line_of_mem_issues {i : Issue Span} (hi : i ∈ (parse source).issues) :
    ∃ line ∈ Line.scan source, i.place = line.span ∧
      (line.kind = .case → i.fault ∈ [.malformedCase, .caseOutsideFunction]) := by
  rw [parse, assemble, assembleFrom_eq, issues_append, List.mem_append] at hi
  rcases hi with hi | hi
  · obtain ⟨line, hline, hreported⟩ := exists_reported_of_mem_run hi
    exact ⟨line, hline, hreported.place_eq, hreported.fault_of_case⟩
  · cases hrun : (run none (Line.scan source)).1 with
    | none => simp [hrun] at hi
    | some p =>
      obtain ⟨header, since, hlast, htracks⟩ := exists_lastHeader_of_run hrun
      obtain ⟨earlier, hsplit⟩ := hlast.split
      have hplace : i.place = p.headerAt := by
        rw [hrun, issues_atEnd_some] at hi
        split at hi
        · rw [List.mem_singleton.mp hi]
        · cases hi
      refine ⟨header, ?_, hplace.trans htracks.headerAt_eq, ?_⟩
      · simp [hsplit]
      · simp [hlast.kind]

/-- Every case of a function in a source text stands at a case line. -/
theorem exists_line_of_mem_casesAt {d : Definition Span} (hd : d ∈ (parse source).definitions)
    {s : Span} (hs : s ∈ d.casesAt) :
    ∃ line ∈ Line.scan source, line.kind = .case ∧ line.span = s := by
  have haligned : d.Aligned := aligned_of_mem_assembleFrom hd
  rw [← haligned.map_snd_zip] at hs
  obtain ⟨x, hx, rfl⟩ := List.mem_map.mp hs
  obtain ⟨line, hline, hkind, -, hspan⟩ := exists_case_of_mem hd hx
  exact ⟨line, hline, hkind, hspan.symm⟩

private theorem position_ne_of_mem_casesAt {d : Definition Span}
    (hd : d ∈ (parse source).definitions) {s : Span} (hs : s ∈ d.casesAt) {i : Issue Span}
    (hi : i ∈ (parse source).issues) :
    (i.place.line, i.place.column) ≠ (s.line, s.column) := by
  intro hposition
  obtain ⟨line, hline, hkind, rfl⟩ := exists_line_of_mem_casesAt hd hs
  obtain ⟨other, hother, hplace, hfault⟩ := exists_line_of_mem_issues hi
  rw [hplace] at hposition
  obtain rfl := eq_of_position_eq hother hline hposition
  obtain ⟨before, after, hscan⟩ := List.append_of_mem hline
  have hcases : 0 < (parse source).caseCount other.span :=
    List.count_pos_iff.mpr (List.mem_flatMap.mpr ⟨d, hd, hs⟩)
  have hfaults : 0 < (parse source).faultCount [.malformedCase, .caseOutsideFunction] other.span := by
    apply List.count_pos_iff.mpr
    rw [← hplace]
    exact List.mem_map_of_mem (List.mem_filter.mpr ⟨hi, decide_eq_true (hfault hkind)⟩)
  -- A case line is counted as a case or as a fault, but never as both.
  rcases caseAccounted_of_scan hscan hkind with ⟨-, -, hnone, -⟩ | ⟨hnone, -⟩ | ⟨hnone, -⟩ <;> omega

/-! ## Listings -/

/-- The diagnostics of functions come one behind the other. -/
theorem pairwise_before_finding? (source : Text) :
    ((parse source).definitions.filterMap Definition.finding?).Pairwise fun a b ↦
      a.position.1 < b.position.1 ∨
        a.position.1 = b.position.1 ∧ a.position.2 < b.position.2 := by
  have hplaces := (List.pairwise_flatMap.mp (pairwise_flatMap_places source)).2
  apply hplaces.filterMap
  intro d d' hbefore x hx y hy
  obtain ⟨v, -, rfl⟩ := Option.map_eq_some_iff.mp hx
  obtain ⟨w, -, rfl⟩ := Option.map_eq_some_iff.mp hy
  exact hbefore _ (d.placeOf_mem v) _ (d'.placeOf_mem w)

private theorem pairwise_position_finding? (source : Text) :
    ((parse source).definitions.filterMap Definition.finding?).Pairwise
      (·.position ≠ ·.position) := by
  apply (pairwise_before_finding? source).imp
  intro a b hbefore heq
  rw [heq] at hbefore
  omega

private theorem filter_position_findings {x : Diagnostic}
    (hx : x ∈ (parse source).definitions.filterMap Definition.finding?) :
    (parse source).findings.filter (·.position = x.position) = [x] := by
  obtain ⟨d, hd, hfinding⟩ := List.mem_filterMap.mp hx
  obtain ⟨v, hv, -⟩ := Option.map_eq_some_iff.mp hfinding
  obtain ⟨i, s, -, hs, hplaced⟩ := exists_case_of_violation? hd hv
  have hfaults : ((parse source).issues.map Issue.finding).filter (·.position = x.position) = [] := by
    apply List.filter_eq_nil_iff.mpr
    intro y hy
    obtain ⟨j, hj, rfl⟩ := List.mem_map.mp hy
    rw [hfinding] at hplaced
    obtain rfl := Option.some.inj hplaced
    rw [decide_eq_true_eq]
    exact position_ne_of_mem_casesAt hd (List.mem_of_getElem? hs) hj
  rw [findings, List.filter_append, hfaults, List.nil_append]
  exact Diagnostic.filter_position_eq_singleton (pairwise_position_finding? source) hx

/-- What the diagnostics of a document must be when they are listed up to a limit. -/
structure Listing (d : Document Span) (limit : Int) (found : List Diagnostic) : Prop where
  /-- Every diagnostic is an error. -/
  error : ∀ x ∈ found, x.severity = .error
  /-- Every diagnostic has a place. -/
  placed : ∀ x ∈ found, ∃ s, x.span = some s
  /-- If the limit allows, there is one diagnostic for each fault and one for each function with a
  violation. -/
  complete : d.total ≤ limit → found.Perm
    (d.issues.map Issue.finding ++ d.definitions.filterMap Definition.finding?)
  /-- The diagnostic of a function names a case and is at the place of that case. -/
  located : ∀ y ∈ d.definitions, ∀ v, y.function.violation? = some v →
    ∃ i s, v.caseIndex = some i ∧ y.casesAt[i]? = some s ∧
      y.finding? = some (v.toDiagnostic (some s))
  /-- The diagnostics come by line and column. -/
  ordered : found.Pairwise fun a b ↦ a.position.1 < b.position.1 ∨
    a.position.1 = b.position.1 ∧ a.position.2 ≤ b.position.2
  /-- Faults at one position come in the order they were recorded in. -/
  recorded : ∀ position,
    (found.filter fun x ↦ x.position = position ∧ x.caseIndex = none) <+:
      (d.issues.map Issue.finding).filter (·.position = position)
  /-- The diagnostic of a function shares its position with no other. -/
  alone : ∀ x ∈ found, x ∈ d.definitions.filterMap Definition.finding? →
    found.filter (·.position = x.position) = [x]

/-- The diagnostics of a source text can be given. -/
theorem check?_parse (source : Text) (limit : Int) :
    ((parse source).mapPlaces some).check? limit = some ((parse source).check limit) := by
  rw [check, check?_eq (d := parse source) fun _ ↦ aligned_of_mem_assembleFrom, Option.getD_some]

/-- A limit cuts off the sorted diagnostics. -/
theorem check_eq_take (source : Text) {limit : Int} (hlimit : 0 ≤ limit) :
    (parse source).check limit =
      ((parse source).findings.mergeSort Diagnostic.notAfter).take limit.toNat := by
  have hcheck := check?_eq (d := parse source) (fun _ ↦ aligned_of_mem_assembleFrom) limit
  rw [check?_parse, takeLimit, if_pos hlimit] at hcheck
  exact Option.some.inj hcheck

private theorem filter_caseIndex_findings (source : Text) :
    (parse source).findings.filter (·.caseIndex = none) =
      (parse source).issues.map Issue.finding := by
  have hfaults : ((parse source).issues.map Issue.finding).filter (·.caseIndex = none) =
      (parse source).issues.map Issue.finding := by
    apply List.filter_eq_self.mpr
    intro x hx
    obtain ⟨i, -, rfl⟩ := List.mem_map.mp hx
    rfl
  have hviolations : ((parse source).definitions.filterMap Definition.finding?).filter
      (·.caseIndex = none) = [] := by
    apply List.filter_eq_nil_iff.mpr
    intro x hx
    obtain ⟨d, hd, hfinding⟩ := List.mem_filterMap.mp hx
    obtain ⟨v, hv, rfl⟩ := Option.map_eq_some_iff.mp hfinding
    obtain ⟨i, s, hindex, -, -⟩ := exists_case_of_violation? hd hv
    simp [Violation.toDiagnostic, hindex]
  rw [findings, List.filter_append, hfaults, hviolations, List.append_nil]

private theorem filter_recorded_mergeSort (source : Text) (position : Int × Int) :
    (((parse source).findings.mergeSort Diagnostic.notAfter).filter fun x ↦
        x.position = position ∧ x.caseIndex = none) =
      ((parse source).issues.map Issue.finding).filter (·.position = position) := by
  simp only [Bool.decide_and]
  rw [← List.filter_filter, Diagnostic.filter_mergeSort, filter_caseIndex_findings,
    Diagnostic.filter_position_mergeSort]

/-- Up to any limit that is not negative, checking a source text lists its diagnostics. -/
theorem listing_check (source : Text) {limit : Int} (hlimit : 0 ≤ limit) :
    (parse source).Listing limit ((parse source).check limit) := by
  have hcut : (parse source).check limit <+:
      (parse source).findings.mergeSort Diagnostic.notAfter := by
    rw [check_eq_take source hlimit]
    exact List.take_prefix _ _
  have hfound : ∀ x ∈ (parse source).check limit, x ∈ (parse source).findings := by
    intro x hx
    exact List.mem_mergeSort.mp (hcut.subset hx)
  constructor
  · intro x hx
    exact severity_of_mem_findings (hfound x hx)
  · intro x hx
    obtain ⟨s, -, hs⟩ := exists_place_of_mem_findings (hfound x hx)
    exact ⟨s, hs⟩
  · intro htotal
    rw [check_eq_take source hlimit, List.take_of_length_le]
    · exact List.mergeSort_perm _ _
    · rw [List.length_mergeSort, length_findings]
      omega
  · intro y hy v hv
    exact exists_case_of_violation? hy hv
  · apply ((Diagnostic.pairwise_mergeSort _).sublist hcut.sublist).imp
    intro a b hab
    exact Diagnostic.notAfter_iff.mp hab
  · intro position
    rw [← filter_recorded_mergeSort]
    exact hcut.filter _
  · intro x hx hviolation
    have halone := hcut.filter (·.position = x.position)
    rw [Diagnostic.filter_position_mergeSort, filter_position_findings hviolation] at halone
    apply halone.eq_of_length_le
    exact List.length_pos_of_mem (List.mem_filter.mpr ⟨hx, decide_eq_true rfl⟩)

/-- A smaller limit gives the first of the diagnostics that a greater one gives. -/
theorem check_eq_take_check (source : Text) {m n : Int} (hm : 0 ≤ m) (hmn : m ≤ n) :
    (parse source).check m =
      ((parse source).check n).take (min m.toNat (parse source).total) := by
  rw [check_eq_take source hm, check_eq_take source (Int.le_trans hm hmn), List.take_take,
    List.take_eq_take_iff, List.length_mergeSort, length_findings]
  omega

/-- Settings give limits that are not negative. Up to such a limit the diagnostics of a source text
can always be given, they are listed completely, by position and in the order of recording, and a
smaller limit only cuts the list off earlier. -/
theorem check_lists :
    (∀ read label t settings, Settings.parse read label t = .ok settings →
        0 ≤ settings.limit) ∧
      ∀ (source : Text) (m n : Int), 0 ≤ m → m ≤ n →
        ((parse source).mapPlaces some).check? m = some ((parse source).check m) ∧
          (parse source).Listing m ((parse source).check m) ∧
          (parse source).check m =
            ((parse source).check n).take (min m.toNat (parse source).total) := by
  constructor
  · intro read label t settings hparse
    exact Settings.limit_nonneg_of_parse hparse
  · intro source m n hm hmn
    exact ⟨check?_parse source m, listing_check source hm, check_eq_take_check source hm hmn⟩

/-- A function with a violation, and below it a header that is at fault twice: the limit cuts the
list off between the two faults. -/
theorem check_lists_tied_faults :
    Settings.parse Yaml.read [] [] = .ok {} ∧ 0 ≤ ({} : Settings).limit ∧ (0 : Int) ≤ 2 ∧
      (2 : Int) ≤ 3 ∧
      (parse "func h a -> b\nh(x) = 1;\nfunc f \x7b".toList).Listing 2
        [(Violation.argument 0 0).toDiagnostic (some ⟨2, 1, 10⟩),
          Issue.finding ⟨.malformedHeader, ⟨3, 1, 7⟩⟩] := by
  have hsettings : Settings.parse Yaml.read [] [] = .ok {} := rfl
  have hdocument : parse "func h a -> b\nh(x) = 1;\nfunc f \x7b".toList =
      ⟨[⟨⟨⟨['h'], [['a']], [['b']]⟩, [⟨[['x']], .literal ⟨.integer, .int 1⟩⟩]⟩, ⟨1, 1, 14⟩,
        [⟨2, 1, 10⟩]⟩], [⟨.malformedHeader, ⟨3, 1, 7⟩⟩, ⟨.unclosedAtEnd, ⟨3, 1, 7⟩⟩]⟩ := by
    decide +kernel
  have hfindings : (parse "func h a -> b\nh(x) = 1;\nfunc f \x7b".toList).findings =
      [Issue.finding ⟨.malformedHeader, ⟨3, 1, 7⟩⟩, Issue.finding ⟨.unclosedAtEnd, ⟨3, 1, 7⟩⟩,
        (Violation.argument 0 0).toDiagnostic (some ⟨2, 1, 10⟩)] := by
    rw [hdocument]
    rfl
  have hcheck : (parse "func h a -> b\nh(x) = 1;\nfunc f \x7b".toList).check 2 =
      [(Violation.argument 0 0).toDiagnostic (some ⟨2, 1, 10⟩),
        Issue.finding ⟨.malformedHeader, ⟨3, 1, 7⟩⟩] := by
    rw [check_eq_take _ (by decide), hfindings]
    simp [Diagnostic.mergeSort_cons, Diagnostic.notAfter, Diagnostic.position, Issue.finding,
      Violation.toDiagnostic]
  have hlists := check_lists.2 "func h a -> b\nh(x) = 1;\nfunc f \x7b".toList 2 3 (by decide)
    (by decide)
  rw [hcheck] at hlists
  exact ⟨hsettings, check_lists.1 _ _ _ _ hsettings, by decide, by decide, hlists.2.1⟩

end Document

end Lilac
