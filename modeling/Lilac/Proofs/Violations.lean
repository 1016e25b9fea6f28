import Lilac.Diagnostic

/-!
# First violations

A function has no diagnostic exactly when it has a name and every case has the inputs of the header
as its arguments. Otherwise its diagnostic tells the violation that comes first: the missing name,
or else the first case whose arguments are not the inputs, and in a case with the right number of
arguments the first one that is not the input at its position. What follows a violation has no part
in the diagnostic.

About `diagnostic`. Specification: `SPEC_FULL.md`, section 4.5.
-/

namespace Lilac

/-! ## The first difference -/

/-- Two lists differ at a position and at none before it. -/
structure FirstDifferAt (xs ys : List Text) (j : Nat) : Prop where
  differ : xs[j]? ≠ ys[j]?
  agree : ∀ k < j, xs[k]? = ys[k]?

private theorem firstDifferAt_cons_succ {x : Text} {xs ys : List Text} {j : Nat} :
    FirstDifferAt (x :: xs) (x :: ys) (j + 1) ↔ FirstDifferAt xs ys j := by
  constructor
  · rintro ⟨hdiffer, hagree⟩
    refine ⟨hdiffer, fun k hk ↦ ?_⟩
    exact hagree (k + 1) (Nat.succ_lt_succ hk)
  · rintro ⟨hdiffer, hagree⟩
    refine ⟨hdiffer, fun k hk ↦ ?_⟩
    cases k with
    | zero => rfl
    | succ k => exact hagree k (Nat.lt_of_succ_lt_succ hk)

/-- The first difference of two lists of the same length is where they first differ. -/
theorem firstDifference_eq_some_iff {xs ys : List Text} (hlength : xs.length = ys.length)
    {position n : Nat} :
    firstDifference position xs ys = some n ↔
      ∃ j, FirstDifferAt xs ys j ∧ n = position + j := by
  induction xs generalizing ys position with
  | nil =>
    obtain rfl := List.eq_nil_of_length_eq_zero hlength.symm
    constructor
    · intro h
      cases h
    · rintro ⟨j, hj, -⟩
      exact absurd rfl hj.differ
  | cons x xs ih =>
    cases ys with
    | nil => cases hlength
    | cons y ys =>
      rw [firstDifference]
      split
      · next heq =>
        subst heq
        rw [ih (Nat.succ.inj hlength)]
        constructor
        · rintro ⟨j, hj, rfl⟩
          exact ⟨j + 1, firstDifferAt_cons_succ.mpr hj, by omega⟩
        · rintro ⟨j, hj, rfl⟩
          cases j with
          | zero => exact absurd rfl hj.differ
          | succ j => exact ⟨j, firstDifferAt_cons_succ.mp hj, by omega⟩
      · next hne =>
        constructor
        · intro h
          obtain rfl := Option.some.inj h
          refine ⟨0, ⟨?_, fun k hk ↦ absurd hk (Nat.not_lt_zero k)⟩, rfl⟩
          simpa using hne
        · rintro ⟨j, hj, rfl⟩
          cases j with
          | zero => rfl
          | succ j => exact absurd (Option.some.inj (hj.agree 0 (Nat.succ_pos j))) hne

private theorem firstDifference_eq_none_iff {xs ys : List Text} (hlength : xs.length = ys.length)
    (position : Nat) : firstDifference position xs ys = none ↔ xs = ys := by
  induction xs generalizing ys position with
  | nil =>
    obtain rfl := List.eq_nil_of_length_eq_zero hlength.symm
    simp [firstDifference]
  | cons x xs ih =>
    cases ys with
    | nil => cases hlength
    | cons y ys =>
      rw [firstDifference]
      split
      · next heq => rw [ih (Nat.succ.inj hlength), heq, List.cons_inj_right]
      · next hne => simp [hne]

/-! ## The first case that deviates -/

namespace Case

variable {inputs : List Text} {index : Nat}

/-- A case violates its header exactly when its arguments are not the inputs. -/
theorem violation?_eq_none_iff {c : Case} :
    c.violation? inputs index = none ↔ c.arguments = inputs := by
  unfold violation?
  split
  · next hlength =>
    have hne : c.arguments ≠ inputs := fun heq ↦ hlength (congrArg List.length heq)
    simp [hne]
  · next hlength =>
    rw [Option.map_eq_none_iff, firstDifference_eq_none_iff (Decidable.not_not.mp hlength)]

/-- The case with the given number is the first whose arguments are not the inputs. -/
structure FirstDeviant (inputs : List Text) (cs : List Case) (i : Nat) (c : Case) : Prop where
  there : cs[i]? = some c
  deviates : c.arguments ≠ inputs
  first : ∀ k < i, ∀ b, cs[k]? = some b → b.arguments = inputs

private theorem firstDeviant_cons_succ {b c : Case} {cs : List Case} {i : Nat}
    (hb : b.arguments = inputs) :
    FirstDeviant inputs (b :: cs) (i + 1) c ↔ FirstDeviant inputs cs i c := by
  constructor
  · rintro ⟨hthere, hdeviates, hfirst⟩
    refine ⟨hthere, hdeviates, fun k hk ↦ ?_⟩
    exact hfirst (k + 1) (Nat.succ_lt_succ hk)
  · rintro ⟨hthere, hdeviates, hfirst⟩
    refine ⟨hthere, hdeviates, fun k hk d hd ↦ ?_⟩
    cases k with
    | zero => exact Option.some.inj hd ▸ hb
    | succ k => exact hfirst k (Nat.lt_of_succ_lt_succ hk) d hd

/-- The first violation among some cases is that of the first case that deviates. -/
theorem firstViolation?_eq_some_iff {cs : List Case} {v : Violation} :
    firstViolation? inputs index cs = some v ↔
      ∃ i c, FirstDeviant inputs cs i c ∧ c.violation? inputs (index + i) = some v := by
  induction cs generalizing index with
  | nil =>
    constructor
    · intro h
      cases h
    · rintro ⟨i, c, hc, -⟩
      cases hc.there
  | cons b cs ih =>
    simp only [firstViolation?, Option.orElse_eq_orElse, Option.orElse_eq_or]
    by_cases hb : b.arguments = inputs
    · rw [violation?_eq_none_iff.mpr hb, Option.none_or, ih]
      constructor
      · rintro ⟨i, c, hc, hv⟩
        refine ⟨i + 1, c, (firstDeviant_cons_succ hb).mpr hc, ?_⟩
        rwa [← Nat.add_right_comm, Nat.add_assoc] at hv
      · rintro ⟨i, c, hc, hv⟩
        cases i with
        | zero => exact absurd (Option.some.inj hc.there ▸ hb) hc.deviates
        | succ i =>
          refine ⟨i, c, (firstDeviant_cons_succ hb).mp hc, ?_⟩
          rwa [Nat.add_right_comm, Nat.add_assoc]
    · obtain ⟨w, hw⟩ := Option.ne_none_iff_exists'.mp (mt violation?_eq_none_iff.mp hb)
      rw [hw, Option.some_or]
      constructor
      · intro h
        refine ⟨0, b, ⟨rfl, hb, fun k hk ↦ absurd hk (Nat.not_lt_zero k)⟩, ?_⟩
        rw [Nat.add_zero, hw, h]
      · rintro ⟨i, c, hc, hv⟩
        cases i with
        | zero =>
          obtain rfl := Option.some.inj hc.there
          rw [← hw, ← hv, Nat.add_zero]
        | succ i => exact absurd (hc.first 0 (Nat.succ_pos i) b rfl) hb

private theorem firstViolation?_eq_none_iff {cs : List Case} :
    firstViolation? inputs index cs = none ↔ ∀ c ∈ cs, c.arguments = inputs := by
  induction cs generalizing index with
  | nil => simp [firstViolation?]
  | cons b cs ih =>
    simp only [firstViolation?, Option.orElse_eq_orElse, Option.orElse_eq_or]
    rw [Option.or_eq_none_iff, violation?_eq_none_iff, ih, List.forall_mem_cons]

/-- The first violation among some cases stays the first when further cases follow. -/
theorem firstViolation?_append (inputs : List Text) (index : Nat) (cs more : List Case) :
    firstViolation? inputs index (cs ++ more) =
      (firstViolation? inputs index cs).or (firstViolation? inputs (index + cs.length) more) := by
  induction cs generalizing index with
  | nil => simp [firstViolation?]
  | cons c cs ih =>
    have hindex : index + (cs.length + 1) = index + 1 + cs.length := by omega
    simp [firstViolation?, ih, hindex, Option.or_assoc]

end Case

/-! ## Diagnostics of functions -/

namespace Function

variable {f : Function}

/-- What a diagnostic has to tell about a function: the violation that comes first. -/
inductive FirstProblem (f : Function) : Diagnostic → Prop
  | emptyName (hname : f.header.name = []) :
    FirstProblem f ⟨.error, "Function name cannot be empty", none, none⟩
  | argumentCount {i : Nat} {c : Case} (hname : f.header.name ≠ [])
    (hfirst : Case.FirstDeviant f.header.inputs f.cases i c)
    (hcount : c.arguments.length ≠ f.header.inputs.length) :
    FirstProblem f ⟨.error,
      "Number of arguments in case " ++ natString i ++ " does not match function header",
      some i, none⟩
  | argument {i j : Nat} {c : Case} (hname : f.header.name ≠ [])
    (hfirst : Case.FirstDeviant f.header.inputs f.cases i c)
    (hcount : c.arguments.length = f.header.inputs.length)
    (hposition : FirstDifferAt c.arguments f.header.inputs j) :
    FirstProblem f ⟨.error,
      "Argument " ++ natString j ++ " in case " ++ natString i ++
        " does not match function header",
      some i, none⟩

/-- A function has no diagnostic exactly when it has a name and all its cases have the inputs as
their arguments. -/
theorem diagnostic?_eq_none_iff :
    f.diagnostic? = none ↔
      f.header.name ≠ [] ∧ ∀ c ∈ f.cases, c.arguments = f.header.inputs := by
  rw [diagnostic?, Option.map_eq_none_iff, violation?]
  split
  · next hname => simp [hname]
  · next hname => rw [Case.firstViolation?_eq_none_iff, and_iff_right hname]

private theorem firstProblem_of_violation? {i : Nat} {c : Case} {v : Violation}
    (hname : f.header.name ≠ []) (hfirst : Case.FirstDeviant f.header.inputs f.cases i c)
    (hv : c.violation? f.header.inputs i = some v) : f.FirstProblem (v.toDiagnostic none) := by
  unfold Case.violation? at hv
  split at hv
  · next hcount =>
    obtain rfl := Option.some.inj hv
    exact .argumentCount hname hfirst hcount
  · next hcount =>
    have hcount := Decidable.not_not.mp hcount
    obtain ⟨n, hn, rfl⟩ := Option.map_eq_some_iff.mp hv
    obtain ⟨j, hj, rfl⟩ := (firstDifference_eq_some_iff hcount).mp hn
    rw [Nat.zero_add]
    exact .argument hname hfirst hcount hj

private theorem diagnostic?_of_firstDeviant {i : Nat} {c : Case} {v : Violation}
    (hname : f.header.name ≠ []) (hfirst : Case.FirstDeviant f.header.inputs f.cases i c)
    (hv : c.violation? f.header.inputs i = some v) :
    f.diagnostic? = some (v.toDiagnostic none) := by
  have hviolation := Case.firstViolation?_eq_some_iff.mpr
    ⟨i, c, hfirst, (Nat.zero_add i).symm ▸ hv⟩
  rw [diagnostic?, violation?, if_neg hname, hviolation, Option.map_some]

/-- The diagnostic of a function tells its first problem, whatever that is. -/
theorem diagnostic?_eq_some_iff {d : Diagnostic} : f.diagnostic? = some d ↔ f.FirstProblem d := by
  constructor
  · intro h
    obtain ⟨v, hv, rfl⟩ := Option.map_eq_some_iff.mp h
    unfold violation? at hv
    split at hv
    · next hname =>
      obtain rfl := Option.some.inj hv
      exact .emptyName hname
    · next hname =>
      obtain ⟨i, c, hfirst, hv⟩ := Case.firstViolation?_eq_some_iff.mp hv
      rw [Nat.zero_add] at hv
      exact firstProblem_of_violation? hname hfirst hv
  · intro h
    cases h with
    | emptyName hname => rw [diagnostic?, violation?, if_pos hname]; rfl
    | argumentCount hname hfirst hcount =>
      exact diagnostic?_of_firstDeviant hname hfirst (if_pos hcount)
    | @argument i j c hname hfirst hcount hposition =>
      have hj := (firstDifference_eq_some_iff hcount).mpr ⟨j, hposition, (Nat.zero_add j).symm⟩
      refine diagnostic?_of_firstDeviant (v := .argument j i) hname hfirst ?_
      rw [Case.violation?, if_neg (Decidable.not_not.mpr hcount), hj, Option.map_some]

/-- A function that has a diagnostic keeps it when further cases follow. -/
theorem diagnostic?_append {d : Diagnostic} (h : f.diagnostic? = some d) (more : List Case) :
    diagnostic? { f with cases := f.cases ++ more } = some d := by
  obtain ⟨v, hv, rfl⟩ := Option.map_eq_some_iff.mp h
  unfold violation? at hv
  rw [diagnostic?, violation?]
  split at hv
  · next hname => rw [if_pos hname, hv, Option.map_some]
  · next hname =>
    rw [if_neg hname, Case.firstViolation?_append, hv, Option.some_or, Option.map_some]

/-- A function has no diagnostic exactly when it is in order, and otherwise its diagnostic tells its
first problem and nothing else; behind a case that deviates further cases change nothing. -/
theorem diagnostic_tells_first_problem (f : Function) :
    (f.diagnostic? = none ↔
        f.header.name ≠ [] ∧ ∀ c ∈ f.cases, c.arguments = f.header.inputs) ∧
      (∀ d, f.diagnostic? = some d ↔ f.FirstProblem d) ∧
      ∀ c ∈ f.cases, c.arguments ≠ f.header.inputs →
        ∀ more, diagnostic? { f with cases := f.cases ++ more } = f.diagnostic? := by
  refine ⟨diagnostic?_eq_none_iff, fun d ↦ diagnostic?_eq_some_iff, ?_⟩
  intro c hc hdeviates more
  have hsome : f.diagnostic? ≠ none := fun hnone ↦
    hdeviates ((diagnostic?_eq_none_iff.mp hnone).2 c hc)
  obtain ⟨d, hd⟩ := Option.ne_none_iff_exists'.mp hsome
  rw [hd, diagnostic?_append hd]

-- A wrong argument in one case comes before a wrong number of arguments in a later one.
example : diagnostic? ⟨⟨['f'], [['a'], ['b']], [['c']]⟩,
    [⟨[['a'], ['x']], .call ['g'] []⟩, ⟨[], .call ['g'] []⟩]⟩ =
      some ⟨.error, "Argument 1 in case 0 does not match function header", some 0, none⟩ := by
  decide

end Function

end Lilac
