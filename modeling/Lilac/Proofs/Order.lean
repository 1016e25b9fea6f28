import Lilac.Check

/-!
# The order of diagnostics

Diagnostics are listed by position with a stable sort. Where a diagnostic comes in the list
therefore depends on the others only through its position: leaving some of them out leaves the rest
in the same order, and the diagnostics at one position come in the order they were found in.
-/

namespace Lilac

namespace Diagnostic

/-! ## Positions -/

theorem notAfter_iff {a b : Diagnostic} :
    notAfter a b = true ↔
      a.position.1 < b.position.1 ∨
        a.position.1 = b.position.1 ∧ a.position.2 ≤ b.position.2 := by
  simp [notAfter]

private theorem notAfter_of_position_eq {a b : Diagnostic} (h : a.position = b.position) :
    notAfter a b = true := by
  rw [notAfter_iff, h]
  exact .inr ⟨rfl, Int.le_refl _⟩

theorem notAfter_trans (a b c : Diagnostic) (hab : notAfter a b = true)
    (hbc : notAfter b c = true) : notAfter a c = true := by
  rw [notAfter_iff] at *
  omega

theorem notAfter_total (a b : Diagnostic) : (notAfter a b || notAfter b a) = true := by
  rw [Bool.or_eq_true, notAfter_iff, notAfter_iff]
  omega

/-- A diagnostic that shares its position with no other is the only one there. -/
theorem filter_position_eq_singleton {xs : List Diagnostic}
    (h : xs.Pairwise (·.position ≠ ·.position)) {x : Diagnostic} (hx : x ∈ xs) :
    xs.filter (·.position = x.position) = [x] := by
  obtain ⟨before, after, rfl⟩ := List.append_of_mem hx
  rw [List.pairwise_append, List.pairwise_cons] at h
  obtain ⟨-, ⟨hafter, -⟩, hbefore⟩ := h
  have hnone : before.filter (·.position = x.position) = [] := by
    apply List.filter_eq_nil_iff.mpr
    intro y hy
    simpa using hbefore y hy x List.mem_cons_self
  have hrest : after.filter (·.position = x.position) = [] := by
    apply List.filter_eq_nil_iff.mpr
    intro y hy
    simpa using (hafter y hy).symm
  rw [List.filter_append, hnone, List.filter_cons_of_pos (by simp), hrest, List.nil_append]

/-! ## Sorting -/

/-- Sorted diagnostics come by position. -/
theorem pairwise_mergeSort (xs : List Diagnostic) :
    (xs.mergeSort notAfter).Pairwise (notAfter · ·) :=
  List.pairwise_mergeSort notAfter_trans notAfter_total xs

/-- A diagnostic that was found before others comes behind those that it may not precede, and in
front of all the rest. -/
theorem mergeSort_cons (x : Diagnostic) (xs : List Diagnostic) :
    (x :: xs).mergeSort notAfter =
      (xs.mergeSort notAfter).filter (!notAfter x ·) ++
        x :: (xs.mergeSort notAfter).filter (notAfter x ·) := by
  obtain ⟨before, after, hcons, hrest, hbefore⟩ :=
    List.mergeSort_cons notAfter_trans notAfter_total x xs
  have hsorted := pairwise_mergeSort (x :: xs)
  rw [hcons, List.pairwise_append, List.pairwise_cons] at hsorted
  have hafter : ∀ y ∈ after, notAfter x y = true := hsorted.2.1.1
  have hfront : (before ++ after).filter (!notAfter x ·) = before := by
    rw [List.filter_append, List.filter_eq_self.mpr hbefore, List.filter_eq_nil_iff.mpr,
      List.append_nil]
    intro y hy
    simp [hafter y hy]
  have hback : (before ++ after).filter (notAfter x ·) = after := by
    rw [List.filter_append, List.filter_eq_self.mpr hafter, List.filter_eq_nil_iff.mpr,
      List.nil_append]
    intro y hy
    simpa using hbefore y hy
  rw [hcons, hrest, hfront, hback]

private theorem sublist_mergeSort_cons (x : Diagnostic) (xs : List Diagnostic) :
    (xs.mergeSort notAfter).Sublist ((x :: xs).mergeSort notAfter) := by
  obtain ⟨before, after, hcons, hrest, -⟩ := List.mergeSort_cons notAfter_trans notAfter_total x xs
  rw [hcons, hrest]
  exact (List.sublist_cons_self x after).append_left before

/-- Diagnostics that are part of others are listed among them in the same order. -/
theorem mergeSort_sublist_mergeSort {xs ys : List Diagnostic} (h : xs.Sublist ys) :
    (xs.mergeSort notAfter).Sublist (ys.mergeSort notAfter) := by
  induction h with
  | slnil => exact .refl _
  | cons y _ ih => exact ih.trans (sublist_mergeSort_cons y _)
  | cons_cons x _ ih =>
    rw [mergeSort_cons, mergeSort_cons]
    exact (ih.filter _).append ((ih.filter _).cons_cons x)

/-- Leaving diagnostics out before sorting is leaving them out afterwards. -/
theorem filter_mergeSort (p : Diagnostic → Bool) (xs : List Diagnostic) :
    (xs.mergeSort notAfter).filter p = (xs.filter p).mergeSort notAfter := by
  have hkept : ((xs.filter p).mergeSort notAfter).filter p = (xs.filter p).mergeSort notAfter := by
    apply List.filter_eq_self.mpr
    intro x hx
    exact (List.mem_filter.mp (List.mem_mergeSort.mp hx)).2
  have hsub := (mergeSort_sublist_mergeSort (List.filter_sublist (p := p) (l := xs))).filter p
  rw [hkept] at hsub
  apply (hsub.eq_of_length ?_).symm
  rw [List.length_mergeSort]
  exact ((List.mergeSort_perm xs notAfter).filter p).length_eq.symm

/-- The diagnostics at one position come in the order they were found in. -/
theorem filter_position_mergeSort (position : Int × Int) (xs : List Diagnostic) :
    (xs.mergeSort notAfter).filter (·.position = position) =
      xs.filter (·.position = position) := by
  rw [filter_mergeSort]
  apply List.mergeSort_of_pairwise
  apply List.pairwise_of_forall_mem_list
  intro a ha b hb
  have ha : a.position = position := by simpa using (List.mem_filter.mp ha).2
  have hb : b.position = position := by simpa using (List.mem_filter.mp hb).2
  exact notAfter_of_position_eq (ha.trans hb.symm)

end Diagnostic

end Lilac
