import Lilac.Proofs.Searches

/-!
# Exclusions

An exclusion stands for a directory, relative to the directory that is searched, and leaves out what
is below that directory, name by name. So a search finds the sources below a directory in the order
of their paths, without those that an exclusion leaves out, and nothing else changes. It fails for
two reasons only. One is the limits of a search: a directory below is too deep to be looked into.
The other is a slip: an exclusion with a null character in it, which leaves nothing out, is followed
nonetheless.

About `find_sources`. Specification: `SPEC_FULL.md`, on configuration.
-/

namespace Lilac

namespace Path

/-- A path that is read has a null character in it exactly if the text has. -/
theorem hasNull_ofText {t : Text} : (ofText t).hasNull ↔ '\x00' ∈ t := by
  simp only [hasNull, parts_ofText, List.any_eq_true, List.contains_iff_mem, partsOf,
    List.mem_filter, decide_eq_true_eq]
  constructor
  · rintro ⟨part, ⟨hpiece, -⟩, hnull⟩
    exact (Text.infix_of_mem_pieces hpiece).subset hnull
  · intro hnull
    by_contra hnone
    have hpieces : ∀ part ∈ Text.pieces '/' t, '\x00' ∉ part := by
      intro part hpiece hpart
      refine hnone ⟨part, ⟨hpiece, ?_, ?_⟩, hpart⟩
      · rintro rfl
        cases hpart
      · rintro rfl
        exact absurd hpart (by decide)
    have hslash : '\x00' ∉ ['/'] := by decide
    exact Text.not_mem_join hslash hpieces ((Text.join_pieces '/' t).symm ▸ hnull)

end Path

namespace Source

open FileTree

variable {depth : Nat} {tree : FileTree} {here : Location} {p : Path}

/-! ## What exclusions leave out -/

/-- A location is left out: it is strictly below the directory that some exclusion stands for in the
directory that is searched. -/
def IsExcluded (l : Location) (exclude : List Text) (m : Location) : Prop :=
  ∃ name ∈ exclude, ∃ rest ≠ [], m = (Path.ofText name).resolve l ++ rest

theorem isBelowAny_iff {l m : Location} {exclude : List Text} :
    isBelowAny (exclude.map fun name ↦ (Path.ofText name).resolve l) m ↔
      IsExcluded l exclude m := by
  simp only [isBelowAny, List.any_map, List.any_eq_true, Function.comp_apply, Bool.and_eq_true,
    List.isPrefixOf_iff_prefix, decide_eq_true_eq, IsExcluded]
  refine exists_congr fun name ↦ and_congr_right fun _ ↦ ⟨?_, ?_⟩
  · rintro ⟨⟨rest, rfl⟩, hlength⟩
    refine ⟨rest, ?_, rfl⟩
    rintro rfl
    simp at hlength
  · rintro ⟨rest, hrest, rfl⟩
    exact ⟨List.prefix_append _ _, by simpa using List.length_pos_iff.mpr hrest⟩

instance (l : Location) (exclude : List Text) (m : Location) :
    Decidable (IsExcluded l exclude m) :=
  decidable_of_iff _ isBelowAny_iff

namespace Enterable

variable {exclude : List Text}

/-- Exclusions without null characters all stand for directories. -/
theorem excludedBelow_eq_ok (h : Enterable tree here p) (hnull : ∀ name ∈ exclude, '\x00' ∉ name) :
    excludedBelow tree here p exclude =
      .ok (exclude.map fun name ↦ (Path.ofText name).resolve (p.resolve here)) := by
  induction exclude with
  | nil => rfl
  | cons name rest ih =>
    obtain ⟨hname, hrest⟩ := List.forall_mem_cons.mp hnull
    have hfirst := h.resolve_join (Bool.eq_false_iff.mpr (mt Path.hasNull_ofText.mp hname))
    rw [excludedBelow] at ih
    rw [excludedBelow, List.mapM_cons, hfirst, ih hrest]
    rfl

/-- An exclusion with a null character stands for nothing, and the search does not go on. -/
private theorem excludedBelow_eq_error (h : Enterable tree here p)
    (hnull : ∃ name ∈ exclude, '\x00' ∈ name) :
    excludedBelow tree here p exclude = .error .nullCharacter := by
  induction exclude with
  | nil => simp at hnull
  | cons name rest ih =>
    rw [excludedBelow] at ih
    rw [excludedBelow, List.mapM_cons]
    by_cases hname : '\x00' ∈ name
    · have hboth : (p.join (.ofText name)).hasNull := by
        have hq := Path.hasNull_ofText.mpr hname
        rw [Path.hasNull] at hq
        unfold Path.join Path.hasNull
        split
        · rw [List.any_append, hq, Bool.or_true]
        · exact hq
      rw [FileTree.resolve, if_pos hboth]
      rfl
    · have hfirst := h.resolve_join (Bool.eq_false_iff.mpr (mt Path.hasNull_ofText.mp hname))
      have hrest : ∃ name ∈ rest, '\x00' ∈ name := by
        obtain ⟨other, hmem, hother⟩ := hnull
        rcases List.mem_cons.mp hmem with rfl | hmem
        · exact absurd hother hname
        · exact ⟨other, hmem, hother⟩
      rw [hfirst, ih hrest]
      rfl

/-- A search leaves out what the exclusions leave out. -/
theorem find_eq_ok (h : Enterable tree here p) (hreachable : Reachable depth tree here p)
    (hnull : ∀ name ∈ exclude, '\x00' ∉ name) :
    find depth tree here exclude p = .ok ((allBelow tree here p).filter fun q ↦
      ¬IsExcluded (p.resolve here) exclude (q.resolve here)) := by
  rw [find_of_lookup exclude h.lookup_eq, h.excludedBelow_eq_ok hnull]
  change search depth tree here p _ = _
  rw [search, h.obstacle?_eq_none_iff.mpr hreachable]
  change keptBelow tree here p _ = _
  rw [keptBelow, h.resolve_eq]
  have hkept : ∀ q : Path, (!isBelowAny (exclude.map fun name ↦
      (Path.ofText name).resolve (p.resolve here)) (q.resolve here)) =
        decide (¬IsExcluded (p.resolve here) exclude (q.resolve here)) := by
    intro q
    rw [Bool.eq_iff_iff]
    simp [← isBelowAny_iff]
  simp only [← hkept]
  split
  · next hnone =>
    rcases hnone with hnone | hnone
    · rw [hnone, List.filter_nil]
    · rw [hnone]
      exact congrArg _ (List.filter_eq_self.mpr fun _ _ ↦ rfl).symm
  · rfl

theorem find_eq_error (h : Enterable tree here p) (hnull : ∃ name ∈ exclude, '\x00' ∈ name) :
    find depth tree here exclude p = .error .nullCharacter := by
  rw [find_of_lookup exclude h.lookup_eq, h.excludedBelow_eq_error hnull]
  rfl

/-- A search succeeds exactly if no exclusion has a null character in it and all directories below
can be looked into. -/
theorem exists_find_iff (h : Enterable tree here p) (exclude : List Text) :
    (∃ found, find depth tree here exclude p = .ok found) ↔
      (∀ name ∈ exclude, '\x00' ∉ name) ∧ Reachable depth tree here p := by
  constructor
  · rintro ⟨found, hfound⟩
    by_cases hnull : ∃ name ∈ exclude, '\x00' ∈ name
    · rw [h.find_eq_error hnull] at hfound
      cases hfound
    · have hnone : ∀ name ∈ exclude, '\x00' ∉ name := by simpa using hnull
      refine ⟨hnone, h.obstacle?_eq_none_iff.mp ?_⟩
      rw [find_of_lookup exclude h.lookup_eq, h.excludedBelow_eq_ok hnone] at hfound
      change search depth tree here p _ = _ at hfound
      rw [search] at hfound
      cases hobstacle : obstacle? depth tree here p with
      | none => rfl
      | some cause =>
        rw [hobstacle] at hfound
        cases hfound
  · rintro ⟨hnull, hreachable⟩
    exact ⟨_, h.find_eq_ok hreachable hnull⟩

end Enterable

namespace Enterable

theorem mem_allBelow_iff (h : Enterable tree here p) {q : Path} :
    q ∈ allBelow tree here p ↔ ∃ parts ≠ [], q = ⟨p.anchor, p.parts ++ parts⟩ ∧
      (tree.entry? (p.resolve here ++ parts)).isSome ∧ isNamed parts := by
  rw [h.allBelow_eq, List.mem_map]
  simp only [mem_namedBelow_iff h.wellFormed]
  constructor
  · rintro ⟨parts, ⟨hparts, hentry, hnamed⟩, rfl⟩
    exact ⟨parts, hparts, rfl, hentry, hnamed⟩
  · rintro ⟨parts, hparts, rfl, hentry, hnamed⟩
    exact ⟨parts, ⟨hparts, hentry, hnamed⟩, rfl⟩

/-- What a search finds, if it succeeds. -/
theorem eq_of_find (h : Enterable tree here p) {exclude : List Text} {found : List Path}
    (hfound : find depth tree here exclude p = .ok found) :
    found = (allBelow tree here p).filter fun q ↦
      ¬IsExcluded (p.resolve here) exclude (q.resolve here) := by
  obtain ⟨hnull, hreachable⟩ := (h.exists_find_iff exclude).mp ⟨found, hfound⟩
  exact Except.ok.inj (hfound.symm.trans (h.find_eq_ok hreachable hnull))

end Enterable

end Source

end Lilac
