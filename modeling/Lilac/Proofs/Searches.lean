import Lilac.Proofs.Trees
import Mathlib.Data.List.Lex

/-!
# Searches

A search looks into all directories below a directory and finds the entries with the name of a
source. In a tree as a file system keeps it these have a location each, so their paths come in
strict order, part by part; and a path that leads to a directory, be it by detours, stands for the
location of the directory, so what is found below the path is at a location below that.

About `find_sources`. Specification: `SPEC_FULL.md`, on configuration.
-/

namespace Lilac

/-! ## The order of paths -/

namespace Text

/-- A text comes before another: at the first difference it has the smaller character, or none. -/
def Before (a b : Text) : Prop := List.Lex (· < ·) a b

private theorem notAfter_iff {a b : Text} : notAfter a b ↔ a = b ∨ a.Before b := by
  induction a generalizing b with
  | nil =>
    cases b with
    | nil => simp [notAfter]
    | cons d t => simp [notAfter, Before]
  | cons c s ih =>
    cases b with
    | nil => simp [notAfter, Before]
    | cons d t =>
      simp only [notAfter, Before, List.cons_lex_cons_iff, Bool.or_eq_true, decide_eq_true_eq,
        Bool.and_eq_true, List.cons.injEq, ih]
      tauto

private theorem notAfter_total (a b : Text) : notAfter a b || notAfter b a := by
  induction a generalizing b with
  | nil => rfl
  | cons c s ih =>
    cases b with
    | nil => rfl
    | cons d t =>
      by_cases hlt : c < d
      · simp [notAfter, hlt]
      · by_cases hgt : d < c
        · simp [notAfter, hgt]
        · obtain rfl := Char.le_antisymm (Char.not_lt.mp hgt) (Char.not_lt.mp hlt)
          simpa [notAfter] using ih t

end Text

namespace Location

/-- A list of parts comes before another: at the first difference it has the smaller part, or
none. -/
def Before (a b : List Text) : Prop := List.Lex Text.Before a b

theorem Before.trans {a b c : List Text} (hab : Before a b) (hbc : Before b c) : Before a c :=
  List.lex_trans (List.lex_trans Char.lt_trans) hab hbc

private theorem before_irrefl (a : List Text) : ¬Before a a :=
  List.lex_irrefl (List.lex_irrefl Char.lt_irrefl) a

/-- What follows a common beginning decides the order. -/
theorem Before.append_left {a b : List Text} (h : Before a b) (d : List Text) :
    Before (d ++ a) (d ++ b) :=
  List.Lex.append_left _ h d

theorem notAfter_iff {a b : List Text} : notAfter a b ↔ a = b ∨ Before a b := by
  induction a generalizing b with
  | nil =>
    cases b with
    | nil => simp [notAfter]
    | cons d t => simp [notAfter, Before]
  | cons c s ih =>
    cases b with
    | nil => simp [notAfter, Before]
    | cons d t =>
      simp only [notAfter, Before, List.cons_lex_cons_iff, List.cons.injEq]
      split
      · next heq =>
        subst heq
        rw [ih]
        have hself : ¬Text.Before c c := List.lex_irrefl Char.lt_irrefl c
        simp [hself, Before]
      · next hne => simp [Text.notAfter_iff, hne]

private theorem notAfter_trans (a b c : List Text) (hab : notAfter a b) (hbc : notAfter b c) :
    notAfter a c := by
  rw [notAfter_iff] at hab hbc ⊢
  rcases hab with rfl | hab
  · exact hbc
  · rcases hbc with rfl | hbc
    · exact .inr hab
    · exact .inr (hab.trans hbc)

private theorem notAfter_total (a b : List Text) : notAfter a b || notAfter b a := by
  induction a generalizing b with
  | nil => rfl
  | cons c s ih =>
    cases b with
    | nil => rfl
    | cons d t =>
      by_cases h : c = d
      · subst h
        simpa [notAfter] using ih t
      · simpa [notAfter, h, Ne.symm h] using Text.notAfter_total c d

/-- Lists that are strictly ordered and have the same members are the same. -/
theorem eq_of_pairwise_before {as bs : List (List Text)} (ha : as.Pairwise Before)
    (hb : bs.Pairwise Before) (hmem : ∀ a, a ∈ as ↔ a ∈ bs) : as = bs := by
  have hne : ∀ {a b : List Text}, Before a b → a ≠ b := fun h heq ↦ before_irrefl _ (heq ▸ h)
  have hperm := (List.perm_ext_iff_of_nodup (ha.imp hne) (hb.imp hne)).mpr hmem
  refine hperm.eq_of_pairwise (fun a b _ _ hab hba ↦ ?_) ha hb
  exact absurd (hab.trans hba) (before_irrefl a)

end Location

namespace Source

open FileTree

variable {depth : Nat} {tree : FileTree} {here l : Location} {p : Path}

/-! ## What is below a directory -/

/-- What is below a location has an entry at a longer location. -/
theorem mem_below_iff_mem {parts : List Text} :
    parts ∈ below tree l ↔ parts ≠ [] ∧ ∃ e, (l ++ parts, e) ∈ tree.entries := by
  simp only [below, List.mem_filterMap, Option.ite_none_right_eq_some, Bool.and_eq_true,
    List.isPrefixOf_iff_prefix, decide_eq_true_eq, Option.some.injEq]
  constructor
  · rintro ⟨⟨m, e⟩, hmem, ⟨⟨rest, rfl⟩, hlength⟩, rfl⟩
    rw [List.drop_left]
    refine ⟨?_, e, hmem⟩
    rintro rfl
    simp at hlength
  · rintro ⟨hparts, e, hmem⟩
    refine ⟨(l ++ parts, e), hmem, ⟨List.prefix_append l parts, ?_⟩, List.drop_left⟩
    simpa using List.length_pos_iff.mpr hparts

theorem mem_below_iff (h : tree.WellFormed) {parts : List Text} :
    parts ∈ below tree l ↔ parts ≠ [] ∧ (tree.entry? (l ++ parts)).isSome := by
  rw [mem_below_iff_mem]
  refine and_congr_right fun hparts ↦ ⟨?_, ?_⟩
  · rintro ⟨e, hmem⟩
    rw [h.entry?_of_mem hmem]
    rfl
  · intro hsome
    obtain ⟨e, he⟩ := Option.isSome_iff_exists.mp hsome
    exact ⟨e, mem_of_entry_eq (by simp [hparts]) he⟩

private theorem nodup_below (h : tree.WellFormed) (l : Location) : (below tree l).Nodup := by
  have hbelow : below tree l = (tree.entries.map Prod.fst).filterMap fun m ↦
      if l.isPrefixOf m && l.length < m.length then some (m.drop l.length) else none := by
    rw [List.filterMap_map]
    rfl
  rw [hbelow]
  refine List.Nodup.filterMap (fun m m' parts hm hm' ↦ ?_) h.nodup
  simp only [Option.mem_def, Option.ite_none_right_eq_some, Bool.and_eq_true,
    List.isPrefixOf_iff_prefix, Option.some.injEq] at hm hm'
  obtain ⟨⟨⟨rest, rfl⟩, -⟩, rfl⟩ := hm
  obtain ⟨⟨⟨rest', rfl⟩, -⟩, heq⟩ := hm'
  rw [List.drop_left, List.drop_left] at heq
  rw [heq]

theorem mem_namedBelow_iff (h : tree.WellFormed) {parts : List Text} :
    parts ∈ namedBelow tree l ↔
      parts ≠ [] ∧ (tree.entry? (l ++ parts)).isSome ∧ isNamed parts := by
  rw [namedBelow, List.mem_mergeSort, List.mem_filter, mem_below_iff h, and_assoc]

/-- The sources below a directory come in strict order. -/
theorem pairwise_namedBelow (h : tree.WellFormed) (l : Location) :
    (namedBelow tree l).Pairwise Location.Before := by
  have hsorted : (namedBelow tree l).Pairwise fun a b ↦ Location.notAfter a b :=
    List.pairwise_mergeSort Location.notAfter_trans Location.notAfter_total _
  have hnodup : (namedBelow tree l).Nodup :=
    (List.mergeSort_perm _ _).nodup_iff.mpr ((nodup_below h l).filter _)
  exact (hsorted.and hnodup).imp fun ⟨hle, hne⟩ ↦ (Location.notAfter_iff.mp hle).resolve_left hne

/-! ## Directories that can be searched -/

/-- A path leads to a directory, in a tree as a file system keeps it and from a working directory
that is there. -/
structure Enterable (tree : FileTree) (here : Location) (p : Path) : Prop where
  wellFormed : tree.WellFormed
  here_eq : tree.entry? here = some .directory
  isDirectory_eq : tree.isDirectory here p = .ok true

/-- All directories below a path can be looked into: none is more than `depth` directories down, and
none has a path that is too long. -/
def Reachable (depth : Nat) (tree : FileTree) (here : Location) (p : Path) : Prop :=
  ∀ parts ∈ below tree.directories (p.resolve here),
    parts.length ≤ depth ∧ (Path.mk p.anchor (p.parts ++ parts)).text.byteLength ≤ pathLimit

instance : Decidable (Reachable depth tree here p) := inferInstanceAs (Decidable (∀ _ ∈ _, _ ∧ _))

/-- A path leads to a directory that can be searched to its depths. -/
structure Searchable (depth : Nat) (tree : FileTree) (here : Location) (p : Path) : Prop
    extends Enterable tree here p where
  reachable : Reachable depth tree here p

/-- A directory below can be looked into exactly if it is not too deep and its path is not too
long. -/
theorem obstacleAt?_eq_none_iff {parts : List Text} :
    obstacleAt? depth p parts = none ↔
      parts.length ≤ depth ∧
        (Path.mk p.anchor (p.parts ++ parts)).text.byteLength ≤ pathLimit := by
  rw [obstacleAt?]
  split
  · next hdeep => simp [Nat.not_le.mpr hdeep]
  · next hdeep => simp [Nat.le_of_not_lt hdeep]

namespace Enterable

theorem lookup_eq (h : Enterable tree here p) : tree.lookup here p = .ok (some .directory) :=
  lookup_of_isDirectory h.isDirectory_eq

theorem has_eq (h : Enterable tree here p) : tree.has here p = .ok true := by
  rw [FileTree.has, h.lookup_eq]
  rfl

theorem hasNull_eq (h : Enterable tree here p) : p.hasNull = false := (of_lookup h.lookup_eq).1

/-- The directory is where its path leads without looking. -/
theorem locate_eq (h : Enterable tree here p) : tree.locate here p = .ok (p.resolve here) := by
  obtain ⟨-, l, hlocate, -⟩ := of_lookup h.lookup_eq
  rw [hlocate, Path.resolve, follow_of_walk (of_locate hlocate).2]

theorem resolve_eq (h : Enterable tree here p) : tree.resolve here p = .ok (p.resolve here) := by
  rw [FileTree.resolve, h.hasNull_eq, h.here_eq]
  simp

/-- On the way to a directory that cannot be looked into there is a first one. -/
theorem exists_first_obstacle (h : Enterable tree here p) {parts : List Text}
    (hparts : parts ∈ below tree.directories (p.resolve here))
    (hobstacle : obstacleAt? depth p parts ≠ none) :
    ∃ first ∈ below tree.directories (p.resolve here),
      obstacleAt? depth p first ≠ none ∧ obstacleAt? depth p first.dropLast = none := by
  induction parts using List.reverseRecOn with
  | nil => exact absurd rfl (mem_below_iff_mem.mp hparts).1
  | append_singleton front last ih =>
    by_cases hfront : obstacleAt? depth p front = none
    · exact ⟨_, hparts, hobstacle, by rwa [List.dropLast_concat]⟩
    · refine ih ?_ hfront
      have hne : front ≠ [] := by
        rintro rfl
        refine hfront (obstacleAt?_eq_none_iff.mpr ⟨Nat.zero_le depth, ?_⟩)
        rw [List.append_nil]
        exact (of_locate h.locate_eq).1
      obtain ⟨-, e, hmem⟩ := mem_below_iff_mem.mp hparts
      have hentry : (tree.entry? ((p.resolve here ++ front) ++ [last])).isSome := by
        rw [List.append_assoc, h.wellFormed.entry?_of_mem (List.mem_filter.mp hmem).1]
        rfl
      have hdirectory := h.wellFormed.entry?_of_append (List.cons_ne_nil last []) hentry
      refine mem_below_iff_mem.mpr ⟨hne, .directory, List.mem_filter.mpr ⟨?_, by simp⟩⟩
      exact mem_of_entry_eq (by simp [hne]) hdirectory

/-- Nothing is in the way of a search exactly if all directories below can be looked into. -/
theorem obstacle?_eq_none_iff (h : Enterable tree here p) :
    obstacle? depth tree here p = none ↔ Reachable depth tree here p := by
  rw [obstacle?, h.locate_eq]
  simp only [List.findSome?_eq_none_iff]
  constructor
  · intro hnone parts hparts
    rw [← obstacleAt?_eq_none_iff]
    by_contra hobstacle
    obtain ⟨first, hfirst, hobstacle, hparent⟩ := h.exists_first_obstacle hparts hobstacle
    have hfound := hnone first hfirst
    rw [hparent, Option.isNone_none, if_pos rfl] at hfound
    exact hobstacle hfound
  · intro hreachable parts hparts
    rw [obstacleAt?_eq_none_iff.mpr (hreachable parts hparts), ite_self]

theorem allBelow_eq (h : Enterable tree here p) :
    allBelow tree here p =
      (namedBelow tree (p.resolve here)).map fun parts ↦ ⟨p.anchor, p.parts ++ parts⟩ := by
  rw [allBelow, h.locate_eq]

/-- What is found below a path is at a location below the directory. -/
theorem resolve_append (h : Enterable tree here p) {parts : List Text}
    (hparts : (tree.entry? (p.resolve here ++ parts)).isSome) :
    (Path.mk p.anchor (p.parts ++ parts)).resolve here = p.resolve here ++ parts := by
  have hstart : (Path.mk p.anchor (p.parts ++ parts)).start here = p.start here := rfl
  rw [Path.resolve, hstart, Path.follow_append, ← Path.resolve]
  exact Path.follow_of_up_notMem (h.wellFormed.up_notMem hparts) _

/-- A path below the directory stands for what it stands for in the directory. -/
theorem resolve_join (h : Enterable tree here p) {q : Path} (hnull : q.hasNull = false) :
    tree.resolve here (p.join q) = .ok (q.resolve (p.resolve here)) := by
  obtain ⟨anchor, parts⟩ := q
  cases anchor with
  | root =>
    rw [Path.join, FileTree.resolve, hnull]
    rfl
  | doubleRoot =>
    rw [Path.join, FileTree.resolve, hnull]
    rfl
  | here =>
    have hboth : (Path.mk p.anchor (p.parts ++ parts)).hasNull = false := by
      have hp : p.parts.any (·.contains '\x00') = false := h.hasNull_eq
      have hq : parts.any (·.contains '\x00') = false := hnull
      rw [Path.hasNull, List.any_append, hp, hq]
      rfl
    have hfollow : (Path.mk p.anchor (p.parts ++ parts)).resolve here =
        Path.follow (p.resolve here) parts := Path.follow_append _ _ _
    rw [Path.join, FileTree.resolve, hboth, h.here_eq, hfollow]
    simp [Path.resolve, Path.start]

end Enterable

end Source

end Lilac
