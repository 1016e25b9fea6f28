import Lilac.Source
import Mathlib.Data.List.Basic

/-!
# Absolute and relative paths

Something below a directory has two paths: an absolute one, and the one that leads there from the
directory. Both are followed to the same location, so whoever works in the directory finds the same
sources, exclusions and texts there as whoever names the directory. The two paths differ in length,
however, and the greatest length of a path is all that can tell them apart.
-/

namespace Lilac

namespace Text

private theorem foldl_utf8Size (n : Nat) (t : Text) :
    t.foldl (fun n c ↦ n + c.utf8Size) n = n + t.byteLength := by
  induction t generalizing n with
  | nil => rfl
  | cons c t ih => rw [byteLength, List.foldl_cons, List.foldl_cons, ih, ih, Nat.zero_add,
      Nat.add_assoc]

/-- The bytes of two texts one after the other are those of each. -/
@[simp] theorem byteLength_append (s t : Text) :
    (s ++ t).byteLength = s.byteLength + t.byteLength := by
  rw [byteLength, List.foldl_append, foldl_utf8Size, foldl_utf8Size, Nat.zero_add]

private theorem byteLength_le_of_infix {s t : Text} (h : s <:+: t) :
    s.byteLength ≤ t.byteLength := by
  obtain ⟨before, after, rfl⟩ := h
  rw [byteLength_append, byteLength_append]
  omega

private theorem join_prefix_join_append (separator : Text) (as bs : List Text) :
    join separator as <+: join separator (as ++ bs) := by
  induction as with
  | nil => exact List.nil_prefix
  | cons a as ih =>
    cases as with
    | nil =>
      cases bs with
      | nil => exact List.prefix_rfl
      | cons b bs =>
        change a <+: a ++ separator ++ join separator (b :: bs)
        rw [List.append_assoc]
        exact List.prefix_append a _
    | cons a' as => exact (List.prefix_append_right_inj (a ++ separator)).mpr ih

private theorem join_suffix_join_append (separator : Text) (as bs : List Text) :
    join separator bs <:+ join separator (as ++ bs) := by
  induction as with
  | nil => exact List.suffix_rfl
  | cons a as ih =>
    refine ih.trans ?_
    rw [List.cons_append]
    cases as ++ bs with
    | nil => exact List.nil_suffix
    | cons b rest => exact List.suffix_append _ _

end Text

namespace Path

/-- The absolute path of something takes no fewer bytes than the path from a directory above. -/
theorem byteLength_text_le (l : Location) (parts : List Text) :
    (Path.mk .here parts).text.byteLength ≤ (ofLocation (l ++ parts)).text.byteLength := by
  have habsolute : (ofLocation (l ++ parts)).text = ['/'] ++ Text.join ['/'] (l ++ parts) := rfl
  rw [habsolute, Text.byteLength_append]
  by_cases hparts : parts = []
  · subst hparts
    exact Nat.le_add_right 1 _
  · have hrelative : (Path.mk .here parts).text = Text.join ['/'] parts := by simp [text, hparts]
    rw [hrelative]
    exact Nat.le_add_left_of_le
      (Text.byteLength_le_of_infix (Text.join_suffix_join_append ['/'] l parts).isInfix)

/-- A path is not too long if it goes on to a path that is not. -/
private theorem short_of_append {anchor : Anchor} {as : List Text} (bs : List Text)
    (h : (Path.mk anchor (as ++ bs)).text.byteLength ≤ FileTree.pathLimit) :
    (Path.mk anchor as).text.byteLength ≤ FileTree.pathLimit := by
  have hparts := Text.byteLength_le_of_infix (Text.join_prefix_join_append ['/'] as bs).isInfix
  cases anchor with
  | here =>
    by_cases has : as = []
    · subst has
      exact Nat.le_of_lt_succ (by decide)
    · simp only [text, has, List.append_eq_nil_iff, false_and, if_false] at h ⊢
      omega
  | root =>
    change Text.byteLength (['/'] ++ Text.join ['/'] (as ++ bs)) ≤ _ at h
    change Text.byteLength (['/'] ++ Text.join ['/'] as) ≤ _
    rw [Text.byteLength_append] at h ⊢
    omega
  | doubleRoot =>
    change Text.byteLength (['/', '/'] ++ Text.join ['/'] (as ++ bs)) ≤ _ at h
    change Text.byteLength (['/', '/'] ++ Text.join ['/'] as) ≤ _
    rw [Text.byteLength_append] at h ⊢
    omega

theorem follow_append (l : Location) (a b : List Text) :
    follow l (a ++ b) = follow (follow l a) b := List.foldl_append

/-- Parts that never lead upwards are followed downwards. -/
theorem follow_of_up_notMem {parts : List Text} (h : up ∉ parts) (l : Location) :
    follow l parts = l ++ parts := by
  induction parts generalizing l with
  | nil => exact (List.append_nil l).symm
  | cons part rest ih =>
    have hpart : part ≠ up := (List.ne_of_not_mem_cons h).symm
    rw [follow, List.foldl_cons, if_neg hpart, ← follow, ih (List.not_mem_of_not_mem_cons h),
      List.append_assoc, List.singleton_append]

end Path

namespace FileTree

variable {tree : FileTree} {here l : Location}

/-! ## Walking -/

theorem walk_append (l : Location) (a b : List Text) :
    tree.walk l (a ++ b) = (tree.walk l a).bind fun m ↦ tree.walk m b := by
  induction a generalizing l with
  | nil => rfl
  | cons part rest ih =>
    rw [List.cons_append, walk, walk]
    split
    · rfl
    · split
      · exact ih _
      · split
        · rfl
        · split
          · rfl
          · split
            · exact ih _
            · rfl

/-- A walk that gets to its end goes up first, or down to something that is there. -/
theorem cases_of_walk {part : Text} {rest : List Text} {m : Location}
    (h : tree.walk l (part :: rest) = .ok m) :
    (part = Path.up ∧ tree.walk l.dropLast rest = .ok m) ∨
      (part ≠ Path.up ∧ (tree.entry? (l ++ [part])).isSome ∧
        tree.walk (l ++ [part]) rest = .ok m) := by
  rw [walk] at h
  split at h
  · cases h
  · split at h
    · next hup => exact .inl ⟨hup, h⟩
    · next hdown =>
      split at h
      · cases h
      · split at h
        · cases h
        · split at h
          · next hnext => exact .inr ⟨hdown, hnext, h⟩
          · cases h

private theorem eq_and_isSome_of_walk {parts : List Text} {m : Location} (hup : Path.up ∉ parts)
    (hl : (tree.entry? l).isSome) (h : tree.walk l parts = .ok m) :
    m = l ++ parts ∧ (tree.entry? m).isSome := by
  induction parts generalizing l with
  | nil =>
    cases h
    exact ⟨(List.append_nil m).symm, hl⟩
  | cons part rest ih =>
    obtain ⟨hpart, -⟩ | ⟨-, hnext, hrest⟩ := cases_of_walk h
    · exact absurd hpart (List.ne_of_not_mem_cons hup).symm
    · rw [← List.singleton_append, ← List.append_assoc]
      exact ih (List.not_mem_of_not_mem_cons hup) hnext hrest

/-- A path that leads to a location is not too long, and can be walked. -/
theorem of_locate {p : Path} (h : tree.locate here p = .ok l) :
    p.text.byteLength ≤ pathLimit ∧ tree.walk (p.start here) p.parts = .ok l := by
  rw [locate] at h
  split at h
  · cases h
  · next hshort => exact ⟨Nat.le_of_not_lt hshort, h⟩

/-- What a path leads to is at a location to which the path can be followed. -/
theorem of_lookup {p : Path} {e : Entry} (h : tree.lookup here p = .ok (some e)) :
    p.hasNull = false ∧ ∃ l, tree.locate here p = .ok l ∧ tree.entryAt l = e := by
  rw [lookup] at h
  by_cases hnull : p.hasNull
  · rw [if_pos hnull] at h
    cases h
  · rw [if_neg hnull] at h
    refine ⟨eq_false_of_ne_true hnull, ?_⟩
    cases hlocate : tree.locate here p with
    | error cause =>
      rw [hlocate] at h
      cases cause <;> cases h
    | ok l =>
      rw [hlocate] at h
      exact ⟨l, rfl, Option.some.inj (Except.ok.inj h)⟩

/-! ## Directories -/

/-- A directory is what there is at the end of its path. -/
theorem lookup_of_isDirectory {p : Path} (h : tree.isDirectory here p = .ok true) :
    tree.lookup here p = .ok (some .directory) := by
  rw [isDirectory] at h
  cases hlookup : tree.lookup here p with
  | error fault =>
    rw [hlookup] at h
    cases h
  | ok e =>
    rw [hlookup] at h
    exact congrArg _ (of_decide_eq_true (Except.ok.inj h))

/-- A location is a directory of the tree, and its absolute path leads to it. -/
structure HasDirectory (tree : FileTree) (l : Location) : Prop where
  hasNull_eq : (Path.ofLocation l).hasNull = false
  short : (Path.ofLocation l).text.byteLength ≤ pathLimit
  walk_eq : tree.walk [] l = .ok l
  follow_eq : Path.follow [] l = l
  entry_eq : tree.entry? l = some .directory

theorem hasDirectory_of_isDirectory (hup : Path.up ∉ l)
    (h : tree.isDirectory here (.ofLocation l) = .ok true) : tree.HasDirectory l := by
  obtain ⟨hnull, m, hlocate, hentry⟩ := of_lookup (lookup_of_isDirectory h)
  obtain ⟨hshort, hwalk⟩ := of_locate hlocate
  obtain ⟨rfl, hsome⟩ := eq_and_isSome_of_walk hup (l := []) rfl hwalk
  obtain ⟨e, he⟩ := Option.isSome_iff_exists.mp hsome
  rw [entryAt, he, Option.getD_some] at hentry
  exact ⟨hnull, hshort, hwalk, Path.follow_of_up_notMem hup [], hentry ▸ he⟩

namespace HasDirectory

variable {parts : List Text}

theorem entryAt_eq (h : tree.HasDirectory l) : tree.entryAt l = .directory := by
  rw [entryAt, h.entry_eq, Option.getD_some]

theorem follow_append (h : tree.HasDirectory l) (parts : List Text) :
    Path.follow [] (l ++ parts) = Path.follow l parts := by
  rw [Path.follow_append, h.follow_eq]

/-- The absolute path of a directory leads to it from everywhere. -/
theorem locate_ofLocation (h : tree.HasDirectory l) (here : Location) :
    tree.locate here (.ofLocation l) = .ok l := by
  rw [locate, if_neg (Nat.not_lt.mpr h.short)]
  exact h.walk_eq

private theorem lookup_ofLocation (h : tree.HasDirectory l) (here : Location) :
    tree.lookup here (.ofLocation l) = .ok (some .directory) := by
  rw [lookup, h.hasNull_eq, h.locate_ofLocation, ← h.entryAt_eq]
  rfl

/-- A dot leads to the directory from itself. -/
theorem lookup_here (h : tree.HasDirectory l) :
    tree.lookup l ⟨.here, []⟩ = .ok (some .directory) := by
  rw [← h.entryAt_eq]
  rfl

private theorem locate_append (h : tree.HasDirectory l) (here : Location)
    (hshort : (Path.ofLocation (l ++ parts)).text.byteLength ≤ pathLimit) :
    tree.locate here (.ofLocation (l ++ parts)) = tree.locate l ⟨.here, parts⟩ := by
  have hrelative := Nat.le_trans (Path.byteLength_text_le l parts) hshort
  rw [locate, locate, if_neg (Nat.not_lt.mpr hshort), if_neg (Nat.not_lt.mpr hrelative)]
  have happend : tree.walk [] (l ++ parts) = tree.walk l parts := by
    rw [walk_append, h.walk_eq]
    rfl
  exact happend

/-- So the same text is read at both paths, or none at either. -/
theorem readText_append_eq_ok_iff (h : tree.HasDirectory l) (here : Location)
    (hshort : (Path.ofLocation (l ++ parts)).text.byteLength ≤ pathLimit) (t : Text) :
    tree.readText here (.ofLocation (l ++ parts)) = .ok t ↔
      tree.readText l ⟨.here, parts⟩ = .ok t := by
  rw [readText, readText, readBytes, readBytes, h.locate_append here hshort]
  cases tree.locate l ⟨.here, parts⟩ with
  | error cause => simp
  | ok m =>
    dsimp only
    cases tree.entryAt m with
    | directory => simp
    | file bytes => rfl

/-- A path below a directory stands for the same location, whether the directory is named or worked
in. -/
theorem resolve_join (h : tree.HasDirectory l) (here : Location) (q : Path) :
    tree.resolve here ((Path.ofLocation l).join q) =
      tree.resolve l ((Path.mk .here []).join q) := by
  obtain ⟨anchor, parts⟩ := q
  cases anchor with
  | root => rfl
  | doubleRoot => rfl
  | here =>
    have hnull : (Path.mk .root (l ++ parts)).hasNull = (Path.mk .here parts).hasNull := by
      have hl : l.any (·.contains '\x00') = false := h.hasNull_eq
      rw [Path.hasNull, List.any_append, hl, Bool.false_or, Path.hasNull]
    have hfollow : (Path.mk .root (l ++ parts)).resolve here = (Path.mk .here parts).resolve l :=
      h.follow_append parts
    change tree.resolve here ⟨.root, l ++ parts⟩ = tree.resolve l ⟨.here, parts⟩
    rw [resolve, resolve, hnull, hfollow, h.entry_eq]
    simp

end HasDirectory

end FileTree

namespace Source

open FileTree

variable {depth : Nat} {tree : FileTree} {l : Location}

/-- The sources below a directory that is worked in. -/
theorem allBelow_here (tree : FileTree) (l : Location) :
    allBelow tree l ⟨.here, []⟩ = (namedBelow tree l).map (Path.mk .here) := rfl

private theorem allBelow_ofLocation (h : tree.HasDirectory l) (here : Location) :
    allBelow tree here (.ofLocation l) =
      (allBelow tree l ⟨.here, []⟩).map (Path.ofLocation l).join := by
  rw [allBelow, h.locate_ofLocation, allBelow_here, List.map_map]
  rfl

private theorem keptBelow_ofLocation (h : tree.HasDirectory l) (here : Location)
    (excluded : List Location) :
    keptBelow tree here (.ofLocation l) excluded =
      (keptBelow tree l ⟨.here, []⟩ excluded).map (List.map (Path.ofLocation l).join) := by
  have hroot : tree.resolve here (.ofLocation l) = tree.resolve l ⟨.here, []⟩ := by
    have hjoin := h.resolve_join here ⟨.here, []⟩
    rwa [Path.join, Path.ofLocation, List.append_nil] at hjoin
  have hplace : ∀ q ∈ allBelow tree l ⟨.here, []⟩,
      ((Path.ofLocation l).join q).resolve here = q.resolve l := by
    rw [allBelow_here]
    intro q hq
    obtain ⟨parts, -, rfl⟩ := List.mem_map.mp hq
    exact h.follow_append parts
  have hkept : ((allBelow tree l ⟨.here, []⟩).map (Path.ofLocation l).join).filter
        (fun q ↦ !isBelowAny excluded (q.resolve here)) =
      ((allBelow tree l ⟨.here, []⟩).filter fun q ↦
        !isBelowAny excluded (q.resolve l)).map (Path.ofLocation l).join := by
    rw [List.filter_map]
    refine congrArg _ (List.filter_congr fun q hq ↦ ?_)
    rw [Function.comp_apply, hplace q hq]
  rw [keptBelow, keptBelow, allBelow_ofLocation h, hroot]
  simp only [List.map_eq_nil_iff, hkept]
  split
  · rfl
  · cases tree.resolve l ⟨.here, []⟩ with
    | error cause => rfl
    | ok m => rfl

/-- A directory is searched for the sources below it that are not excluded. -/
theorem find_of_lookup {here : Location} {p : Path} (exclude : List Text)
    (h : tree.lookup here p = .ok (some .directory)) :
    find depth tree here exclude p =
      (excludedBelow tree here p exclude).bind (search depth tree here p) := by
  rw [find, isFile, h]
  rfl

private theorem obstacleAt?_of_short {p : Path} {parts : List Text}
    (hshort : (Path.mk p.anchor (p.parts ++ parts)).text.byteLength ≤ pathLimit) :
    obstacleAt? depth p parts = if depth < parts.length then some .tooDeep else none := by
  rw [obstacleAt?]
  simp only [Nat.not_lt.mpr hshort, if_false]

/-- If no directory has a path that is too long, only one that is too deep is in the way. -/
private theorem obstacle?_of_short {here : Location} {p : Path}
    (hlocate : tree.locate here p = .ok l)
    (hshort : ∀ parts ∈ below tree.directories l,
      (Path.mk p.anchor (p.parts ++ parts)).text.byteLength ≤ pathLimit) :
    obstacle? depth tree here p = (below tree.directories l).findSome? fun parts ↦
      if parts.length = depth + 1 then some .tooDeep else none := by
  rw [obstacle?, hlocate]
  dsimp only
  rw [← List.head?_filterMap, ← List.head?_filterMap]
  refine congrArg List.head? (List.filterMap_congr fun parts hparts ↦ ?_)
  have hparent : (Path.mk p.anchor (p.parts ++ parts.dropLast)).text.byteLength ≤ pathLimit := by
    obtain ⟨last, hlast⟩ := List.dropLast_prefix parts
    refine Path.short_of_append last ?_
    rw [List.append_assoc, hlast]
    exact hshort parts hparts
  rw [obstacleAt?_of_short (hshort parts hparts), obstacleAt?_of_short hparent,
    List.length_dropLast]
  by_cases hdeep : depth < parts.length - 1
  · have hne : parts.length ≠ depth + 1 := by omega
    simp [hdeep, hne]
  · have hiff : depth < parts.length ↔ parts.length = depth + 1 := by omega
    simp [hdeep, hiff]

/-- Without exclusions, a directory stands for all sources below it. -/
theorem find_nil {here : Location} {p : Path} (h : tree.lookup here p = .ok (some .directory))
    (hclear : obstacle? depth tree here p = none) :
    find depth tree here [] p = .ok (allBelow tree here p) := by
  rw [find_of_lookup [] h]
  change search depth tree here p [] = .ok (allBelow tree here p)
  rw [search, hclear]
  exact if_pos (.inr rfl)

/-- Whether a directory is named or worked in, it stands for the same sources, unless something is
in the way of only one search. -/
theorem find_ofLocation (h : tree.HasDirectory l) (here : Location) (exclude : List Text)
    (hsame : obstacle? depth tree here (.ofLocation l) = obstacle? depth tree l ⟨.here, []⟩) :
    find depth tree here exclude (.ofLocation l) =
      (find depth tree l exclude ⟨.here, []⟩).map (List.map (Path.ofLocation l).join) := by
  have hexcluded : excludedBelow tree here (.ofLocation l) exclude =
      excludedBelow tree l ⟨.here, []⟩ exclude := by
    unfold excludedBelow
    congr 1
    funext name
    exact h.resolve_join here (.ofText name)
  rw [find_of_lookup exclude (h.lookup_ofLocation here), find_of_lookup exclude h.lookup_here,
    hexcluded]
  cases excludedBelow tree l ⟨.here, []⟩ exclude with
  | error cause => rfl
  | ok excluded =>
    change search depth tree here (.ofLocation l) excluded =
      (search depth tree l ⟨.here, []⟩ excluded).map (List.map (Path.ofLocation l).join)
    rw [search, search, hsame]
    cases obstacle? depth tree l ⟨.here, []⟩ with
    | some cause => rfl
    | none => exact keptBelow_ofLocation h here excluded

/-- If no directory below has an absolute path that is too long, the same is in the way of naming
the directory and of working in it. -/
theorem obstacle?_ofLocation (h : tree.HasDirectory l) (here : Location)
    (hshort : ∀ parts ∈ below tree.directories l,
      (Path.ofLocation (l ++ parts)).text.byteLength ≤ pathLimit) :
    obstacle? depth tree here (.ofLocation l) = obstacle? depth tree l ⟨.here, []⟩ := by
  have hrelative : ∀ parts ∈ below tree.directories l,
      (Path.mk .here ([] ++ parts)).text.byteLength ≤ pathLimit := fun parts hparts ↦
    Nat.le_trans (Path.byteLength_text_le l parts) (hshort parts hparts)
  rw [obstacle?_of_short (h.locate_ofLocation here) hshort,
    obstacle?_of_short (l := l) rfl hrelative]

private theorem mem_allBelow_of_mem_keptBelow {here : Location} {p q : Path}
    {excluded : List Location} {kept : List Path}
    (h : keptBelow tree here p excluded = .ok kept) (hq : q ∈ kept) :
    q ∈ allBelow tree here p := by
  rw [keptBelow] at h
  split at h
  · exact Except.ok.inj h ▸ hq
  · cases hroot : tree.resolve here p with
    | error cause =>
      rw [hroot] at h
      cases h
    | ok m =>
      rw [hroot] at h
      cases h
      exact (List.mem_filter.mp hq).1

private theorem keptBelow_of_search {here : Location} {p : Path} {excluded : List Location}
    {found : List Path} (h : search depth tree here p excluded = .ok found) :
    keptBelow tree here p excluded = .ok found := by
  rw [search] at h
  split at h
  · cases h
  · exact h

/-- The sources of a directory are below it. -/
theorem exists_parts_of_mem_find (h : tree.HasDirectory l) {exclude : List Text}
    {found : List Path} (hfind : find depth tree l exclude ⟨.here, []⟩ = .ok found) {p : Path}
    (hp : p ∈ found) : ∃ parts ∈ below tree l, isNamed parts ∧ p = ⟨.here, parts⟩ := by
  rw [find_of_lookup exclude h.lookup_here] at hfind
  cases hexcluded : excludedBelow tree l ⟨.here, []⟩ exclude with
  | error cause =>
    rw [hexcluded] at hfind
    cases hfind
  | ok excluded =>
    rw [hexcluded] at hfind
    have hall := mem_allBelow_of_mem_keptBelow (keptBelow_of_search hfind) hp
    rw [allBelow_here] at hall
    obtain ⟨parts, hparts, rfl⟩ := List.mem_map.mp hall
    obtain ⟨hbelow, hnamed⟩ := List.mem_filter.mp (List.mem_mergeSort.mp hparts)
    exact ⟨parts, hbelow, hnamed, rfl⟩

end Source

end Lilac
