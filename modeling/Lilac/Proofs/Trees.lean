import Lilac.FileTree.Edit
import Lilac.Proofs.Trimming
import Lilac.Proofs.Paths
import Mathlib.Data.List.Induction
import Mathlib.Data.List.Nodup

/-!
# Well-formed file trees

In a tree as a file system keeps it, every location has at most one entry, every entry has a name,
and whatever is somewhere is in a directory. In such a tree a path downwards leads to what is there,
and what is below a directory is what the tree has at longer locations. A tree starts empty and is
edited by paths, and no edit, whether it succeeds or fails half-way, makes a tree that is not well
formed.
-/

namespace Lilac

namespace FileTree

/-- What something in a tree can be called: names are not empty, no dots that lead elsewhere, hold
neither slashes nor null characters, and are not too long. -/
structure CanName (name : Text) : Prop where
  ne_nil : name ≠ []
  ne_dot : name ≠ ['.']
  ne_up : name ≠ Path.up
  slash_notMem : '/' ∉ name
  null_notMem : '\x00' ∉ name
  short : name.byteLength ≤ nameLimit

/-- A tree as a file system keeps it. -/
structure WellFormed (tree : FileTree) : Prop where
  /-- Every location has at most one entry. -/
  nodup : (tree.entries.map Prod.fst).Nodup
  /-- The root has no entry. -/
  ne_root : ∀ x ∈ tree.entries, x.1 ≠ []
  /-- Locations are made of names. -/
  named : ∀ x ∈ tree.entries, ∀ name ∈ x.1, CanName name
  /-- Whatever is somewhere is in a directory. -/
  nested : ∀ x ∈ tree.entries, tree.entry? x.1.dropLast = some .directory

instance (name : Text) : Decidable (CanName name) :=
  decidable_of_iff (name ≠ [] ∧ name ≠ ['.'] ∧ name ≠ Path.up ∧ '/' ∉ name ∧ '\x00' ∉ name ∧
      name.byteLength ≤ nameLimit)
    ⟨fun ⟨h₁, h₂, h₃, h₄, h₅, h₆⟩ ↦ ⟨h₁, h₂, h₃, h₄, h₅, h₆⟩,
      fun ⟨h₁, h₂, h₃, h₄, h₅, h₆⟩ ↦ ⟨h₁, h₂, h₃, h₄, h₅, h₆⟩⟩

instance (tree : FileTree) : Decidable tree.WellFormed :=
  decidable_of_iff ((tree.entries.map Prod.fst).Nodup ∧ (∀ x ∈ tree.entries, x.1 ≠ []) ∧
      (∀ x ∈ tree.entries, ∀ name ∈ x.1, CanName name) ∧
      ∀ x ∈ tree.entries, tree.entry? x.1.dropLast = some .directory)
    ⟨fun ⟨h₁, h₂, h₃, h₄⟩ ↦ ⟨h₁, h₂, h₃, h₄⟩, fun ⟨h₁, h₂, h₃, h₄⟩ ↦ ⟨h₁, h₂, h₃, h₄⟩⟩

variable {tree : FileTree} {l m : Location} {e : Entry} {parts : List Text}

@[simp] theorem entry?_root (tree : FileTree) : tree.entry? [] = some .directory := rfl

/-! ## Entries -/

/-- What is at a location other than the root is what its first entry says. -/
theorem entry?_eq_lookup (tree : FileTree) (hl : l ≠ []) :
    tree.entry? l = tree.entries.lookup l :=
  if_neg hl

/-- What is at a location other than the root has an entry there. -/
theorem mem_of_entry_eq (hl : l ≠ []) (h : tree.entry? l = some e) : (l, e) ∈ tree.entries := by
  rw [entry?_eq_lookup tree hl] at h
  obtain ⟨before, after, hentries, -⟩ := List.lookup_eq_some_iff.mp h
  rw [hentries]
  exact List.mem_append_right before List.mem_cons_self

namespace WellFormed

/-- An entry is what there is at its location. -/
theorem entry?_of_mem (h : tree.WellFormed) (hmem : (l, e) ∈ tree.entries) :
    tree.entry? l = some e := by
  obtain ⟨before, after, hentries⟩ := List.append_of_mem hmem
  have hnodup := h.nodup
  rw [hentries, List.map_append, List.map_cons] at hnodup
  rw [entry?_eq_lookup tree (h.ne_root _ hmem)]
  refine List.lookup_eq_some_iff.mpr ⟨before, after, hentries, fun x hx ↦ ?_⟩
  refine bne_iff_ne.mpr fun hl ↦ ?_
  exact (List.nodup_middle.mp hnodup).notMem
    (List.mem_append_left _ (List.mem_map.mpr ⟨x, hx, hl.symm⟩))

/-- What is somewhere is at a location made of names. -/
theorem canName (h : tree.WellFormed) (hl : (tree.entry? l).isSome) {name : Text}
    (hname : name ∈ l) : CanName name := by
  obtain ⟨e, he⟩ := Option.isSome_iff_exists.mp hl
  exact h.named _ (mem_of_entry_eq (List.ne_nil_of_mem hname) he) name hname

theorem up_notMem (h : tree.WellFormed) (hl : (tree.entry? (l ++ parts)).isSome) :
    Path.up ∉ parts := fun hup ↦
  (h.canName hl (List.mem_append_right l hup)).ne_up rfl

/-- What is somewhere is in a directory. -/
theorem entry?_dropLast (h : tree.WellFormed) (hl : (tree.entry? l).isSome) (hroot : l ≠ []) :
    tree.entry? l.dropLast = some .directory := by
  obtain ⟨e, he⟩ := Option.isSome_iff_exists.mp hl
  exact h.nested _ (mem_of_entry_eq hroot he)

/-- All locations on the way to something are directories. -/
theorem entry?_of_append (h : tree.WellFormed) (hparts : parts ≠ [])
    (hl : (tree.entry? (l ++ parts)).isSome) : tree.entry? l = some .directory := by
  induction parts using List.reverseRecOn with
  | nil => exact absurd rfl hparts
  | append_singleton front last ih =>
    have hup := h.entry?_dropLast hl (by simp)
    rw [← List.append_assoc, List.dropLast_concat] at hup
    by_cases hfront : front = []
    · rwa [hfront, List.append_nil] at hup
    · exact ih hfront (hup ▸ rfl)

/-! ## Walking and searching -/

/-- A path downwards leads to what is there. -/
theorem walk_eq (h : tree.WellFormed) (hl : (tree.entry? (l ++ parts)).isSome) :
    tree.walk l parts = .ok (l ++ parts) := by
  induction parts generalizing l with
  | nil => rw [List.append_nil, walk]
  | cons part rest ih =>
    have hdirectory := h.entry?_of_append (List.cons_ne_nil part rest) hl
    have hname := h.canName hl (List.mem_append_right l List.mem_cons_self)
    have hmore : (tree.entry? ((l ++ [part]) ++ rest)).isSome := by
      rwa [List.append_assoc, List.singleton_append]
    have hnext : (tree.entry? (l ++ [part])).isSome := by
      by_cases hrest : rest = []
      · rwa [hrest, List.append_nil] at hmore
      · rw [h.entry?_of_append hrest hmore]
        rfl
    rw [walk, entryAt, hdirectory, Option.getD_some]
    dsimp only
    rw [if_neg hname.ne_up, if_neg (Option.some_ne_none _), if_neg (Nat.not_lt.mpr hname.short),
      if_pos hnext, ih hmore, List.append_assoc, List.singleton_append]

end WellFormed

/-- Where a walk ends is where its parts lead without looking. -/
theorem follow_of_walk (h : tree.walk l parts = .ok m) : Path.follow l parts = m := by
  induction parts generalizing l with
  | nil => exact Except.ok.inj h
  | cons part rest ih =>
    rw [Path.follow, List.foldl_cons, ← Path.follow]
    obtain ⟨hup, hrest⟩ | ⟨hdown, -, hrest⟩ := cases_of_walk h
    · exact if_pos hup ▸ ih hrest
    · exact if_neg hdown ▸ ih hrest

/-- There is no null character on the way to anything. -/
theorem WellFormed.null_notMem_of_walk (h : tree.WellFormed) (hwalk : tree.walk l parts = .ok m) :
    ∀ part ∈ parts, '\x00' ∉ part := by
  induction parts generalizing l with
  | nil => exact List.forall_mem_nil _
  | cons part rest ih =>
    rw [List.forall_mem_cons]
    obtain ⟨rfl, hrest⟩ | ⟨-, hnext, hrest⟩ := cases_of_walk hwalk
    · exact ⟨by decide, ih hrest⟩
    · have hname := h.canName hnext (List.mem_append_right l List.mem_cons_self)
      exact ⟨hname.null_notMem, ih hrest⟩

theorem WellFormed.hasNull_of_locate (h : tree.WellFormed) {here : Location} {p : Path}
    (hlocate : tree.locate here p = .ok l) : p.hasNull = false :=
  List.any_eq_false.mpr fun part hpart ↦ by
    simpa using h.null_notMem_of_walk (of_locate hlocate).2 part hpart

/-! ## Editing -/

/-- Leaving entries out leaves out what is at their locations. -/
theorem entry?_filter (tree : FileTree) (keep : Location → Bool) (m : Location) :
    entry? ⟨tree.entries.filter fun x ↦ keep x.1⟩ m =
      if m = [] ∨ keep m then tree.entry? m else none := by
  by_cases hm : m = []
  · simp [hm]
  · rw [entry?_eq_lookup _ hm, entry?_eq_lookup _ hm]
    simp only [hm, false_or]
    induction tree.entries with
    | nil => simp
    | cons x rest ih =>
      obtain ⟨k, v⟩ := x
      rw [List.filter_cons, List.lookup_cons]
      by_cases hk : m = k
      · subst hk
        by_cases hkeep : keep m
        · simp [hkeep]
        · simpa [hkeep] using ih
      · have hne : (m == k) = false := beq_false_of_ne hk
        rw [hne]
        split
        · rw [List.lookup_cons, hne]
          exact ih
        · exact ih

private theorem entry?_set (hl : l ≠ []) (m : Location) :
    entry? (tree.set l e) m = if m = l then some e else tree.entry? m := by
  by_cases hm : m = l
  · rw [hm, if_pos rfl, entry?_eq_lookup _ hl, set, List.lookup_cons_self]
  · have hfilter := entry?_filter tree (fun x ↦ decide (x ≠ l)) m
    have hkeep : m = [] ∨ decide (m ≠ l) = true := .inr (decide_eq_true hm)
    rw [if_pos hkeep] at hfilter
    rw [if_neg hm, ← hfilter]
    by_cases hroot : m = []
    · rw [hroot, entry?_root, entry?_root]
    · rw [entry?_eq_lookup _ hroot, entry?_eq_lookup _ hroot, set, List.lookup_cons,
        beq_false_of_ne hm]

namespace WellFormed

/-- The empty tree is well formed. -/
theorem empty : FileTree.empty.WellFormed := by decide

/-- Leaving entries out keeps a tree well formed, as long as nothing is left without the directory
it is in. -/
theorem filter (h : tree.WellFormed) (keep : Location → Bool)
    (hkeep : ∀ m, keep m → m.dropLast = [] ∨ keep m.dropLast) :
    WellFormed ⟨tree.entries.filter fun x ↦ keep x.1⟩ := by
  refine ⟨?_, ?_, ?_, ?_⟩
  · exact h.nodup.sublist (List.filter_sublist.map Prod.fst)
  · exact fun x hx ↦ h.ne_root x (List.mem_filter.mp hx).1
  · exact fun x hx ↦ h.named x (List.mem_filter.mp hx).1
  · intro x hx
    obtain ⟨hmem, hx⟩ := List.mem_filter.mp hx
    rw [entry?_filter, if_pos (hkeep x.1 hx)]
    exact h.nested x hmem

/-- Taking a location away with everything below it keeps a tree well formed. -/
theorem remove (h : tree.WellFormed) (l : Location) : (tree.remove l).WellFormed := by
  refine h.filter (fun m ↦ !l.isPrefixOf m) fun m hm ↦ .inr ?_
  simp only [Bool.not_eq_true', Bool.eq_false_iff, ne_eq, List.isPrefixOf_iff_prefix] at hm ⊢
  exact fun hfront ↦ hm (hfront.trans (List.dropLast_prefix m))

/-- Taking away everything below a location keeps a tree well formed. -/
theorem removeBelow (h : tree.WellFormed) (l : Location) : (tree.removeBelow l).WellFormed := by
  refine h.filter (fun m ↦ !(l.isPrefixOf m && l.length < m.length)) fun m hm ↦ .inr ?_
  simp only [Bool.not_eq_true', Bool.eq_false_iff, ne_eq, Bool.and_eq_true, decide_eq_true_eq,
    List.isPrefixOf_iff_prefix, not_and] at hm ⊢
  intro hfront
  have hlength := hm (hfront.trans (List.dropLast_prefix m))
  rw [List.length_dropLast]
  omega

/-- Setting an entry in a directory keeps a tree well formed, as long as no directory is replaced by
a file. -/
theorem set (h : tree.WellFormed) {name : Text} (hl : tree.entry? l = some .directory)
    (hname : CanName name) (hold : tree.entry? (l ++ [name]) = some .directory → e = .directory) :
    (tree.set (l ++ [name]) e).WellFormed := by
  have hne : l ++ [name] ≠ [] := by simp
  refine ⟨?_, ?_, ?_, ?_⟩
  · have hkept := h.nodup.sublist
      (List.filter_sublist (p := fun x : Location × Entry ↦ decide (x.1 ≠ l ++ [name])).map Prod.fst)
    refine List.nodup_cons.mpr ⟨fun hmem ↦ ?_, hkept⟩
    obtain ⟨x, hx, heq⟩ := List.mem_map.mp hmem
    exact of_decide_eq_true (List.mem_filter.mp hx).2 heq
  · exact List.forall_mem_cons.mpr ⟨hne, fun x hx ↦ h.ne_root x (List.mem_filter.mp hx).1⟩
  · refine List.forall_mem_cons.mpr ⟨?_, fun x hx ↦ h.named x (List.mem_filter.mp hx).1⟩
    intro part hpart
    rcases List.mem_append.mp hpart with hpart | hpart
    · exact h.canName (hl ▸ rfl) hpart
    · exact List.mem_singleton.mp hpart ▸ hname
  · refine List.forall_mem_cons.mpr ⟨?_, fun x hx ↦ ?_⟩
    · have hself : l ≠ l ++ [name] := by simp
      rw [List.dropLast_concat, entry?_set hne, if_neg hself, hl]
    · have hparent := h.nested x (List.mem_filter.mp hx).1
      rw [entry?_set hne]
      split
      · next heq => rw [hold (heq ▸ hparent)]
      · exact hparent

end WellFormed

/-- What is to be made gets a name of its own in a directory that is there. -/
private theorem of_target {here : Location} {p : Path} {unnamed : FileCause}
    (h : tree.target here p unnamed = .ok l) :
    ∃ m name, l = m ++ [name] ∧ tree.entry? m = some .directory ∧ name ∈ p.parts ∧
      name ≠ Path.up ∧ name.byteLength ≤ nameLimit := by
  rw [target] at h
  split at h
  · cases h
  · cases hlocate : tree.locate here p.parent with
    | error cause =>
      rw [hlocate] at h
      cases h
    | ok m =>
      rw [hlocate] at h
      dsimp only [bind, Except.bind] at h
      split at h
      · cases h
      · cases h
      · next name hlast hentry =>
        split at h
        · cases h
        · next hup =>
          split at h
          · cases h
          · next hsome =>
            split at h
            · cases h
            · next hshort =>
              refine ⟨m, name, (Except.ok.inj h).symm, ?_, List.mem_of_getLast? hlast, hup,
                Nat.le_of_not_lt hshort⟩
              obtain ⟨e, he⟩ := Option.ne_none_iff_exists'.mp hsome
              rw [entryAt, he, Option.getD_some] at hentry
              rw [he, hentry]

end FileTree

/-- A path as it can be written: no part is empty or a single dot, or has a slash in it. -/
def Path.Written (p : Path) : Prop :=
  ∀ part ∈ p.parts, part ≠ [] ∧ part ≠ ['.'] ∧ '/' ∉ part

theorem Path.parts_ofText (t : Text) : (Path.ofText t).parts = partsOf t := by
  unfold ofText
  split <;> rfl

private theorem Path.written_ofText (t : Text) : (Path.ofText t).Written := by
  intro part hpart
  rw [parts_ofText, partsOf] at hpart
  obtain ⟨hpiece, hkept⟩ := List.mem_filter.mp hpart
  have hne := of_decide_eq_true hkept
  exact ⟨hne.1, hne.2, Text.not_mem_of_mem_pieces hpiece⟩

namespace FileTree

variable {tree : FileTree} {here : Location} {p : Path}

namespace WellFormed

/-- What has a name in a path without null characters can be put into a tree. -/
theorem set_target (h : tree.WellFormed) (hp : p.Written) (hnull : p.hasNull = false)
    {unnamed : FileCause} {l : Location} {e : Entry} (htarget : tree.target here p unnamed = .ok l)
    (hold : tree.entry? l = some .directory → e = .directory) : (tree.set l e).WellFormed := by
  obtain ⟨m, name, rfl, hm, hname, hup, hshort⟩ := of_target htarget
  obtain ⟨hnil, hdot, hslash⟩ := hp name hname
  have hnotNull : '\x00' ∉ name := by
    have hall := List.any_eq_false.mp hnull name hname
    simpa using hall
  exact h.set hm ⟨hnil, hdot, hup, hslash, hnotNull, hshort⟩ hold

theorem makeHere (h : tree.WellFormed) (hp : p.Written) (hnull : p.hasNull = false)
    {made : FileTree} (hmade : tree.makeHere here p = .ok made) : made.WellFormed := by
  rw [FileTree.makeHere] at hmade
  cases htarget : tree.target here p .alreadyThere with
  | error cause =>
    rw [htarget] at hmade
    cases hmade
  | ok l =>
    rw [htarget] at hmade
    change (if (tree.entry? l).isSome then Except.error FileCause.alreadyThere
      else .ok (tree.set l .directory)) = .ok made at hmade
    split at hmade
    · cases hmade
    · cases hmade
      exact h.set_target hp hnull htarget fun _ ↦ rfl

theorem makeIfAbsent (h : tree.WellFormed) (hp : p.Written) (hnull : p.hasNull = false) :
    (tree.makeIfAbsent here p).tree.WellFormed := by
  unfold FileTree.makeIfAbsent
  split
  · next made _ hmade => exact h.makeHere hp hnull hmade
  · exact h
  · exact h

theorem makeAlong (h : tree.WellFormed) (anchor : Anchor) (parts : List Text)
    (hp : (Path.mk anchor parts.reverse).Written)
    (hnull : (Path.mk anchor parts.reverse).hasNull = false) :
    (tree.makeAlong here anchor parts).tree.WellFormed := by
  induction parts with
  | nil => exact h.makeIfAbsent hp hnull
  | cons name outer ih =>
    have houter : (Path.mk anchor outer.reverse).Written := fun part hpart ↦
      hp part (by simpa using .inl (List.mem_reverse.mp hpart))
    have hnotNull : (Path.mk anchor outer.reverse).hasNull = false := by
      refine List.any_eq_false.mpr fun part hpart ↦ List.any_eq_false.mp hnull part ?_
      simpa using .inl (List.mem_reverse.mp hpart)
    have hmade := ih houter hnotNull
    rw [FileTree.makeAlong]
    split
    · split
      · next heq =>
        rw [heq] at hmade
        exact hmade.makeIfAbsent hp hnull
      · exact hmade
    · exact h.makeIfAbsent hp hnull

theorem makeDirectoryAt (h : tree.WellFormed) (here : Location) (hp : p.Written) :
    (tree.makeDirectoryAt here p).tree.WellFormed := by
  unfold FileTree.makeDirectoryAt
  split
  · exact h
  · next hnull =>
    refine h.makeAlong p.anchor p.parts.reverse ?_ ?_
    · rwa [List.reverse_reverse]
    · rw [List.reverse_reverse]
      exact eq_false_of_ne_true hnull

theorem putFile (h : tree.WellFormed) (hp : p.Written) (bytes : List UInt8) :
    (tree.putFile here p bytes).tree.WellFormed := by
  unfold FileTree.putFile
  split
  · exact h
  · next hnull =>
    split
    · exact h
    · next l htarget =>
      split
      · exact h
      · next hold =>
        exact h.set_target hp (eq_false_of_ne_true hnull) htarget fun hdir ↦ absurd hdir hold

theorem writeFileAt (h : tree.WellFormed) (here : Location) (hp : p.Written) (bytes : List UInt8) :
    (tree.writeFileAt here p bytes).tree.WellFormed := by
  have hparent : p.parent.Written := fun part hpart ↦ hp part (List.dropLast_subset p.parts hpart)
  have hmade := h.makeDirectoryAt here hparent
  unfold FileTree.writeFileAt
  split
  · next heq =>
    rw [heq] at hmade
    exact hmade.putFile hp bytes
  · exact hmade

theorem removeAt (h : tree.WellFormed) (here : Location) (p : Path) :
    (tree.removeAt here p).tree.WellFormed := by
  unfold FileTree.removeAt
  split
  · exact h
  · split
    · exact h
    · next l _ =>
      split
      · unfold FileTree.removeDirectory
        dsimp only
        split
        · exact h.removeBelow l
        · exact (h.removeBelow l).remove l
      · exact h.remove l

end WellFormed

/-- A tree that was made from the empty one by edits, each at a path that was read, in whatever
working directory, whether it succeeded or not. -/
inductive Made : FileTree → Prop
  | empty : Made .empty
  | makeDirectory {tree : FileTree} (here : Location) (path : Text) :
      Made tree → Made (tree.makeDirectoryAt here (.ofText path)).tree
  | writeFile {tree : FileTree} (here : Location) (path : Text) (bytes : List UInt8) :
      Made tree → Made (tree.writeFileAt here (.ofText path) bytes).tree
  | remove {tree : FileTree} (here : Location) (path : Text) :
      Made tree → Made (tree.removeAt here (.ofText path)).tree

/-- Edits only make trees that are well formed. -/
theorem Made.wellFormed (h : tree.Made) : tree.WellFormed := by
  induction h with
  | empty => exact .empty
  | makeDirectory here path _ ih => exact ih.makeDirectoryAt here (Path.written_ofText path)
  | writeFile here path bytes _ ih => exact ih.writeFileAt here (Path.written_ofText path) bytes
  | remove here path _ ih => exact ih.removeAt here (.ofText path)

end FileTree

end Lilac
