import Lilac.Proofs.Concealment
import Lilac.Proofs.Spellings
import Mathlib.Order.Bounds.Basic

/-!
# Where string literals begin and end

Three readers know where string literals stand: the one that lists the visible characters, the one
that looks for a comment, and the one that reads a whole text as a string. They agree. A comment
starts at the first two slashes of which the first is visible, and a text is a string literal
exactly when it starts with a quote and shows its two ends and nothing between them.

About `_unquoted`, `_strip_comment` and `parse_expression`. Specification: `SPEC_FULL.md`, section
4.1.
-/

namespace Lilac

namespace Text

/-! ## Comments start at visible slashes -/

/-- A visible character stands where the reader comes to it in a mode that shows it. -/
theorem mem_visibleFrom_iff {mode : Mode} {position i : Nat} {c : Char} {t : Text} :
    (i, c) ∈ visibleFrom mode position t ↔
      ∃ a b : Text, t = a ++ c :: b ∧ i = position + a.length ∧ (mode.after a).shows c = true := by
  induction t generalizing mode position with
  | nil => simp [visibleFrom]
  | cons d t ih =>
    have hhead : (i, c) ∈ visibleFrom mode position (d :: t) ↔
        (mode.shows d = true ∧ i = position ∧ c = d) ∨
          (i, c) ∈ visibleFrom (mode.next d) (position + 1) t := by
      simp only [visibleFrom]
      split
      · next hshows => simp [hshows]
      · next hshows => simp [hshows]
    rw [hhead, ih]
    constructor
    · rintro (⟨hshows, rfl, rfl⟩ | ⟨a, b, rfl, rfl, hshows⟩)
      · exact ⟨[], t, rfl, rfl, hshows⟩
      · refine ⟨d :: a, b, rfl, ?_, hshows⟩
        rw [List.length_cons]
        omega
    · rintro ⟨a, b, ht, rfl, hshows⟩
      cases a with
      | nil =>
        obtain ⟨rfl, rfl⟩ := List.cons.inj ht
        exact .inl ⟨hshows, rfl, rfl⟩
      | cons e a =>
        obtain ⟨rfl, rfl⟩ := List.cons.inj ht
        refine .inr ⟨a, b, rfl, ?_, hshows⟩
        rw [List.length_cons]
        omega

private theorem lt_of_mem_visibleFrom {mode : Mode} {position : Nat} {t : Text} {x : Nat × Char}
    (h : x ∈ visibleFrom mode position t) : x.1 < position + t.length := by
  obtain ⟨i, c⟩ := x
  obtain ⟨a, b, rfl, rfl, -⟩ := mem_visibleFrom_iff.mp h
  rw [List.length_append, List.length_cons]
  omega

/-- A comment starts at a position: two slashes stand there, and the first one is visible. -/
def CommentAt (t : Text) (i : Nat) : Prop :=
  i ∈ t.visible.map (·.1) ∧ t[i]? = some '/' ∧ t[i + 1]? = some '/'

instance (t : Text) : DecidablePred (CommentAt t) := fun i ↦
  inferInstanceAs (Decidable (i ∈ t.visible.map (·.1) ∧ t[i]? = some '/' ∧ t[i + 1]? = some '/'))

/-- A comment starts behind a text that ends outside string literals. -/
theorem commentAt_iff {t : Text} {i : Nat} :
    CommentAt t i ↔ ∃ a b : Text, t = a ++ '/' :: '/' :: b ∧ a.length = i ∧
      Mode.outside.after a = .outside := by
  constructor
  · rintro ⟨hvisible, hslash, hnext⟩
    obtain ⟨⟨_, c⟩, hmem, rfl⟩ := List.mem_map.mp hvisible
    obtain ⟨a, b, rfl, hi, hshows⟩ := mem_visibleFrom_iff.mp hmem
    rw [Nat.zero_add] at hi
    subst hi
    obtain rfl : c = '/' := by simpa using hslash
    have hb : b.head? = some '/' := by
      rw [List.getElem?_append_right (Nat.le_add_right _ 1), Nat.add_sub_cancel_left] at hnext
      rw [List.head?_eq_getElem?]
      exact hnext
    obtain ⟨rest, rfl⟩ := List.head?_eq_some_iff.mp hb
    exact ⟨a, rest, rfl, rfl, Mode.eq_outside_of_shows hshows (by decide)⟩
  · rintro ⟨a, b, rfl, rfl, houtside⟩
    have hmem : (a.length, '/') ∈ visible (a ++ '/' :: '/' :: b) :=
      mem_visibleFrom_iff.mpr ⟨a, _, rfl, (Nat.zero_add _).symm, by rw [houtside]; rfl⟩
    refine ⟨List.mem_map.mpr ⟨_, hmem, rfl⟩, ?_, ?_⟩
    · simp
    · simp

/-- A text is kept whole, or up to two slashes outside string literals. -/
theorem uncommentedFrom_cases (mode : Mode) (t : Text) :
    uncommentedFrom mode t = t ∨ ∃ a b : Text, t = a ++ '/' :: '/' :: b ∧
      mode.after a = .outside ∧ uncommentedFrom mode t = a := by
  induction t generalizing mode with
  | nil => exact .inl rfl
  | cons c t ih =>
    by_cases hcomment : mode = .outside ∧ c = '/' ∧ t.head? = some '/'
    · obtain ⟨rfl, rfl, ht⟩ := hcomment
      obtain ⟨rest, rfl⟩ := List.head?_eq_some_iff.mp ht
      exact .inr ⟨[], rest, rfl, rfl, rfl⟩
    · rw [uncommentedFrom_cons hcomment]
      rcases ih (mode.next c) with hall | ⟨a, b, rfl, houtside, hcut⟩
      · left
        rw [hall]
      · right
        exact ⟨c :: a, b, rfl, houtside, by rw [hcut]⟩

private theorem length_uncommentedFrom_le {mode : Mode} {a : Text} (h : mode.after a = .outside)
    (b : Text) : (uncommentedFrom mode (a ++ '/' :: '/' :: b)).length ≤ a.length := by
  induction a generalizing mode with
  | nil =>
    obtain rfl : mode = .outside := h
    exact Nat.le_refl 0
  | cons c a ih =>
    by_cases hcomment : mode = .outside ∧ c = '/' ∧ (a ++ '/' :: '/' :: b).head? = some '/'
    · obtain ⟨rfl, rfl, ht⟩ := hcomment
      obtain ⟨rest, hrest⟩ := List.head?_eq_some_iff.mp ht
      rw [List.cons_append, hrest]
      exact Nat.zero_le _
    · rw [List.cons_append, uncommentedFrom_cons hcomment]
      exact Nat.succ_le_succ (ih h)

/-- A text without a comment is kept whole. -/
theorem uncommented_eq_self_of_forall {t : Text} (h : ∀ i, ¬CommentAt t i) : t.uncommented = t := by
  rcases uncommentedFrom_cases .outside t with hall | ⟨a, b, ht, houtside, -⟩
  · exact hall
  · exact absurd (commentAt_iff.mpr ⟨a, b, ht, rfl, houtside⟩) (h a.length)

/-- A text is cut where its first comment starts. -/
theorem uncommented_eq_take {t : Text} {i : Nat} (h : IsLeast {i | CommentAt t i} i) :
    t.uncommented = t.take i := by
  obtain ⟨a, b, ht, hi, houtside⟩ := commentAt_iff.mp h.1
  have hle : t.uncommented.length ≤ i := by
    rw [← hi, ht]
    exact length_uncommentedFrom_le houtside b
  rcases uncommentedFrom_cases .outside t with hall | ⟨a', b', ht', houtside', hcut⟩
  · -- the whole text would be kept, but a comment starts in it
    rw [uncommented, hall, ht, List.length_append, List.length_cons] at hle
    omega
  · have hleast : i ≤ a'.length := h.2 (commentAt_iff.mpr ⟨a', b', ht', rfl, houtside'⟩)
    have hlength : a'.length = i := by
      rw [uncommented, hcut] at hle
      omega
    rw [uncommented, hcut]
    conv_rhs => rw [ht', ← hlength, List.take_left]

/-! ## String literals show their two ends -/

/-- A reader inside a string literal stays there as long as nothing shows. -/
private theorem after_ne_outside {mode : Mode} {t : Text} (hmode : mode ≠ .outside)
    (hshown : shown mode t = []) : mode.after t ≠ .outside := by
  induction t generalizing mode with
  | nil => exact hmode
  | cons c t ih =>
    have hhidden : mode.shows c = false := by
      by_contra hshows
      rw [shown, if_pos (Bool.eq_true_of_not_eq_false hshows)] at hshown
      cases hshown
    rw [shown, if_neg (by rw [hhidden]; decide)] at hshown
    apply ih _ hshown
    cases mode with
    | outside => exact absurd rfl hmode
    | inside =>
      have hc : c ≠ '"' := of_decide_eq_false hhidden
      rw [Mode.next, if_neg hc]
      split
      · decide
      · decide
    | escaped =>
      intro hnext
      cases hnext

/-- If only the last character of a text shows, the reader comes to it in a mode that shows it and
sees nothing before. -/
private theorem hidden_of_visibleFrom_concat {mode : Mode} {position : Nat} {a : Text} {c : Char}
    (h : (visibleFrom mode position (a ++ [c])).map (·.1) = [position + a.length]) :
    shown mode a = [] ∧ (mode.after a).shows c = true := by
  rw [visibleFrom_append, List.map_append] at h
  have hhidden : visibleFrom mode position a = [] := by
    rw [List.eq_nil_iff_forall_not_mem]
    intro x hx
    have hlt := lt_of_mem_visibleFrom hx
    have hlast : x.1 ∈ [position + a.length] := by
      rw [← h]
      exact List.mem_append_left _ (List.mem_map_of_mem hx)
    rw [List.mem_singleton] at hlast
    omega
  constructor
  · rw [← map_snd_visibleFrom mode position, hhidden, List.map_nil]
  · by_contra hshows
    rw [hhidden, visibleFrom, if_neg hshows] at h
    cases h

/-- A text is made of two quotes and what stays hidden between them exactly when it starts with a
quote and shows only its two ends. -/
theorem enclosed_iff {t : Text} :
    (∃ body : Text, t = '"' :: (body ++ ['"']) ∧ Mode.inside.after body = .inside ∧
        shown .inside body = []) ↔
      2 ≤ t.length ∧ t.visible.map (·.1) = [0, t.length - 1] ∧ t.head? = some '"' := by
  constructor
  · rintro ⟨body, rfl, hafter, hshown⟩
    rw [visible_enclosed hafter hshown]
    simp
  · rintro ⟨hlength, hvisible, hhead⟩
    obtain ⟨t, rfl⟩ := List.head?_eq_some_iff.mp hhead
    obtain ⟨body, c, rfl⟩ : ∃ body c, t = body ++ [c] := by
      have hne : t ≠ [] := by
        rintro rfl
        exact absurd hlength (by decide)
      exact ⟨_, _, (List.dropLast_concat_getLast hne).symm⟩
    have hlast : (visibleFrom .inside 1 (body ++ [c])).map (·.1) = [1 + body.length] := by
      simpa [visible, visibleFrom, Mode.shows, Mode.next, Nat.add_comm] using hvisible
    obtain ⟨hshown, hshows⟩ := hidden_of_visibleFrom_concat hlast
    -- the last character shows, so no escape is left open in front of it
    have hmode := after_ne_outside (by decide) hshown
    cases hafter : Mode.inside.after body with
    | outside => exact absurd hafter hmode
    | inside =>
      rw [hafter] at hshows
      obtain rfl : c = '"' := of_decide_eq_true hshows
      exact ⟨body, rfl, hafter, hshown⟩
    | escaped =>
      rw [hafter] at hshows
      cases hshows

end Text

namespace Literal

private theorem flatMap_text_inside (units : List StringUnit) :
    Mode.inside.after (units.flatMap StringUnit.text) = .inside ∧
      Text.shown .inside (units.flatMap StringUnit.text) = [] := by
  induction units with
  | nil => exact ⟨rfl, rfl⟩
  | cons u units ih =>
    have hunit : Mode.inside.after u.text = .inside ∧ Text.shown .inside u.text = [] := by
      cases u with
      | plain c hc =>
        simp [StringUnit.text, Mode.next, Text.shown, Mode.shows, hc.1, hc.2]
      | escaped c => exact ⟨rfl, rfl⟩
    rw [List.flatMap_cons, Mode.after_append, Text.shown_append, hunit.1, hunit.2, ih.1, ih.2]
    exact ⟨rfl, rfl⟩

/-- What is read inside a string literal, shows nothing and ends inside it consists of units. -/
theorem exists_units {body : Text} (hafter : Mode.inside.after body = .inside)
    (hshown : Text.shown .inside body = []) :
    ∃ units : List StringUnit, units.flatMap StringUnit.text = body := by
  match body with
  | [] => exact ⟨[], rfl⟩
  | c :: t =>
    have hquote : c ≠ '"' := by
      rintro rfl
      cases hshown
    by_cases hbackslash : c = '\\'
    · -- an escape takes the next character with it, which has to be there
      subst hbackslash
      cases t with
      | nil => cases hafter
      | cons d t =>
        have hrest : Mode.inside.after t = .inside := hafter
        obtain ⟨units, rfl⟩ := exists_units hrest hshown
        exact ⟨.escaped d :: units, rfl⟩
    · have hstays : Mode.inside.next c = .inside := by
        rw [Mode.next, if_neg hquote, if_neg hbackslash]
      have hhidden : Mode.inside.shows c = false := decide_eq_false hquote
      rw [Text.shown, hhidden, hstays] at hshown
      rw [Mode.after_cons, hstays] at hafter
      obtain ⟨units, rfl⟩ := exists_units hafter hshown
      exact ⟨.plain c ⟨hquote, hbackslash⟩ :: units, rfl⟩

/-- A text is read as a string exactly when it consists of units between quotes. -/
theorem isSome_parseString?_iff_units {t : Text} :
    (parseString? t).isSome ↔
      ∃ units : List StringUnit, t = '"' :: (units.flatMap StringUnit.text ++ ['"']) := by
  rw [Option.isSome_iff_exists]
  constructor
  · rintro ⟨v, hv⟩
    obtain ⟨units, htext, -⟩ := exists_of_parseString? hv
    exact ⟨units, htext.symm⟩
  · rintro ⟨units, rfl⟩
    exact ⟨_, parseStringTail?_eq_some_iff.mpr ⟨units, rfl, rfl⟩⟩

/-- A text is read as a string exactly when it starts with a quote and shows only its two ends. -/
theorem isSome_parseString?_iff {t : Text} :
    (parseString? t).isSome ↔
      2 ≤ t.length ∧ t.visible.map (·.1) = [0, t.length - 1] ∧ t.head? = some '"' := by
  rw [isSome_parseString?_iff_units, ← Text.enclosed_iff]
  constructor
  · rintro ⟨units, rfl⟩
    exact ⟨_, rfl, flatMap_text_inside units⟩
  · rintro ⟨body, rfl, hafter, hshown⟩
    obtain ⟨units, rfl⟩ := exists_units hafter hshown
    exact ⟨units, rfl⟩

/-- The three readers agree where string literals stand. A text is cut at its first two slashes of
which the first is visible, and kept whole if there are none; it consists of units between quotes
exactly when it starts with a quote and shows its two ends and nothing else. -/
theorem readers_of_strings_agree (t : Text) :
    (∀ i, IsLeast {i | t.CommentAt i} i → t.uncommented = t.take i) ∧
      ((∀ i, ¬t.CommentAt i) → t.uncommented = t) ∧
      ((parseString? t).isSome ↔
        ∃ units : List StringUnit, t = '"' :: (units.flatMap StringUnit.text ++ ['"'])) ∧
      ((parseString? t).isSome ↔
        2 ≤ t.length ∧ t.visible.map (·.1) = [0, t.length - 1] ∧ t.head? = some '"') :=
  ⟨fun _ hleast ↦ Text.uncommented_eq_take hleast, Text.uncommented_eq_self_of_forall,
    isSome_parseString?_iff_units, isSome_parseString?_iff⟩

/-- Slashes between quotes are passed over, behind an escaped quote too: the comment of the first
text starts behind its string, and the second text is one string without a comment. -/
theorem readers_of_strings_agree_slashes :
    (IsLeast {i | Text.CommentAt "\"//\" //".toList i} 5 ∧
      Text.uncommented "\"//\" //".toList = "\"//\" ".toList) ∧
      (∀ i, ¬Text.CommentAt "\"\\\"//\"".toList i) ∧
      Text.uncommented "\"\\\"//\"".toList = "\"\\\"//\"".toList ∧
      (parseString? "\"\\\"//\"".toList).isSome := by
  have hleast : IsLeast {i | Text.CommentAt "\"//\" //".toList i} 5 := by
    refine ⟨show Text.CommentAt _ 5 by decide, fun i hi ↦ ?_⟩
    by_contra hlt
    exact absurd hi
      ((by decide : ∀ i < 5, ¬Text.CommentAt "\"//\" //".toList i) i (Nat.lt_of_not_le hlt))
  have hnone : ∀ i, ¬Text.CommentAt "\"\\\"//\"".toList i := by
    intro i hi
    have hlt : i < 6 := (List.getElem?_eq_some_iff.mp hi.2.1).1
    exact absurd hi
      ((by decide : ∀ i < 6, ¬Text.CommentAt "\"\\\"//\"".toList i) i hlt)
  exact ⟨⟨hleast, (readers_of_strings_agree _).1 5 hleast⟩, hnone,
    (readers_of_strings_agree _).2.1 hnone, (readers_of_strings_agree _).2.2.2.mpr (by decide)⟩

end Literal

end Lilac
