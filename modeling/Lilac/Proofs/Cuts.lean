import Lilac.Proofs.Quotation

/-!
# Where argument lists are cut

An argument list is cut at its top-level commas, those that a reader reaches outside string literals
with as many parentheses closed as opened. The pieces are what stands between these commas: joined
with commas again they are the text, however unbalanced it is, and none of them is cut further. Only
a blank piece at the very end does not count as an argument.

About `_split_arguments`. Specification: `SPEC_FULL.md`, section 4.2.
-/

namespace Lilac

namespace Text

/-! ## Top-level commas -/

/-- A comma stands at a position that a reader, who starts in the given mode with `depth`
parentheses open, reaches outside string literals with none open. -/
def IsCut (mode : Mode) (depth : Int) (t : Text) (i : Nat) : Prop :=
  t[i]? = some ',' ∧ mode.after (t.take i) = .outside ∧
    depth + balance (shown mode (t.take i)) = 0

instance (mode : Mode) (depth : Int) (t : Text) : DecidablePred (IsCut mode depth t) := fun i ↦
  inferInstanceAs (Decidable (t[i]? = some ',' ∧ mode.after (t.take i) = .outside ∧
    depth + balance (shown mode (t.take i)) = 0))

/-- The positions at which a text is cut, for a reader in the given mode with `depth` parentheses
open. -/
def cutsFrom (mode : Mode) (depth : Int) (t : Text) : List Nat :=
  (List.range t.length).filter (IsCut mode depth t)

/-- The positions of the top-level commas of an argument list. -/
def cuts (t : Text) : List Nat := cutsFrom .outside 0 t

/-- The number of open parentheses behind a character that is read in the given mode. -/
def depthAfter (mode : Mode) (depth : Int) (c : Char) : Int :=
  if mode.shows c then depth + parenthesisStep c else depth

/-- Reading a text is reading its first character and then the rest. -/
theorem depthAfter_add_balance (mode : Mode) (depth : Int) (c : Char) (t : Text) :
    depthAfter mode depth c + balance (shown (mode.next c) t) =
      depth + balance (shown mode (c :: t)) := by
  rw [depthAfter, shown]
  split
  · rw [balance_cons, Int.add_assoc]
  · rfl

/-- A text is cut at its first character if that is a comma at the top level. -/
theorem isCut_cons_zero {mode : Mode} {depth : Int} {c : Char} {t : Text} :
    IsCut mode depth (c :: t) 0 ↔ mode = .outside ∧ c = ',' ∧ depth = 0 := by
  simp only [IsCut, List.getElem?_cons_zero, Option.some.injEq, List.take_zero, Mode.after_nil,
    shown_nil, balance_nil, Int.add_zero]
  exact and_left_comm

private theorem isCut_cons_succ {mode : Mode} {depth : Int} {c : Char} {t : Text} {i : Nat} :
    IsCut mode depth (c :: t) (i + 1) ↔ IsCut (mode.next c) (depthAfter mode depth c) t i := by
  rw [IsCut, IsCut, List.getElem?_cons_succ, List.take_succ_cons, Mode.after_cons,
    depthAfter_add_balance]

private theorem cutsFrom_cons (mode : Mode) (depth : Int) (c : Char) (t : Text) :
    cutsFrom mode depth (c :: t) =
      (if IsCut mode depth (c :: t) 0 then [0] else []) ++
        (cutsFrom (mode.next c) (depthAfter mode depth c) t).map (· + 1) := by
  have hrest : ((List.range t.length).map Nat.succ).filter (IsCut mode depth (c :: t)) =
      (cutsFrom (mode.next c) (depthAfter mode depth c) t).map (· + 1) := by
    rw [List.filter_map, cutsFrom]
    congr 1
    apply List.filter_congr
    intro i _
    exact decide_eq_decide.mpr isCut_cons_succ
  rw [cutsFrom, List.length_cons, List.range_succ_eq_map, List.filter_cons, hrest]
  simp only [decide_eq_true_eq]
  split
  · rfl
  · rfl

/-- A text that is cut at its first character starts with an empty piece; otherwise the character
goes on with the first piece of the rest. -/
theorem argumentPiecesFrom_cons (mode : Mode) (depth : Int) (c : Char) (t : Text) :
    argumentPiecesFrom mode depth (c :: t) =
      if IsCut mode depth (c :: t) 0 then
        [] :: argumentPiecesFrom (mode.next c) (depthAfter mode depth c) t
      else consHead c (argumentPiecesFrom (mode.next c) (depthAfter mode depth c) t) := by
  rw [argumentPiecesFrom, depthAfter]
  simp only [isCut_cons_zero]
  split
  · next hshows =>
    split
    · next hcut =>
      obtain ⟨rfl, rfl⟩ := hcut
      rw [if_pos ⟨Mode.eq_outside_of_shows hshows (by decide), rfl, rfl⟩]
      rfl
    · next hcut => rw [if_neg fun h ↦ hcut h.2]
  · next hshows =>
    rw [if_neg]
    rintro ⟨rfl, -, -⟩
    exact hshows rfl

/-! ## The pieces between them -/

/-- What stands in a text from a position on, cut at later positions: the characters there are left
out. -/
def slices (t : Text) (start : Nat) : List Nat → List Text
  | [] => [t.drop start]
  | i :: rest => (t.drop start).take (i - start) :: slices t (i + 1) rest

/-- There is one slice more than there are positions. -/
theorem length_slices (t : Text) (start : Nat) (positions : List Nat) :
    (slices t start positions).length = positions.length + 1 := by
  induction positions generalizing start with
  | nil => rfl
  | cons i rest ih => rw [slices, List.length_cons, ih, List.length_cons]

private theorem getLast?_slices (t : Text) (start : Nat) (positions : List Nat) :
    (slices t start positions).getLast? =
      some (t.drop (positions.getLast?.elim start (· + 1))) := by
  induction positions generalizing start with
  | nil => rfl
  | cons i rest ih =>
    rw [slices, List.getLast?_cons, ih, Option.getD_some, List.getLast?_cons]
    cases rest.getLast? with
    | none => rfl
    | some j => rfl

/-- A character in front of a text moves every position. -/
theorem slices_cons_succ (c : Char) (t : Text) (start : Nat) (positions : List Nat) :
    slices (c :: t) (start + 1) (positions.map (· + 1)) = slices t start positions := by
  induction positions generalizing start with
  | nil => rfl
  | cons i rest ih =>
    rw [List.map_cons, slices, slices, List.drop_succ_cons, ih, Nat.add_sub_add_right]

private theorem slices_cons_zero (c : Char) (t : Text) (positions : List Nat) :
    slices (c :: t) 0 (positions.map (· + 1)) = consHead c (slices t 0 positions) := by
  cases positions with
  | nil => rfl
  | cons i rest =>
    rw [List.map_cons, slices, slices, slices_cons_succ]
    rfl

/-- The pieces of an argument list are what stands between its top-level commas. -/
theorem argumentPiecesFrom_eq_slices (mode : Mode) (depth : Int) (t : Text) :
    argumentPiecesFrom mode depth t = slices t 0 (cutsFrom mode depth t) := by
  induction t generalizing mode depth with
  | nil => rfl
  | cons c t ih =>
    rw [argumentPiecesFrom_cons, cutsFrom_cons, ih]
    split
    · exact congrArg ([] :: ·) (slices_cons_succ c t 0 _).symm
    · exact (slices_cons_zero c t _).symm

/-- A text is cut into at least one piece. -/
theorem argumentPiecesFrom_ne_nil (mode : Mode) (depth : Int) (t : Text) :
    argumentPiecesFrom mode depth t ≠ [] := by
  rw [argumentPiecesFrom_eq_slices, ← List.length_pos_iff, length_slices]
  omega

/-! ## Nothing is lost -/

private theorem join_consHead (separator : Text) (c : Char) (ps : List Text) :
    join separator (consHead c ps) = c :: join separator ps := by
  cases ps with
  | nil => rfl
  | cons p ps =>
    cases ps with
    | nil => rfl
    | cons q ps => rw [consHead, join_cons_cons, join_cons_cons, List.cons_append]

/-- A last text stands behind the others and a separator. -/
theorem join_concat (separator : Text) {ps : List Text} (hne : ps ≠ []) (last : Text) :
    join separator (ps ++ [last]) = join separator ps ++ (separator ++ last) := by
  induction ps with
  | nil => exact absurd rfl hne
  | cons p ps ih =>
    cases ps with
    | nil => exact join_cons_cons separator p last []
    | cons q ps =>
      rw [List.cons_append, List.cons_append, join_cons_cons, ← List.cons_append,
        ih (List.cons_ne_nil q ps), join_cons_cons]
      simp only [List.append_assoc]

/-- Joining the pieces with commas gives the text back. -/
theorem join_argumentPiecesFrom (mode : Mode) (depth : Int) (t : Text) :
    join [','] (argumentPiecesFrom mode depth t) = t := by
  induction t generalizing mode depth with
  | nil => rfl
  | cons c t ih =>
    rw [argumentPiecesFrom_cons]
    split
    · next hcut =>
      obtain ⟨p, ps, hps⟩ := List.exists_cons_of_ne_nil
        (argumentPiecesFrom_ne_nil (mode.next c) (depthAfter mode depth c) t)
      rw [hps, join_cons_cons, ← hps, ih, (isCut_cons_zero.mp hcut).2.1]
      rfl
    · rw [join_consHead, ih]

/-- The pieces of two texts in a row are those of the one and those of the other, where the last of
the first text and the first of the second make up one piece. -/
private theorem exists_argumentPiecesFrom_append (mode : Mode) (depth : Int) (a b : Text) :
    ∃ (first rest : List Text) (x y : Text),
      argumentPiecesFrom mode depth a = first ++ [x] ∧
      argumentPiecesFrom (mode.after a) (depth + balance (shown mode a)) b = y :: rest ∧
      argumentPiecesFrom mode depth (a ++ b) = first ++ (x ++ y) :: rest := by
  induction a generalizing mode depth with
  | nil =>
    obtain ⟨y, rest, hb⟩ := List.exists_cons_of_ne_nil (argumentPiecesFrom_ne_nil mode depth b)
    refine ⟨[], rest, [], y, rfl, ?_, hb⟩
    rw [Mode.after_nil, shown_nil, balance_nil, Int.add_zero, hb]
  | cons c a ih =>
    obtain ⟨first, rest, x, y, ha, hb, hab⟩ := ih (mode.next c) (depthAfter mode depth c)
    rw [depthAfter_add_balance] at hb
    have hcut : IsCut mode depth (c :: a) 0 ↔ IsCut mode depth (c :: (a ++ b)) 0 :=
      isCut_cons_zero.trans isCut_cons_zero.symm
    simp only [List.cons_append, argumentPiecesFrom_cons, ha, hab, hcut]
    split
    · exact ⟨[] :: first, rest, x, y, rfl, hb, rfl⟩
    · cases first with
      | nil => exact ⟨[], rest, c :: x, y, rfl, hb, rfl⟩
      | cons p first => exact ⟨(c :: p) :: first, rest, x, y, rfl, hb, rfl⟩

/-- The last piece of a text goes on with the first piece of the text behind it. -/
theorem argumentPiecesFrom_append_eq {mode : Mode} {depth : Int} {a b x y : Text}
    {first rest : List Text} (ha : argumentPiecesFrom mode depth a = first ++ [x])
    (hb : argumentPiecesFrom (mode.after a) (depth + balance (shown mode a)) b = y :: rest) :
    argumentPiecesFrom mode depth (a ++ b) = first ++ (x ++ y) :: rest := by
  obtain ⟨first', rest', x', y', ha', hb', hab⟩ := exists_argumentPiecesFrom_append mode depth a b
  obtain ⟨rfl, hx⟩ := List.append_inj' (ha'.symm.trans ha) rfl
  obtain ⟨rfl, -⟩ := List.cons.inj hx
  obtain ⟨rfl, rfl⟩ := List.cons.inj (hb'.symm.trans hb)
  exact hab

/-! ## Nothing is cut twice -/

/-- Pieces that are not cut further: the first one read in the given mode with `depth` parentheses
open, the others as texts of their own. -/
def Indivisible (mode : Mode) (depth : Int) : List Text → Prop
  | [] => True
  | first :: rest => argumentPiecesFrom mode depth first = [first] ∧
      ∀ p ∈ rest, argumentPiecesFrom .outside 0 p = [p]

/-- As texts of their own, pieces that are read from the top level are not cut further. -/
theorem Indivisible.all {ps : List Text} (h : Indivisible .outside 0 ps) :
    ∀ p ∈ ps, argumentPiecesFrom .outside 0 p = [p] := by
  cases ps with
  | nil => exact List.forall_mem_nil _
  | cons first rest => exact List.forall_mem_cons.mpr h

/-- No piece of an argument list is cut further. -/
theorem indivisible_argumentPiecesFrom (mode : Mode) (depth : Int) (t : Text) :
    Indivisible mode depth (argumentPiecesFrom mode depth t) := by
  induction t generalizing mode depth with
  | nil => exact ⟨rfl, List.forall_mem_nil _⟩
  | cons c t ih =>
    have hrest := ih (mode.next c) (depthAfter mode depth c)
    rw [argumentPiecesFrom_cons]
    split
    · next hcut =>
      -- Behind a cut the reader starts anew: outside string literals, at depth zero.
      obtain ⟨rfl, rfl, rfl⟩ := isCut_cons_zero.mp hcut
      exact ⟨rfl, hrest.all⟩
    · next hcut =>
      obtain ⟨first, rest, hpieces⟩ := List.exists_cons_of_ne_nil
        (argumentPiecesFrom_ne_nil (mode.next c) (depthAfter mode depth c) t)
      rw [hpieces] at hrest ⊢
      refine ⟨?_, hrest.2⟩
      rw [argumentPiecesFrom_cons, if_neg (mt isCut_cons_zero.mp (mt isCut_cons_zero.mpr hcut)),
        hrest.1]
      rfl

/-! ## Arguments -/

/-- A last piece is dropped if it is blank. -/
theorem dropBlankTail_concat (ps : List Text) (last : Text) :
    dropBlankTail (ps ++ [last]) = if trim last = [] then ps else ps ++ [last] := by
  induction ps with
  | nil => rfl
  | cons p ps ih =>
    rw [List.cons_append, dropBlankTail, ih]
    · split
      · rfl
      · rfl
    · simp

/-- All pieces are kept, or all but a blank one at the end. -/
theorem dropBlankTail_cases (ps : List Text) :
    dropBlankTail ps = ps ∨
      ∃ tail : Text, (∀ c ∈ tail, isBlank c = true) ∧ ps = dropBlankTail ps ++ [tail] := by
  rcases List.eq_nil_or_concat ps with rfl | ⟨first, last, rfl⟩
  · exact .inl rfl
  · rw [List.concat_eq_append, dropBlankTail_concat]
    split
    · next hblank => exact .inr ⟨last, trim_eq_nil_iff.mp hblank, rfl⟩
    · exact .inl rfl

/-- A text is blank exactly when trimming leaves nothing of it. -/
theorem all_isBlank_iff {t : Text} : t.all isBlank = true ↔ trim t = [] :=
  List.all_eq_true.trans trim_eq_nil_iff.symm

/-- The text is its arguments joined with commas, or these, a comma and blanks, or blanks alone. -/
theorem eq_join_arguments (t : Text) :
    t = join [','] t.arguments ∨
      (t.arguments ≠ [] ∧ ∃ tail : Text, (∀ c ∈ tail, isBlank c = true) ∧
        t = join [','] t.arguments ++ ',' :: tail) ∨
      ((∀ c ∈ t, isBlank c = true) ∧ t.arguments = []) := by
  have hjoin := join_argumentPiecesFrom .outside 0 t
  rcases dropBlankTail_cases (argumentPiecesFrom .outside 0 t) with hall | ⟨tail, htail, hpieces⟩
  · left
    rw [arguments, hall, hjoin]
  · right
    rw [← arguments] at hpieces
    rw [hpieces] at hjoin
    by_cases hnone : t.arguments = []
    · right
      rw [hnone] at hjoin
      have ht : tail = t := hjoin
      exact ⟨ht ▸ htail, hnone⟩
    · left
      exact ⟨hnone, tail, htail, hjoin.symm.trans (join_concat [','] hnone tail)⟩

/-- The arguments are the first of the slices between the top-level commas. -/
theorem arguments_isPrefix_slices (t : Text) : t.arguments <+: t.slices 0 t.cuts := by
  rw [cuts, ← argumentPiecesFrom_eq_slices]
  rcases dropBlankTail_cases (argumentPiecesFrom .outside 0 t) with hall | ⟨tail, -, hpieces⟩
  · exact ⟨[], (List.append_nil _).trans hall⟩
  · exact ⟨[tail], hpieces.symm⟩

/-- What stands behind the last top-level comma of an argument list, and the whole list if it has
none. -/
def afterCuts (t : Text) : Text := t.drop (t.cuts.getLast?.elim 0 (· + 1))

/-- There is an argument for each top-level comma, and one more if what stands behind the last is
not blank. -/
theorem length_arguments (t : Text) :
    t.arguments.length = t.cuts.length + (if t.afterCuts.all isBlank then 0 else 1) := by
  obtain ⟨first, hslices⟩ := List.getLast?_eq_some_iff.mp (getLast?_slices t 0 t.cuts)
  have hlength := length_slices t 0 t.cuts
  rw [hslices, List.length_append, List.length_singleton] at hlength
  have hpieces : argumentPiecesFrom .outside 0 t = first ++ [t.afterCuts] := by
    rw [argumentPiecesFrom_eq_slices, ← cuts, hslices, afterCuts]
  rw [arguments, hpieces, dropBlankTail_concat]
  simp only [all_isBlank_iff]
  split
  · omega
  · rw [List.length_append, List.length_singleton]
    omega

/-- An argument has itself as its only argument, or none if it is blank. -/
theorem arguments_of_mem_arguments {t p : Text} (h : p ∈ t.arguments) :
    p.arguments = if p.all isBlank then [] else [p] := by
  have hsingle := (indivisible_argumentPiecesFrom .outside 0 t).all p (mem_of_mem_dropBlankTail h)
  rw [arguments, hsingle, dropBlankTail]
  simp only [all_isBlank_iff]

/-- Cutting an argument list loses nothing and cannot be carried further. The text is its arguments
joined with commas, or these, a comma and blanks, or it is blank and has none. The arguments are
what stands between the top-level commas: one for each of them, and one more if what stands behind
the last is not blank. An argument has itself as its only argument, or none if it is blank. -/
theorem arguments_lose_nothing (t : Text) :
    (t = join [','] t.arguments ∨
        (t.arguments ≠ [] ∧ ∃ tail : Text, (∀ c ∈ tail, isBlank c = true) ∧
          t = join [','] t.arguments ++ ',' :: tail) ∨
        ((∀ c ∈ t, isBlank c = true) ∧ t.arguments = [])) ∧
      t.arguments <+: t.slices 0 t.cuts ∧
      t.arguments.length = t.cuts.length + (if t.afterCuts.all isBlank then 0 else 1) ∧
      ∀ p ∈ t.arguments, p.arguments = if p.all isBlank then [] else [p] := by
  refine ⟨eq_join_arguments t, arguments_isPrefix_slices t, length_arguments t, ?_⟩
  intro p hp
  exact arguments_of_mem_arguments hp

/-- A parenthesis without a partner, a blank argument, and a comma in a string that is never
ended. -/
theorem arguments_lose_nothing_unended :
    arguments ")(, ,\"a,".toList = [")(".toList, [' '], "\"a,".toList] ∧
      cuts ")(, ,\"a,".toList = [2, 4] ∧
      [' '] ∈ arguments ")(, ,\"a,".toList ∧ "\"a,".toList ∈ arguments ")(, ,\"a,".toList ∧
      arguments [' '] = [] ∧ arguments "\"a,".toList = ["\"a,".toList] := by
  have harguments : arguments ")(, ,\"a,".toList = [")(".toList, [' '], "\"a,".toList] := by
    decide
  have hblank : [' '] ∈ arguments ")(, ,\"a,".toList := by
    rw [harguments]
    decide
  have hstring : "\"a,".toList ∈ arguments ")(, ,\"a,".toList := by
    rw [harguments]
    decide
  obtain ⟨-, -, -, hsingle⟩ := arguments_lose_nothing ")(, ,\"a,".toList
  exact ⟨harguments, by decide, hblank, hstring, hsingle _ hblank,
    (hsingle _ hstring).trans (by decide)⟩

end Text

end Lilac
