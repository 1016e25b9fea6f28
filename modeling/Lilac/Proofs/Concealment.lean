import Lilac.Proofs.Comments
import Lilac.Proofs.Cuts

/-!
# What strings conceal

Whatever a string holds, its literal shows the readers of a text two quotes and nothing else, and
leads them from outside string literals to outside string literals. So what a reader makes of the
text around the literal does not depend on the string: nesting, the top-level commas, the terminator
and the comment are found at the same places in front of the literal and behind it.

About `_unquoted` and `_strip_comment`. Specification: `SPEC_FULL.md`, section 4.1.
-/

namespace Lilac

namespace Text

/-! ## Visible characters -/

private theorem visibleFrom_add (mode : Mode) (position shift : Nat) (t : Text) :
    visibleFrom mode (position + shift) t =
      (visibleFrom mode position t).map fun x ↦ (x.1 + shift, x.2) := by
  induction t generalizing mode position with
  | nil => rfl
  | cons c t ih =>
    simp only [visibleFrom]
    rw [Nat.add_right_comm, ih]
    split
    · rfl
    · rfl

/-- The visible characters of a text behind another that ends outside string literals are its own,
shifted. -/
theorem visible_append {a : Text} (h : Mode.outside.after a = .outside) (b : Text) :
    visible (a ++ b) = visible a ++ (visible b).map fun x ↦ (x.1 + a.length, x.2) := by
  rw [visible, visibleFrom_append, h, visibleFrom_add, visible, visible]

/-- Quotes around a text that does not show inside a string literal, and does not lead out of it,
are the only visible characters. -/
theorem visible_enclosed {body : Text} (hafter : Mode.inside.after body = .inside)
    (hshown : shown .inside body = []) :
    visible ('"' :: (body ++ ['"'])) = [(0, '"'), (body.length + 1, '"')] := by
  have hhidden : visibleFrom .inside 1 body = [] := by
    rw [← List.map_eq_nil_iff, map_snd_visibleFrom, hshown]
  have hrest : visibleFrom .inside 1 (body ++ ['"']) = [(body.length + 1, '"')] := by
    rw [visibleFrom_append, hhidden, hafter, Nat.add_comm]
    rfl
  exact congrArg ((0, '"') :: ·) hrest

/-- Of a string literal only the two quotes are visible, at its two ends. -/
theorem visible_quote (s : Text) :
    visible (Literal.quote s) = [(0, '"'), ((Literal.quote s).length - 1, '"')] := by
  obtain ⟨hafter, hshown⟩ := Literal.flatMap_escape_inside s
  rw [Literal.quote, List.cons_append, visible_enclosed hafter hshown]
  simp

/-- A string literal behind a text that ends outside string literals leads there again. -/
theorem after_append_quote {p : Text} (h : Mode.outside.after p = .outside) (s : Text) :
    Mode.outside.after (p ++ Literal.quote s) = .outside := by
  rw [Mode.after_append, h, Literal.after_quote]

/-- The visible characters around a string literal are its two quotes and those on its two sides. -/
theorem visible_around {p : Text} (h : Mode.outside.after p = .outside) (s q : Text) :
    (p ++ Literal.quote s ++ q).visible =
      p.visible ++ [(p.length, '"'), (p.length + (Literal.quote s).length - 1, '"')] ++
        q.visible.map fun x ↦ (x.1 + (p ++ Literal.quote s).length, x.2) := by
  have hpos : 0 < (Literal.quote s).length := by simp [Literal.quote]
  have hlast : (Literal.quote s).length - 1 + p.length =
      p.length + (Literal.quote s).length - 1 := by
    omega
  rw [visible_append (after_append_quote h s), visible_append h, visible_quote, List.map_cons,
    List.map_cons, List.map_nil, Nat.zero_add, hlast]

/-! ## Nesting -/

private theorem peak_append_append {b : List Char} (h : ∀ c ∈ b, c ≠ '(' ∧ c ≠ ')')
    (a c : List Char) : peak (a ++ (b ++ c)) = peak (a ++ c) := by
  have hc := peak_nonneg c
  rw [peak_append a (b ++ c), peak_append b c, peak_eq_zero h, balance_eq_zero h, peak_append a c]
  omega

/-- A string literal does not add to the nesting of the text around it. -/
theorem nesting_around {p : Text} (h : Mode.outside.after p = .outside) (s q : Text) :
    (p ++ Literal.quote s ++ q).nesting = (p ++ q).nesting := by
  have hquotes : ∀ c ∈ ['"', '"'], c ≠ '(' ∧ c ≠ ')' := by simp
  rw [← Int.natCast_inj, nesting_eq, nesting_eq, List.append_assoc, shown_append, h, shown_append,
    Literal.shown_quote, Literal.after_quote, peak_append_append hquotes, shown_append, h]

/-! ## The terminator -/

private theorem terminator?_append_of_outside {a : Text} (h : Mode.outside.after a = .outside)
    (b : Text) :
    terminator? (a ++ b) = (terminator? a).or ((terminator? b).map (· + a.length)) := by
  rw [terminator?_eq, visible_append h, List.find?_append, List.find?_map, Option.map_or,
    terminator?_eq, terminator?_eq, Option.map_map, Option.map_map]
  rfl

private theorem terminator?_quote (s : Text) : terminator? (Literal.quote s) = none := by
  rw [terminator?_eq, visible_quote]
  rfl

/-- The terminator is found at the same place, whatever the string holds. -/
theorem terminator?_around {p : Text} (h : Mode.outside.after p = .outside) (s q : Text) :
    terminator? (p ++ Literal.quote s ++ q) =
      (terminator? p).or ((terminator? q).map (· + (p ++ Literal.quote s).length)) := by
  rw [terminator?_append_of_outside (after_append_quote h s), terminator?_append_of_outside h,
    terminator?_quote, Option.map_none, Option.or_none]

/-! ## The comment -/

/-- A comment starts in the first of two texts or else in the second, unless a slash of the first
one meets a slash of the second. -/
private theorem uncommentedFrom_append_of_head {mode : Mode} {a b : Text}
    (hb : b.head? ≠ some '/') :
    uncommentedFrom mode (a ++ b) =
      if uncommentedFrom mode a = a then a ++ uncommentedFrom (mode.after a) b
      else uncommentedFrom mode a := by
  induction a generalizing mode with
  | nil => rfl
  | cons c a ih =>
    by_cases hcomment : mode = .outside ∧ c = '/' ∧ a.head? = some '/'
    · obtain ⟨rfl, rfl, ha⟩ := hcomment
      obtain ⟨rest, rfl⟩ := List.head?_eq_some_iff.mp ha
      rfl
    · have hsame : ¬(mode = .outside ∧ c = '/' ∧ (a ++ b).head? = some '/') := by
        rintro ⟨hmode, hc, hhead⟩
        cases a with
        | nil => exact hb hhead
        | cons d a => exact hcomment ⟨hmode, hc, hhead⟩
      rw [List.cons_append, uncommentedFrom_cons hsame, uncommentedFrom_cons hcomment, ih]
      simp only [List.cons.injEq, true_and]
      split
      · rfl
      · rfl

/-- A comment starts at the same place, whatever the string holds. -/
theorem uncommented_around {p : Text} (h : Mode.outside.after p = .outside) (s q : Text) :
    uncommented (p ++ Literal.quote s ++ q) =
      if uncommented p = p then p ++ Literal.quote s ++ uncommented q else uncommented p := by
  have hquote : uncommentedFrom .outside (Literal.quote s ++ q) =
      Literal.quote s ++ uncommentedFrom .outside q := by
    rw [uncommentedFrom_append_of_shown (by rw [Literal.shown_quote]; decide), Literal.after_quote]
  have hhead : (Literal.quote s ++ q).head? ≠ some '/' := by simp [Literal.quote]
  rw [List.append_assoc, uncommented, uncommentedFrom_append_of_head hhead, h, hquote,
    List.append_assoc]
  rfl

/-! ## Top-level commas -/

private theorem dropBlankTail_append_cons {piece : Text} (h : trim piece ≠ [])
    (first rest : List Text) :
    dropBlankTail (first ++ piece :: rest) = first ++ piece :: dropBlankTail rest := by
  induction first with
  | nil =>
    cases rest with
    | nil => exact if_neg h
    | cons q rest => rfl
  | cons p first ih =>
    rw [List.cons_append, dropBlankTail, ih, List.cons_append]
    simp

/-- How an argument list is cut around a literal that stands between two texts: the last piece in
front of it and the first one behind it belong to the argument that holds the literal. -/
structure CutAround (p q : Text) where
  before : List Text
  front : Text
  back : Text
  after : List Text
  join_front : join [','] (before ++ [front]) = p
  /-- A blank piece at the very end of the text is no argument. -/
  join_back : q = join [','] (back :: after) ∨
    ∃ tail : Text, (∀ c ∈ tail, isBlank c = true) ∧ q = join [','] (back :: after) ++ ',' :: tail

private theorem argumentPieces_around {p : Text} (h : Mode.outside.after p = .outside) (s : Text)
    {q front back : Text} {before rest : List Text}
    (hp : argumentPiecesFrom .outside 0 p = before ++ [front])
    (hq : argumentPiecesFrom .outside (balance (shown .outside p)) q = back :: rest) :
    argumentPiecesFrom .outside 0 (p ++ Literal.quote s ++ q) =
      before ++ (front ++ Literal.quote s ++ back) :: rest := by
  have hquote : argumentPiecesFrom .outside (balance (shown .outside p)) (Literal.quote s ++ q) =
      (Literal.quote s ++ back) :: rest := by
    have huncut : Uncut (balance (shown .outside p)) (shown .outside (Literal.quote s)) := by
      rw [Literal.shown_quote]
      exact uncut_of_not_mem (by decide) _
    have hbalance : balance ['"', '"'] = 0 := rfl
    rw [argumentPiecesFrom_append huncut, Literal.after_quote, Literal.shown_quote, hbalance,
      Int.add_zero, hq, foldr_consHead]
  rw [List.append_assoc, List.append_assoc]
  refine argumentPiecesFrom_append_eq hp ?_
  rw [h, Int.zero_add, hquote]

/-- An argument list is cut at the same places, whatever the string holds. -/
theorem exists_cutAround {p : Text} (h : Mode.outside.after p = .outside) (q : Text) :
    ∃ cut : CutAround p q, ∀ s, (p ++ Literal.quote s ++ q).arguments =
      cut.before ++ (cut.front ++ Literal.quote s ++ cut.back) :: cut.after := by
  obtain ⟨before, front, hp⟩ : ∃ before front,
      argumentPiecesFrom .outside 0 p = before ++ [front] :=
    ⟨_, _, (List.dropLast_concat_getLast (argumentPiecesFrom_ne_nil .outside 0 p)).symm⟩
  obtain ⟨back, rest, hq⟩ := List.exists_cons_of_ne_nil
    (argumentPiecesFrom_ne_nil .outside (balance (shown .outside p)) q)
  have hback : q = join [','] (back :: dropBlankTail rest) ∨
      ∃ tail : Text, (∀ c ∈ tail, isBlank c = true) ∧
        q = join [','] (back :: dropBlankTail rest) ++ ',' :: tail := by
    have hjoin := join_argumentPiecesFrom .outside (balance (shown .outside p)) q
    rw [hq] at hjoin
    rcases dropBlankTail_cases rest with hall | ⟨tail, htail, hrest⟩
    · left
      rw [hall, hjoin]
    · right
      refine ⟨tail, htail, ?_⟩
      rw [hrest, ← List.cons_append] at hjoin
      exact hjoin.symm.trans (join_concat [','] (List.cons_ne_nil _ _) tail)
  refine ⟨⟨before, front, back, dropBlankTail rest, ?_, hback⟩, fun s ↦ ?_⟩
  · rw [← hp, join_argumentPiecesFrom]
  · have hquoted : trim (front ++ Literal.quote s ++ back) ≠ [] := by
      intro hblank
      have hmem : '"' ∈ front ++ Literal.quote s ++ back := by simp [Literal.quote]
      exact absurd (trim_eq_nil_iff.mp hblank '"' hmem) (by decide)
    rw [arguments, argumentPieces_around h s hp hq, dropBlankTail_append_cons hquoted]

/-! ## All readers -/

/-- What the readers make of a text in which a literal stands between two others: its quotes, and
what they make of the texts on its two sides. -/
structure Conceals {p q : Text} (cut : CutAround p q) (literal : Text) : Prop where
  oneLine : '\n' ∉ literal
  visible : (p ++ literal ++ q).visible =
    p.visible ++ [(p.length, '"'), (p.length + literal.length - 1, '"')] ++
      q.visible.map fun x ↦ (x.1 + (p ++ literal).length, x.2)
  nesting : (p ++ literal ++ q).nesting = (p ++ q).nesting
  arguments : (p ++ literal ++ q).arguments =
    cut.before ++ (cut.front ++ literal ++ cut.back) :: cut.after
  terminator : (p ++ literal ++ q).terminator? =
    p.terminator?.or (q.terminator?.map (· + (p ++ literal).length))
  comment : (p ++ literal ++ q).uncommented =
    if p.uncommented = p then p ++ literal ++ q.uncommented else p.uncommented

end Text

namespace Literal

/-- Printed strings conceal what they hold. Behind a text that ends outside string literals, and in
front of any other, a printed string shows its two quotes and nothing else, on one line. Whatever it
holds, the text around it nests as deeply, is cut at the same top-level commas, and has its
terminator and its comment at the same place, if it has them. -/
theorem strings_conceal_contents {p : Text} (hp : Mode.outside.after p = .outside) (q : Text) :
    ∃ cut : Text.CutAround p q, ∀ s, ∃ literal, print? ⟨.string, .str s⟩ = some literal ∧
      Text.Conceals cut literal := by
  obtain ⟨cut, harguments⟩ := Text.exists_cutAround hp q
  refine ⟨cut, fun s ↦ ⟨quote s, rfl, ?_⟩⟩
  exact {
    oneLine := (fragment_quote s).oneLine
    visible := Text.visible_around hp s q
    nesting := Text.nesting_around hp s q
    arguments := harguments s
    terminator := Text.terminator?_around hp s q
    comment := Text.uncommented_around hp s q }

/-- A string of punctuation and the empty string, in front of a slash and behind one. -/
theorem strings_conceal_contents_punctuation :
    Mode.outside.after "f(1,/".toList = .outside ∧
      ∃ cut : Text.CutAround "f(1,/".toList "/,2); //".toList,
        Text.Conceals cut "\"),;//\\\"\\n\"".toList ∧ Text.Conceals cut "\"\"".toList := by
  have houtside : Mode.outside.after "f(1,/".toList = .outside := by decide
  obtain ⟨cut, hcut⟩ := strings_conceal_contents houtside "/,2); //".toList
  refine ⟨houtside, cut, ?_, ?_⟩
  · obtain ⟨literal, hprint, hconceals⟩ := hcut "),;//\"\n".toList
    have hliteral : print? ⟨.string, .str "),;//\"\n".toList⟩ =
        some "\"),;//\\\"\\n\"".toList := by
      decide
    obtain rfl := Option.some.inj (hprint.symm.trans hliteral)
    exact hconceals
  · obtain ⟨literal, hprint, hconceals⟩ := hcut []
    obtain rfl := Option.some.inj hprint
    exact hconceals

end Literal

end Lilac
