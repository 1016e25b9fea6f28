import Lilac.Proofs.Trimming
import Lilac.Term.Parser

/-!
# What the readers of a text see

Every reader of the language walks a text with a quotation mode and reacts only to visible
characters. The visible characters of a concatenation are those of its parts, the second part read
in the mode the first one leaves behind; nesting, argument cutting and the search for the
terminator all follow from that. A text is *whole* if it is a single argument wherever it stands
between top-level commas, and *sealed* if that holds below any greater number of open parentheses
and no terminator is visible in it.
-/

namespace Lilac

namespace Mode

@[simp] theorem after_nil (mode : Mode) : mode.after [] = mode := rfl

@[simp] theorem after_cons (mode : Mode) (c : Char) (t : Text) :
    mode.after (c :: t) = (mode.next c).after t := rfl

/-- Reading two texts is reading the first one and then the second. -/
@[simp] theorem after_append (mode : Mode) (a b : Text) :
    mode.after (a ++ b) = (mode.after a).after b :=
  List.foldl_append

/-- Only a double quote leads into a string literal. -/
theorem next_outside {c : Char} (h : c ≠ '"') : Mode.outside.next c = .outside := by
  simp [next, h]

/-- A visible character that is no quote is read outside string literals. -/
theorem eq_outside_of_shows {mode : Mode} {c : Char} (h : mode.shows c = true) (hc : c ≠ '"') :
    mode = .outside := by
  cases mode with
  | outside => rfl
  | inside => simp [shows, hc] at h
  | escaped => simp [shows] at h

/-- A text without quotes is read outside string literals to its end. -/
theorem after_outside {t : Text} (h : '"' ∉ t) : Mode.outside.after t = .outside := by
  induction t with
  | nil => rfl
  | cons c t ih =>
    obtain ⟨hc, ht⟩ := not_or.mp (mt List.mem_cons.mpr h)
    rw [after_cons, next_outside (Ne.symm hc), ih ht]

end Mode

namespace Text

/-! ## Visible characters -/

/-- The visible characters of a text, for a reader that starts in the given mode. -/
def shown (mode : Mode) : Text → List Char
  | [] => []
  | c :: t => if mode.shows c then c :: shown (mode.next c) t else shown (mode.next c) t

/-- The visible characters are those that are listed with their positions. -/
theorem map_snd_visibleFrom (mode : Mode) (position : Nat) (t : Text) :
    (visibleFrom mode position t).map (·.2) = shown mode t := by
  induction t generalizing mode position with
  | nil => rfl
  | cons c t ih =>
    simp only [visibleFrom, shown]
    split
    · rw [List.map_cons, ih]
    · rw [ih]

/-- The visible characters of two texts, with their positions. -/
theorem visibleFrom_append (mode : Mode) (position : Nat) (a b : Text) :
    visibleFrom mode position (a ++ b) =
      visibleFrom mode position a ++ visibleFrom (mode.after a) (position + a.length) b := by
  induction a generalizing mode position with
  | nil => rfl
  | cons c a ih =>
    simp only [List.cons_append, visibleFrom, ih, Mode.after_cons, List.length_cons]
    rw [show position + 1 + a.length = position + (a.length + 1) by omega]
    split
    · rfl
    · rfl

/-- The visible characters of two texts are those of the first, then those of the second. -/
@[simp] theorem shown_append (mode : Mode) (a b : Text) :
    shown mode (a ++ b) = shown mode a ++ shown (mode.after a) b := by
  induction a generalizing mode with
  | nil => rfl
  | cons c a ih =>
    simp only [List.cons_append, shown, ih, Mode.after_cons]
    split
    · rfl
    · rfl

@[simp] theorem shown_nil (mode : Mode) : shown mode [] = [] := rfl

/-- Outside string literals the next character is visible. -/
@[simp] theorem shown_outside_cons (c : Char) (t : Text) :
    shown .outside (c :: t) = c :: shown (Mode.outside.next c) t := rfl

/-- All characters of a text without quotes are visible. -/
theorem shown_outside {t : Text} (h : '"' ∉ t) : shown .outside t = t := by
  induction t with
  | nil => rfl
  | cons c t ih =>
    obtain ⟨hc, ht⟩ := not_or.mp (mt List.mem_cons.mpr h)
    rw [shown_outside_cons, Mode.next_outside (Ne.symm hc), ih ht]

/-- A prefix shows a prefix of the visible characters. -/
theorem shown_isPrefix {a t : Text} (h : a <+: t) (mode : Mode) :
    shown mode a <+: shown mode t := by
  obtain ⟨b, rfl⟩ := h
  exact ⟨shown (mode.after a) b, (shown_append mode a b).symm⟩

/-! ## Open parentheses -/

/-- How many more parentheses are open after some characters than before them. -/
def balance : List Char → Int
  | [] => 0
  | c :: cs => parenthesisStep c + balance cs

/-- The greatest number of open parentheses after any prefix of some characters. -/
def peak (cs : List Char) : Int := deepestFrom 0 0 cs

@[simp] theorem balance_nil : balance [] = 0 := rfl

@[simp] theorem balance_cons (c : Char) (cs : List Char) :
    balance (c :: cs) = parenthesisStep c + balance cs := rfl

@[simp] theorem balance_append (a b : List Char) : balance (a ++ b) = balance a + balance b := by
  induction a with
  | nil => simp
  | cons c a ih => rw [List.cons_append, balance_cons, ih, balance_cons, Int.add_assoc]

@[simp] theorem peak_nil : peak [] = 0 := rfl

/-- Starting with parentheses open only shifts the greatest number. -/
theorem deepestFrom_eq {depth deepest : Int} (h : depth ≤ deepest) (cs : List Char) :
    deepestFrom depth deepest cs = max deepest (depth + peak cs) := by
  induction cs generalizing depth deepest with
  | nil =>
    simp only [deepestFrom, peak_nil]
    omega
  | cons c cs ih =>
    have hpeak : peak (c :: cs) = max (max 0 (0 + parenthesisStep c))
        (0 + parenthesisStep c + peak cs) := ih (by omega)
    rw [deepestFrom, ih (by omega), hpeak]
    omega

/-- The greatest number of open parentheses is not negative. -/
theorem peak_nonneg (cs : List Char) : 0 ≤ peak cs := by
  cases cs with
  | nil => exact Int.le_refl 0
  | cons c cs =>
    rw [peak, deepestFrom, deepestFrom_eq (by omega)]
    omega

/-- A character in front shifts the greatest number by its own step. -/
theorem peak_cons (c : Char) (cs : List Char) :
    peak (c :: cs) = max 0 (parenthesisStep c + peak cs) := by
  have hcs := peak_nonneg cs
  rw [peak, deepestFrom, deepestFrom_eq (by omega)]
  omega

/-- The greatest number is reached in the first part, or in the second on top of what the first
leaves open. -/
theorem peak_append (a b : List Char) : peak (a ++ b) = max (peak a) (balance a + peak b) := by
  induction a with
  | nil =>
    have hb := peak_nonneg b
    simp only [List.nil_append, peak_nil, balance_nil]
    omega
  | cons c a ih =>
    rw [List.cons_append, peak_cons, ih, peak_cons, balance_cons]
    omega

/-- A prefix opens no more parentheses than the whole. -/
theorem peak_le_of_isPrefix {a t : List Char} (h : a <+: t) : peak a ≤ peak t := by
  obtain ⟨b, rfl⟩ := h
  rw [peak_append]
  omega

/-- Nesting is the greatest number of visible open parentheses. -/
theorem nesting_eq (t : Text) : (t.nesting : Int) = peak (shown .outside t) := by
  have h := peak_nonneg (shown .outside t)
  rw [nesting, visible, map_snd_visibleFrom, ← peak, Int.toNat_of_nonneg h]

/-- A character other than the two parentheses leaves the number of open ones alone. -/
theorem parenthesisStep_eq_zero {c : Char} (hopen : c ≠ '(') (hclose : c ≠ ')') :
    parenthesisStep c = 0 := by
  unfold parenthesisStep
  split
  · exact absurd rfl hopen
  · exact absurd rfl hclose
  · rfl

/-- Characters without parentheses change nothing. -/
theorem balance_eq_zero {cs : List Char} (h : ∀ c ∈ cs, c ≠ '(' ∧ c ≠ ')') : balance cs = 0 := by
  induction cs with
  | nil => rfl
  | cons c cs ih =>
    obtain ⟨hopen, hclose⟩ := h c List.mem_cons_self
    rw [balance_cons, parenthesisStep_eq_zero hopen hclose,
      ih fun d hd ↦ h d (List.mem_cons_of_mem c hd)]
    rfl

/-- Characters without parentheses open none. -/
theorem peak_eq_zero {cs : List Char} (h : ∀ c ∈ cs, c ≠ '(' ∧ c ≠ ')') : peak cs = 0 := by
  induction cs with
  | nil => rfl
  | cons c cs ih =>
    obtain ⟨hopen, hclose⟩ := h c List.mem_cons_self
    rw [peak_cons, parenthesisStep_eq_zero hopen hclose,
      ih fun d hd ↦ h d (List.mem_cons_of_mem c hd)]
    rfl

/-! ## Closed texts -/

/-- A text that ends outside string literals with as many parentheses open as before it. -/
structure Closed (t : Text) : Prop where
  outside : Mode.outside.after t = .outside
  balanced : balance (shown .outside t) = 0

namespace Closed

variable {a b t : Text}

/-- Two closed texts in a row are closed. -/
theorem append (ha : Closed a) (hb : Closed b) : Closed (a ++ b) where
  outside := by rw [Mode.after_append, ha.outside, hb.outside]
  balanced := by rw [shown_append, ha.outside, balance_append, ha.balanced, hb.balanced]; rfl

/-- A closed text in front does not add to the nesting of what follows it. -/
theorem peak_append (ha : Closed a) (b : Text) :
    peak (shown .outside (a ++ b)) = max (peak (shown .outside a)) (peak (shown .outside b)) := by
  rw [shown_append, ha.outside, Text.peak_append, ha.balanced, Int.zero_add]

/-- Parentheses around a closed text are both visible. -/
theorem shown_parenthesised (h : Closed t) :
    shown .outside ('(' :: t ++ [')']) = '(' :: (shown .outside t ++ [')']) := by
  have hnext : Mode.outside.next '(' = .outside := rfl
  rw [List.cons_append, shown_outside_cons, hnext, shown_append, h.outside]
  rfl

/-- Parentheses around a closed text nest one deeper. -/
theorem peak_parenthesised (h : Closed t) :
    peak (shown .outside ('(' :: t ++ [')'])) = peak (shown .outside t) + 1 := by
  have hopen : parenthesisStep '(' = 1 := rfl
  have hclose : peak [')'] = 0 := rfl
  have ht := peak_nonneg (shown .outside t)
  rw [h.shown_parenthesised, peak_cons, Text.peak_append, h.balanced, hopen, hclose]
  omega

end Closed

/-- Closed texts joined with a closed separator are closed. -/
theorem closed_join {separator : Text} (hseparator : Closed separator) {ps : List Text}
    (h : ∀ p ∈ ps, Closed p) : Closed (join separator ps) :=
  join_of_append ⟨rfl, rfl⟩ Closed.append hseparator h

/-- Closed texts that are joined with a flat separator nest as deeply as the deepest of them. -/
theorem peak_join_cons {separator : Text} (hseparator : Closed separator)
    (hflat : peak (shown .outside separator) = 0) {p : Text} (hp : Closed p) (ps : List Text) :
    peak (shown .outside (join separator (p :: ps))) =
      max (peak (shown .outside p)) (peak (shown .outside (join separator ps))) := by
  cases ps with
  | nil =>
    have h := peak_nonneg (shown .outside p)
    simp only [join, shown_nil, peak_nil]
    omega
  | cons q ps =>
    have hrest := peak_nonneg (shown .outside (join separator (q :: ps)))
    rw [join_cons_cons, hp.peak_append, hseparator.peak_append, hflat]
    omega

/-! ## Cutting argument lists -/

/-- No comma stands among some characters where no parenthesis is open, when `depth` are open
before them. -/
def Uncut : Int → List Char → Prop
  | _, [] => True
  | depth, c :: cs => ¬(c = ',' ∧ depth = 0) ∧ Uncut (depth + parenthesisStep c) cs

/-- Two parts hold no top-level comma exactly when neither does. -/
theorem uncut_append {depth : Int} {a b : List Char} :
    Uncut depth (a ++ b) ↔ Uncut depth a ∧ Uncut (depth + balance a) b := by
  induction a generalizing depth with
  | nil => simp [Uncut]
  | cons c a ih =>
    rw [List.cons_append, Uncut, Uncut, ih, balance_cons, and_assoc, Int.add_assoc]

/-- Characters without commas hold no top-level comma. -/
theorem uncut_of_not_mem {cs : List Char} (h : ',' ∉ cs) (depth : Int) : Uncut depth cs := by
  induction cs generalizing depth with
  | nil => trivial
  | cons c cs ih =>
    obtain ⟨hc, hcs⟩ := not_or.mp (mt List.mem_cons.mpr h)
    exact ⟨fun hcut ↦ hc hcut.1.symm, ih hcs _⟩

/-- A text in front of the first of several pieces. -/
theorem foldr_consHead (a p : Text) (ps : List Text) :
    a.foldr consHead (p :: ps) = (a ++ p) :: ps := by
  induction a with
  | nil => rfl
  | cons c a ih => rw [List.foldr_cons, ih, consHead, List.cons_append]

/-- A text without a top-level comma goes in front of the first piece of what follows it. -/
theorem argumentPiecesFrom_append {mode : Mode} {depth : Int} {a : Text}
    (h : Uncut depth (shown mode a)) (b : Text) :
    argumentPiecesFrom mode depth (a ++ b) =
      a.foldr consHead
        (argumentPiecesFrom (mode.after a) (depth + balance (shown mode a)) b) := by
  induction a generalizing mode depth with
  | nil => simp
  | cons c a ih =>
    rw [List.cons_append, argumentPiecesFrom, List.foldr_cons, Mode.after_cons]
    rw [shown] at h ⊢
    by_cases hshows : mode.shows c = true
    · rw [if_pos hshows] at h
      rw [if_pos hshows, if_pos hshows, if_neg h.1, ih h.2, balance_cons, Int.add_assoc]
    · rw [if_neg hshows] at h
      rw [if_neg hshows, if_neg hshows, ih h]

/-- A text that is a single argument between top-level commas: it ends outside string literals with
as many parentheses open as before it, and holds no top-level comma. -/
structure Whole (t : Text) : Prop where
  outside : Mode.outside.after t = .outside
  balanced : balance (shown .outside t) = 0
  uncut : Uncut 0 (shown .outside t)

theorem Whole.closed {t : Text} (h : Whole t) : Closed t := ⟨h.outside, h.balanced⟩

private theorem Whole.argumentPieces {t : Text} (h : Whole t) :
    argumentPiecesFrom .outside 0 t = [t] := by
  have happend := argumentPiecesFrom_append h.uncut []
  rw [List.append_nil] at happend
  rw [happend, argumentPiecesFrom, foldr_consHead, List.append_nil]

private theorem Whole.argumentPieces_append {t : Text} (h : Whole t) (rest : Text) :
    argumentPiecesFrom .outside 0 (t ++ ',' :: rest) = t :: argumentPiecesFrom .outside 0 rest := by
  have hcut : argumentPiecesFrom .outside 0 (',' :: rest) =
      [] :: argumentPiecesFrom .outside 0 rest := rfl
  rw [argumentPiecesFrom_append h.uncut, h.outside, h.balanced, Int.add_zero, hcut, foldr_consHead,
    List.append_nil]

/-- Cutting at top-level commas undoes joining whole texts with commas. -/
theorem argumentPieces_join {ps : List Text} (hne : ps ≠ []) (h : ∀ p ∈ ps, Whole p) :
    argumentPiecesFrom .outside 0 (join [','] ps) = ps := by
  induction ps with
  | nil => exact absurd rfl hne
  | cons p ps ih =>
    have hp := h p List.mem_cons_self
    cases ps with
    | nil => exact hp.argumentPieces
    | cons q ps =>
      rw [join_cons_cons, List.singleton_append, hp.argumentPieces_append,
        ih (List.cons_ne_nil q ps) fun r hr ↦ h r (List.mem_cons_of_mem p hr)]

private theorem dropBlankTail_eq_self {ps : List Text} (h : ∀ p ∈ ps.getLast?, trim p ≠ []) :
    dropBlankTail ps = ps := by
  induction ps with
  | nil => rfl
  | cons p ps ih =>
    cases ps with
    | nil => rw [dropBlankTail, if_neg (h p rfl)]
    | cons q ps =>
      rw [dropBlankTail, ih (by simpa using h)]
      exact List.cons_ne_nil q ps

/-- The arguments of a list of whole texts joined with commas are those texts, if the last one is
not blank. -/
theorem arguments_join {ps : List Text} (h : ∀ p ∈ ps, Whole p)
    (hlast : ∀ p ∈ ps.getLast?, trim p ≠ []) : arguments (join [','] ps) = ps := by
  cases ps with
  | nil => rfl
  | cons p ps =>
    rw [arguments, argumentPieces_join (List.cons_ne_nil p ps) h, dropBlankTail_eq_self hlast]

/-- Pieces of a text of which the first is a prefix, while none of the others, read as a text of
its own, opens more parentheses than a bound. -/
def PiecesWithin (bound : Int) (t : Text) : List Text → Prop
  | [] => True
  | first :: rest => first <+: t ∧ ∀ p ∈ rest, peak (shown .outside p) ≤ bound

private theorem PiecesWithin.consHead {bound bound' : Int} {t : Text} {ps : List Text}
    (h : PiecesWithin bound t ps) (hle : bound ≤ bound') (c : Char) :
    PiecesWithin bound' (c :: t) (consHead c ps) := by
  cases ps with
  | nil => exact ⟨List.cons_prefix_cons.mpr ⟨rfl, List.nil_prefix⟩, List.forall_mem_nil _⟩
  | cons p ps =>
    exact ⟨List.cons_prefix_cons.mpr ⟨rfl, h.1⟩, fun q hq ↦ Int.le_trans (h.2 q hq) hle⟩

/-- No piece of a text opens more parentheses than the text, if the first is read from where the
text is. -/
theorem PiecesWithin.peak_le {bound : Int} {t : Text} {ps : List Text}
    (h : PiecesWithin bound t ps) (hbound : peak (shown .outside t) ≤ bound) :
    ∀ p ∈ ps, peak (shown .outside p) ≤ bound := by
  cases ps with
  | nil => exact List.forall_mem_nil _
  | cons first rest =>
    have hfirst := peak_le_of_isPrefix (shown_isPrefix h.1 .outside)
    exact List.forall_mem_cons.mpr ⟨Int.le_trans hfirst hbound, h.2⟩

/-- The first piece of an argument list is a prefix of it, and the others are read as texts of their
own: none opens more parentheses than the list does above its depth. -/
private theorem piecesWithin_argumentPieces (mode : Mode) (depth : Int) (t : Text) :
    PiecesWithin (depth + peak (shown mode t)) t (argumentPiecesFrom mode depth t) := by
  induction t generalizing mode depth with
  | nil => exact ⟨List.nil_prefix, List.forall_mem_nil _⟩
  | cons c t ih =>
    rw [argumentPiecesFrom]
    split
    · next hshows =>
      have hpeak := peak_cons c (shown (mode.next c) t)
      rw [shown, if_pos hshows, hpeak]
      split
      · next hcut =>
        -- A cut: the reader is outside string literals and at depth zero on both sides.
        obtain ⟨rfl, rfl⟩ := hcut
        obtain rfl := Mode.eq_outside_of_shows hshows (by decide)
        have hnext : Mode.outside.next ',' = .outside := rfl
        have hstep : parenthesisStep ',' = 0 := rfl
        rw [hnext, hstep]
        have hrest := (ih .outside 0).peak_le (by omega)
        exact ⟨List.nil_prefix, fun p hp ↦ Int.le_trans (hrest p hp) (by omega)⟩
      · exact (ih _ _).consHead (by omega) c
    · next hshows =>
      rw [shown, if_neg hshows]
      exact (ih _ _).consHead (Int.le_refl _) c

/-- No argument nests more deeply than the argument list. -/
theorem peak_le_of_mem_arguments {t p : Text} (h : p ∈ t.arguments) :
    peak (shown .outside p) ≤ peak (shown .outside t) := by
  have hwithin := piecesWithin_argumentPieces .outside 0 t
  rw [Int.zero_add] at hwithin
  exact hwithin.peak_le (Int.le_refl _) p (mem_of_mem_dropBlankTail h)

private theorem blank_not_punctuation {c : Char} (h : isBlank c = true) :
    c ≠ '"' ∧ c ≠ '(' ∧ c ≠ ')' ∧ c ≠ ',' ∧ c ≠ ';' ∧ c ≠ '/' := by
  refine ⟨?_, ?_, ?_, ?_, ?_, ?_⟩ <;> (rintro rfl; revert h; decide)

/-- Trimming a text does not make it nest more deeply. -/
theorem peak_trim_le (t : Text) : peak (shown .outside (trim t)) ≤ peak (shown .outside t) := by
  obtain ⟨a, b, ha, -, ht⟩ := exists_eq_append_trim_append t
  have hquote : '"' ∉ a := fun h ↦ (blank_not_punctuation (ha _ h)).1 rfl
  have hparens : ∀ c ∈ a, c ≠ '(' ∧ c ≠ ')' := fun c hc ↦
    ⟨(blank_not_punctuation (ha c hc)).2.1, (blank_not_punctuation (ha c hc)).2.2.1⟩
  have hpeak : peak (shown .outside (a ++ trim t)) =
      max 0 (0 + peak (shown .outside (trim t))) := by
    rw [shown_append, shown_outside hquote, Mode.after_outside hquote, peak_append,
      peak_eq_zero hparens, balance_eq_zero hparens]
  have hpre : a ++ trim t <+: t := ⟨b, ht.symm⟩
  have hle := peak_le_of_isPrefix (shown_isPrefix hpre .outside)
  omega

/-! ## Sealed texts -/

/-- A text that no reader looks into where at least `least` parentheses are open: it ends outside
string literals with as many parentheses open as before it, holds no top-level comma, and shows no
terminator. -/
structure Sealed (least : Int) (t : Text) : Prop where
  outside : Mode.outside.after t = .outside
  balanced : balance (shown .outside t) = 0
  uncut : ∀ depth : Int, least ≤ depth → Uncut depth (shown .outside t)
  unterminated : ';' ∉ shown .outside t

/-- A sealed text is a single argument. -/
theorem Sealed.whole {t : Text} (h : Sealed 0 t) : Whole t :=
  ⟨h.outside, h.balanced, h.uncut 0 (Int.le_refl 0)⟩

/-- A sealed text is sealed below more open parentheses. -/
theorem Sealed.mono {least more : Int} {t : Text} (h : Sealed least t) (hle : least ≤ more) :
    Sealed more t :=
  { h with uncut := fun depth hdepth ↦ h.uncut depth (Int.le_trans hle hdepth) }

theorem Sealed.closed {least : Int} {t : Text} (h : Sealed least t) : Closed t :=
  ⟨h.outside, h.balanced⟩

/-- Two sealed texts in a row are sealed. -/
theorem Sealed.append {least : Int} {a b : Text} (ha : Sealed least a) (hb : Sealed least b) :
    Sealed least (a ++ b) where
  outside := (ha.closed.append hb.closed).outside
  balanced := (ha.closed.append hb.closed).balanced
  uncut depth hdepth := by
    rw [shown_append, ha.outside, uncut_append, ha.balanced, Int.add_zero]
    exact ⟨ha.uncut depth hdepth, hb.uncut depth hdepth⟩
  unterminated := by
    rw [shown_append, ha.outside, List.mem_append, not_or]
    exact ⟨ha.unterminated, hb.unterminated⟩

/-- Sealed texts joined with a sealed separator are sealed. -/
theorem sealed_join {least : Int} {separator : Text} (hseparator : Sealed least separator)
    {ps : List Text} (h : ∀ p ∈ ps, Sealed least p) : Sealed least (join separator ps) :=
  join_of_append ⟨rfl, rfl, fun _ _ ↦ trivial, List.not_mem_nil⟩ Sealed.append hseparator h

/-- Below an open parenthesis a comma and a space are sealed. -/
theorem sealed_comma_space : Sealed 1 [',', ' '] where
  outside := rfl
  balanced := rfl
  uncut depth hdepth := by
    have hne : depth ≠ 0 := by omega
    simp [shown, Mode.shows, Mode.next, Uncut, parenthesisStep, hne]
  unterminated := by decide

/-- Parentheses seal what is sealed below one of them. -/
theorem Sealed.parenthesised {t : Text} (h : Sealed 1 t) : Sealed 0 ('(' :: t ++ [')']) where
  outside := by
    have hnext : Mode.outside.next '(' = .outside := rfl
    rw [List.cons_append, Mode.after_cons, hnext, Mode.after_append, h.outside]
    rfl
  balanced := by
    rw [h.closed.shown_parenthesised, balance_cons, balance_append, h.balanced]
    rfl
  uncut depth hdepth := by
    have hopen : parenthesisStep '(' = 1 := rfl
    rw [h.closed.shown_parenthesised]
    refine ⟨fun hcut ↦ absurd hcut.1 (by decide), uncut_append.mpr ⟨?_, ?_⟩⟩
    · exact h.uncut _ (by omega)
    · exact uncut_of_not_mem (by decide) _
  unterminated := by
    rw [h.closed.shown_parenthesised, List.mem_cons, List.mem_append, not_or, not_or]
    exact ⟨by decide, h.unterminated, by decide⟩

/-- The characters that no reader reacts to. -/
def IsPlain (c : Char) : Prop := c ≠ '"' ∧ c ≠ '(' ∧ c ≠ ')' ∧ c ≠ ',' ∧ c ≠ ';'

instance (c : Char) : Decidable (IsPlain c) :=
  inferInstanceAs (Decidable (c ≠ '"' ∧ c ≠ '(' ∧ c ≠ ')' ∧ c ≠ ',' ∧ c ≠ ';'))

/-- A word character is plain. -/
theorem isPlain_of_isWord {c : Char} (h : isWord c = true) : IsPlain c :=
  ⟨ne_of_isWord h (by decide), ne_of_isWord h (by decide),
    ne_of_isWord h (by decide), ne_of_isWord h (by decide),
    ne_of_isWord h (by decide)⟩

/-- A text of plain characters is visible from end to end. -/
theorem shown_outside_of_plain {t : Text} (h : ∀ c ∈ t, IsPlain c) : shown .outside t = t :=
  shown_outside fun hc ↦ (h _ hc).1 rfl

/-- A text of plain characters opens no parentheses. -/
theorem peak_of_plain {t : Text} (h : ∀ c ∈ t, IsPlain c) : peak (shown .outside t) = 0 := by
  rw [shown_outside_of_plain h]
  exact peak_eq_zero fun c hc ↦ ⟨(h c hc).2.1, (h c hc).2.2.1⟩

/-- A text of plain characters is sealed. -/
theorem sealed_of_plain {t : Text} (h : ∀ c ∈ t, IsPlain c) : Sealed 0 t where
  outside := Mode.after_outside fun hc ↦ (h _ hc).1 rfl
  balanced := by
    rw [shown_outside_of_plain h]
    exact balance_eq_zero fun c hc ↦ ⟨(h c hc).2.1, (h c hc).2.2.1⟩
  uncut depth _ := by
    rw [shown_outside_of_plain h]
    exact uncut_of_not_mem (fun hc ↦ (h _ hc).2.2.2.1 rfl) depth
  unterminated := by
    rw [shown_outside_of_plain h]
    exact fun hc ↦ (h _ hc).2.2.2.2 rfl

/-! ## The terminator -/

/-- The position of the first semicolon among the visible characters. -/
theorem terminator?_eq (t : Text) :
    terminator? t = (t.visible.find? fun x ↦ x.2 = ';').map (·.1) := rfl

/-- A semicolon behind a text that ends outside string literals and shows none is the first. -/
theorem terminator?_append {a : Text} (houtside : Mode.outside.after a = .outside)
    (h : ';' ∉ shown .outside a) (b : Text) : terminator? (a ++ ';' :: b) = some a.length := by
  have hnone : (visibleFrom .outside 0 a).find? (fun x ↦ x.2 = ';') = none := by
    rw [List.find?_eq_none]
    intro x hx hc
    rw [← map_snd_visibleFrom .outside 0] at h
    exact h (List.mem_map.mpr ⟨x, hx, by simpa using hc⟩)
  rw [terminator?_eq, visible, visibleFrom_append, List.find?_append, hnone, houtside]
  simp [visibleFrom, Mode.shows]

private theorem terminator_from {mode : Mode} {position : Nat} {t : Text} {n : Nat}
    (h : ((visibleFrom mode position t).find? fun x ↦ x.2 = ';').map (·.1) = some n) :
    ∃ a b : Text, t = a ++ ';' :: b ∧ n = position + a.length ∧
      mode.after a = .outside ∧ ';' ∉ shown mode a := by
  induction t generalizing mode position with
  | nil => simp [visibleFrom] at h
  | cons c t ih =>
    -- A character that is no visible semicolon only lengthens the part in front of the first one.
    have later (hc : ¬(mode.shows c = true ∧ c = ';'))
        (hrest : ((visibleFrom (mode.next c) (position + 1) t).find? fun x ↦ x.2 = ';').map
          (·.1) = some n) :
        ∃ a b : Text, c :: t = a ++ ';' :: b ∧ n = position + a.length ∧
          mode.after a = .outside ∧ ';' ∉ shown mode a := by
      obtain ⟨a, b, rfl, hn, hafter, hshown⟩ := ih hrest
      refine ⟨c :: a, b, rfl, by rw [List.length_cons]; omega, hafter, ?_⟩
      rw [shown]
      split
      · next hshows =>
        rw [List.mem_cons, not_or]
        exact ⟨fun he ↦ hc ⟨hshows, he.symm⟩, hshown⟩
      · exact hshown
    simp only [visibleFrom] at h
    split at h
    · next hshows =>
      by_cases hc : c = ';'
      · subst hc
        refine ⟨[], t, rfl, ?_, Mode.eq_outside_of_shows hshows (by decide), List.not_mem_nil⟩
        simpa using h.symm
      · exact later (fun hboth ↦ hc hboth.2) (by simpa [hc] using h)
    · next hshows => exact later (fun hboth ↦ hshows hboth.1) h

/-- The first semicolon outside string literals stands behind a text that ends outside string
literals and shows none. -/
theorem exists_of_terminator? {t : Text} {n : Nat} (h : terminator? t = some n) :
    ∃ a b : Text, t = a ++ ';' :: b ∧ n = a.length ∧ Mode.outside.after a = .outside ∧
      ';' ∉ shown .outside a := by
  obtain ⟨a, b, ht, hn, hafter, hshown⟩ := terminator_from h
  exact ⟨a, b, ht, by omega, hafter, hshown⟩

/-! ## Comments -/

/-- A character starts a comment only if it is the first of two slashes outside string literals. -/
theorem uncommentedFrom_cons {mode : Mode} {c : Char} {t : Text}
    (h : ¬(mode = .outside ∧ c = '/' ∧ t.head? = some '/')) :
    uncommentedFrom mode (c :: t) = c :: uncommentedFrom (mode.next c) t := by
  rw [uncommentedFrom]
  rintro rest rfl rfl rfl
  exact h ⟨rfl, rfl, rfl⟩

/-- What stands in front of a comment is a prefix of the text. -/
theorem uncommentedFrom_isPrefix (mode : Mode) (t : Text) : uncommentedFrom mode t <+: t := by
  induction t generalizing mode with
  | nil => exact List.prefix_rfl
  | cons c t ih =>
    by_cases h : mode = .outside ∧ c = '/' ∧ t.head? = some '/'
    · obtain ⟨rfl, rfl, ht⟩ := h
      cases t with
      | nil => cases ht
      | cons d t =>
        obtain rfl := Option.some.inj ht
        exact List.nil_prefix
    · rw [uncommentedFrom_cons h]
      exact List.cons_prefix_cons.mpr ⟨rfl, ih _⟩

/-- No comment starts in a text without slashes. -/
theorem uncommentedFrom_append {a : Text} (h : '/' ∉ a) (mode : Mode) (b : Text) :
    uncommentedFrom mode (a ++ b) = a ++ uncommentedFrom (mode.after a) b := by
  induction a generalizing mode with
  | nil => rfl
  | cons c a ih =>
    obtain ⟨hc, ha⟩ := not_or.mp (mt List.mem_cons.mpr h)
    rw [List.cons_append, uncommentedFrom_cons fun hcomment ↦ hc hcomment.2.1.symm, ih ha]
    rfl

/-- A text without slashes holds no comment. -/
theorem uncommented_of_not_mem {t : Text} (h : '/' ∉ t) : uncommented t = t := by
  have happend := uncommentedFrom_append h .outside []
  rwa [List.append_nil, uncommentedFrom, List.append_nil] at happend

end Text

end Lilac
