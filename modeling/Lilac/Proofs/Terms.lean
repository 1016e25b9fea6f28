import Lilac.Proofs.Literals

/-!
# Terms read back

A term is well formed if its calls have names and its literals are well formed. Reading gives only
well-formed terms, no more deeply nested than the parentheses of the text, however unbalanced that
text is; and a well-formed term that nests no more deeply than is read has a text from which it is
read back, holes included.

About `format_term` and `parse_function_call`. Specification: `SPEC_FULL.md`, section 8.
-/

namespace Lilac

/-- What can be given for each element of a list can be given for the list. -/
theorem mapM_eq_some_map {α β : Type} {f : α → Option β} {g : α → β} {xs : List α}
    (h : ∀ x ∈ xs, f x = some (g x)) : xs.mapM f = some (xs.map g) := by
  induction xs with
  | nil => rfl
  | cons x xs ih =>
    obtain ⟨hx, hxs⟩ := List.forall_mem_cons.mp h
    rw [List.mapM_cons, hx, ih hxs]
    rfl

namespace Text

/-! ## Calls -/

/-- A name, an opening parenthesis, anything and a closing parenthesis make up a call. -/
theorem callParts?_call {name : Text} (h : isName name = true) (inner : Text) :
    callParts? (name ++ ('(' :: inner ++ [')'])) = some (name, inner) := by
  obtain ⟨hne, hword⟩ := isName_iff.mp h
  obtain ⟨c, rest, rfl⟩ := List.exists_cons_of_ne_nil hne
  have hopen : isWord '(' = false := by decide
  have hcons : '(' :: inner ++ [')'] = '(' :: (inner ++ [')']) := rfl
  rw [callParts?, hcons, takeWhile_isWord_append hword hopen, dropWhile_isWord_append hword hopen]
  simp

/-- The parts of a call make up its text. -/
theorem eq_of_callParts? {t name inner : Text} (h : callParts? t = some (name, inner)) :
    t = name ++ ('(' :: inner ++ [')']) ∧ isName name = true := by
  unfold callParts? at h
  split at h
  · next c word rest hword hrest =>
    split at h
    · next hlast =>
      obtain ⟨rfl, rfl⟩ := Prod.mk.inj (Option.some.inj h)
      obtain ⟨inner, rfl⟩ := List.getLast?_eq_some_iff.mp hlast
      rw [List.dropLast_concat]
      constructor
      · have happend := List.takeWhile_append_dropWhile (p := isWord) (l := t)
        rw [hword, hrest] at happend
        exact happend.symm
      · refine isName_iff.mpr ⟨List.cons_ne_nil c word, ?_⟩
        rw [← hword]
        exact fun d hd ↦ List.all_eq_true.mp List.all_takeWhile d hd
    · cases h
  · cases h

/-- The argument list of a call nests at least one less deeply than the call. -/
theorem peak_lt_of_callParts? {t name inner : Text} (h : callParts? t = some (name, inner)) :
    peak (shown .outside inner) < peak (shown .outside t) := by
  obtain ⟨rfl, hname⟩ := eq_of_callParts? h
  have hopen : parenthesisStep '(' = 1 := rfl
  have hshown : shown .outside ('(' :: inner) = '(' :: shown .outside inner := rfl
  have hpre : name ++ '(' :: inner <+: name ++ ('(' :: inner ++ [')']) :=
    ⟨[')'], List.append_assoc _ _ _⟩
  have hle := peak_le_of_isPrefix (shown_isPrefix hpre .outside)
  rw [(fragment_of_isName hname).closed.peak_append, hshown, peak_cons, hopen] at hle
  omega

/-- A call with a closed argument list nests one deeper than the list. -/
theorem peak_call {name : Text} (hname : isName name = true) {inner : Text}
    (hinner : Closed inner) :
    peak (shown .outside (name ++ ('(' :: inner ++ [')']))) = peak (shown .outside inner) + 1 := by
  have hflat := peak_of_plain fun c hc ↦ (plain_of_words (isName_iff.mp hname).2 c hc).1
  have hnonneg := peak_nonneg (shown .outside inner)
  rw [(fragment_of_isName hname).closed.peak_append, hinner.peak_parenthesised, hflat]
  omega

private theorem fragment_call {name : Text} (hname : isName name = true) {ps : List Text}
    (h : ∀ p ∈ ps, Fragment p) :
    Fragment (name ++ ('(' :: join [',', ' '] ps ++ [')'])) := by
  have hfragment := fragment_of_isName hname
  have hjoin := sealed_join sealed_comma_space fun p hp ↦ (h p hp).mono (by decide)
  refine ⟨hfragment.append hjoin.parenthesised, ?_, ⟨?_, ?_⟩, ?_⟩
  · exact fun hnil ↦ hfragment.ne_nil (List.append_eq_nil_iff.mp hnil).1
  · intro c hc
    obtain ⟨d, rest, hd⟩ := List.exists_cons_of_ne_nil hfragment.ne_nil
    apply hfragment.tight.1
    rw [hd] at hc ⊢
    exact hc
  · intro c hc
    rw [← List.append_assoc, List.getLast?_concat] at hc
    obtain rfl := Option.some.inj hc
    decide
  · have hfeed : '\n' ∉ join [',', ' '] ps := not_mem_join (by decide) fun p hp ↦ (h p hp).oneLine
    simp only [List.mem_append, List.mem_cons, not_or]
    exact ⟨hfragment.oneLine, ⟨by decide, hfeed⟩, by decide, List.not_mem_nil⟩

/-- A separator of a comma and a space is a comma with the space in front of the next piece. -/
theorem join_comma_space (p : Text) (ps : List Text) :
    join [',', ' '] (p :: ps) = join [','] (p :: ps.map (' ' :: ·)) := by
  induction ps generalizing p with
  | nil => rfl
  | cons q ps ih =>
    have hspace : join [','] ((' ' :: q) :: ps.map (' ' :: ·)) =
        ' ' :: join [','] (q :: ps.map (' ' :: ·)) := by
      cases ps <;> rfl
    rw [join_cons_cons, ih, List.map_cons, join_cons_cons, hspace]
    rfl

end Text

namespace Term

/-! ## Well-formed terms -/

/-- A term whose calls have names and whose literals are well formed; any argument may be a
hole. -/
inductive WellFormed : Term → Prop
  | literal (l : Literal) (h : l.WellFormed) : WellFormed (.literal l)
  | call (name : Text) (arguments : List (Option Term)) (hname : name.isName = true)
    (harguments : ∀ t, some t ∈ arguments → WellFormed t) : WellFormed (.call name arguments)

private theorem argumentsDepth_le_iff {xs : List (Option Term)} {n : Nat} :
    argumentsDepth xs ≤ n ↔ ∀ t, some t ∈ xs → t.depth ≤ n := by
  induction xs with
  | nil => simp [argumentsDepth]
  | cons x xs ih =>
    cases x with
    | none => simp [argumentsDepth, ih]
    | some t =>
      rw [argumentsDepth, Nat.max_le, ih]
      constructor
      · rintro ⟨ht, hxs⟩ u hu
        rcases List.mem_cons.mp hu with hu | hu
        · exact Option.some.inj hu ▸ ht
        · exact hxs u hu
      · intro h
        exact ⟨h t List.mem_cons_self, fun u hu ↦ h u (List.mem_cons_of_mem _ hu)⟩

/-! ## Reading -/

/-- A term that is well formed and nests no more deeply than a bound. -/
structure Within (bound : Int) (t : Term) : Prop where
  wellFormed : t.WellFormed
  depth : (t.depth : Int) ≤ bound

private theorem within_call {name : Text} (hname : name.isName = true) {xs : List (Option Term)}
    {bound bound' : Int} (hnonneg : 0 ≤ bound) (hlt : bound < bound')
    (h : ∀ t, some t ∈ xs → Within bound t) : Within bound' (.call name xs) := by
  have hdepth : argumentsDepth xs ≤ bound.toNat := by
    rw [argumentsDepth_le_iff]
    intro t ht
    have := (h t ht).depth
    omega
  refine ⟨.call name xs hname fun t ht ↦ (h t ht).wellFormed, ?_⟩
  rw [Term.depth]
  omega

/-- A term is read within the nesting of its text: every argument of a call is read from a shorter
text that nests less deeply than the call. -/
theorem within_of_parse? {text : Text} {t : Term} (h : parse? text = some t) :
    Within (Text.peak (Text.shown .outside text)) t := by
  induction hn : text.length using Nat.strongRecOn generalizing text t with
  | ind n ih =>
    rw [parse?_eq] at h
    split at h
    · cases h
    · split at h
      · next name inner hparts =>
        obtain rfl := Option.some.inj h
        have hshorter := Text.length_callParts? hparts
        refine within_call (Text.eq_of_callParts? hparts).2 (Text.peak_nonneg _)
          (Text.peak_lt_of_callParts? hparts) fun u hu ↦ ?_
        obtain ⟨p, hp, hpu⟩ := List.mem_map.mp hu
        have hlength := Text.length_le_of_mem_arguments hp
        have htrim := Text.length_trim_le p
        obtain ⟨hformed, hdepth⟩ := ih p.trim.length (by omega) hpu rfl
        exact ⟨hformed, Int.le_trans hdepth
          (Int.le_trans (Text.peak_trim_le p) (Text.peak_le_of_mem_arguments hp))⟩
      · obtain ⟨l, hl, rfl⟩ := Option.map_eq_some_iff.mp h
        exact ⟨.literal l (Literal.wellFormed_of_parse? hl), Text.peak_nonneg _⟩

/-- Only well-formed terms are read. -/
theorem wellFormed_of_parse? {text : Text} {t : Term} (h : parse? text = some t) : t.WellFormed :=
  (within_of_parse? h).wellFormed

/-- A term nests no more deeply than the parentheses of the text it is read from. -/
theorem depth_le_nesting {text : Text} {t : Term} (h : parse? text = some t) :
    t.depth ≤ text.nesting := by
  have hdepth := (within_of_parse? h).depth
  rw [← Text.nesting_eq] at hdepth
  omega

/-- A term that is read nests no more deeply than the limit. -/
theorem depth_le_of_parse? {text : Text} {t : Term} (h : parse? text = some t) :
    t.depth ≤ nestingLimit := by
  have hdepth := depth_le_nesting h
  rw [parse?_eq] at h
  split at h
  · cases h
  · omega

/-! ## Printing -/

/-- What printing and reading an argument rest on: its text is a fragment that nests as deeply as
the argument and from which the argument is read back, a hole as a hole. -/
structure PrintedAs (x : Option Term) (text : Text) : Prop where
  fragment : Text.Fragment text
  peak : Text.peak (Text.shown .outside text) = (x.map depth).getD 0
  parse : (x.map depth).getD 0 ≤ nestingLimit → parse? text = x

/-- What printing and reading an argument list rest on, argument by argument. -/
structure AllPrintedAs (xs : List (Option Term)) (texts : List Text) : Prop where
  print : printArguments? xs = some texts
  fragment : ∀ p ∈ texts, Text.Fragment p
  peak : Text.peak (Text.shown .outside (Text.join [',', ' '] texts)) = argumentsDepth xs
  parse : argumentsDepth xs ≤ nestingLimit → texts.map parse? = xs

private theorem printedAs_hole : PrintedAs none ['?'] where
  fragment := Text.fragment_of_plain (by decide) (Text.forall_mem_of_all rfl)
  peak := rfl
  parse _ := by
    have hparts : Text.callParts? ['?'] = none := Text.callParts?_of_not_mem (by decide)
    have hnesting : Text.nesting ['?'] = 0 := rfl
    rw [parse?_eq, hparts, hnesting, if_neg (Nat.not_lt_zero _)]
    rfl

private theorem printedAs_literal {l : Literal} {text : Text} (h : l.PrintedAs text) :
    PrintedAs (some (.literal l)) text where
  fragment := h.fragment
  peak := h.flat
  parse _ := by
    have hnesting : text.nesting = 0 := by
      have := Text.nesting_eq text
      rw [h.flat] at this
      omega
    rw [parse?_eq, h.noCall, hnesting, if_neg (Nat.not_lt_zero _), h.parse]
    rfl

private theorem allPrintedAs_nil : AllPrintedAs [] [] where
  print := rfl
  fragment _ hp := absurd hp List.not_mem_nil
  peak := rfl
  parse _ := rfl

private theorem allPrintedAs_cons {x : Option Term} {text : Text} {xs : List (Option Term)}
    {texts : List Text} (hx : PrintedAs x text) (hxs : AllPrintedAs xs texts)
    (hprint : printArguments? (x :: xs) = some (text :: texts)) :
    AllPrintedAs (x :: xs) (text :: texts) := by
  have hdepth : argumentsDepth (x :: xs) = max ((x.map depth).getD 0) (argumentsDepth xs) := by
    cases x with
    | none => simp [argumentsDepth]
    | some t => rfl
  refine ⟨hprint, ?_, ?_, ?_⟩
  · intro p hp
    rcases List.mem_cons.mp hp with rfl | hp
    · exact hx.fragment
    · exact hxs.fragment p hp
  · rw [Text.peak_join_cons Text.sealed_comma_space.closed rfl hx.fragment.closed, hx.peak, hxs.peak,
      hdepth]
    omega
  · intro hle
    rw [hdepth] at hle
    rw [List.map_cons, hx.parse (by omega), hxs.parse (by omega)]

/-- The arguments of a printed argument list are read one by one. -/
theorem parseArguments_join {texts : List Text} (h : ∀ p ∈ texts, Text.Fragment p) :
    parseArguments (Text.join [',', ' '] texts) = texts.map parse? := by
  cases texts with
  | nil => rfl
  | cons p ps =>
    have hspace (q : Text) (hq : Text.Fragment q) : Text.Whole (' ' :: q) :=
      ((Text.sealed_of_plain (t := [' ']) (Text.forall_mem_of_all rfl)).append hq.toSealed).whole
    have htrim (q : Text) (hq : Text.Fragment q) : Text.trim (' ' :: q) = q := by
      rw [← List.singleton_append, Text.trim_append_of_blank_left Text.isBlank_of_mem_space,
        hq.tight.trim_eq]
    have hps : ∀ q ∈ ps, Text.Fragment q := fun q hq ↦ h q (List.mem_cons_of_mem p hq)
    have hp := h p List.mem_cons_self
    have hwhole : ∀ q ∈ p :: ps.map (' ' :: ·), Text.Whole q := by
      intro q hq
      rcases List.mem_cons.mp hq with rfl | hq
      · exact hp.toSealed.whole
      · obtain ⟨r, hr, rfl⟩ := List.mem_map.mp hq
        exact hspace r (hps r hr)
    have hlast : ∀ q ∈ (p :: ps.map (' ' :: ·)).getLast?, Text.trim q ≠ [] := by
      intro q hq
      rcases List.mem_cons.mp (List.mem_of_mem_getLast? hq) with rfl | hq
      · rw [hp.tight.trim_eq]
        exact hp.ne_nil
      · obtain ⟨r, hr, rfl⟩ := List.mem_map.mp hq
        rw [htrim r (hps r hr)]
        exact (hps r hr).ne_nil
    rw [parseArguments, Text.join_comma_space, Text.arguments_join hwhole hlast, List.map_cons,
      List.map_cons, hp.tight.trim_eq, List.map_map]
    congr 1
    apply List.map_congr_left
    intro q hq
    exact congrArg parse? (htrim q (hps q hq))

/-- A call with printed arguments is read back from its text. -/
theorem printedAs_call {name : Text} (hname : name.isName = true) {xs : List (Option Term)}
    {texts : List Text} (h : AllPrintedAs xs texts) :
    PrintedAs (some (.call name xs)) (name ++ ('(' :: Text.join [',', ' '] texts ++ [')'])) := by
  have hjoin := Text.closed_join Text.sealed_comma_space.closed fun p hp ↦ (h.fragment p hp).closed
  have hpeak : Text.peak (Text.shown .outside
      (name ++ ('(' :: Text.join [',', ' '] texts ++ [')']))) = (call name xs).depth := by
    rw [Text.peak_call hname hjoin, h.peak, depth]
    omega
  refine ⟨Text.fragment_call hname h.fragment, hpeak, ?_⟩
  intro hdepth
  have hnesting := Text.nesting_eq (name ++ ('(' :: Text.join [',', ' '] texts ++ [')']))
  rw [hpeak] at hnesting
  have hlimit : (call name xs).depth ≤ nestingLimit := hdepth
  have harguments : argumentsDepth xs ≤ nestingLimit := by
    rw [depth] at hlimit
    omega
  rw [parse?_eq, if_neg (by omega), Text.callParts?_call hname]
  dsimp only
  rw [parseArguments_join h.fragment, h.parse harguments]

/-- Arguments that all have texts are printed one by one. -/
theorem exists_allPrintedAs {xs : List (Option Term)}
    (h : ∀ t, some t ∈ xs → ∃ text, t.print? = some text ∧ PrintedAs (some t) text) :
    ∃ texts, AllPrintedAs xs texts := by
  induction xs with
  | nil => exact ⟨[], allPrintedAs_nil⟩
  | cons x xs ih =>
    obtain ⟨texts, hxs⟩ := ih fun t ht ↦ h t (List.mem_cons_of_mem x ht)
    cases x with
    | none =>
      refine ⟨['?'] :: texts, allPrintedAs_cons printedAs_hole hxs ?_⟩
      simp [printArguments?, hxs.print]
    | some t =>
      obtain ⟨text, hprint, ht⟩ := h t List.mem_cons_self
      refine ⟨text :: texts, allPrintedAs_cons ht hxs ?_⟩
      simp [printArguments?, hprint, hxs.print]

/-- Every well-formed term has a text, a fragment from which it is read back if it does not nest
too deeply. -/
theorem WellFormed.exists_printedAs {t : Term} (h : t.WellFormed) :
    ∃ text, t.print? = some text ∧ PrintedAs (some t) text := by
  induction h with
  | literal l h =>
    obtain ⟨text, htext⟩ := h.exists_printedAs
    exact ⟨text, htext.print, printedAs_literal htext⟩
  | call name arguments hname _ ih =>
    obtain ⟨texts, htexts⟩ := exists_allPrintedAs ih
    refine ⟨_, ?_, printedAs_call hname htexts⟩
    simp [print?, htexts.print]

/-- A term that can be printed and read back. -/
structure Printable (t : Term) : Prop where
  wellFormed : t.WellFormed
  depth : t.depth ≤ nestingLimit
  text : ∃ text, t.print? = some text

/-- A well-formed term within the limit is printable. -/
theorem WellFormed.printable {t : Term} (h : t.WellFormed) (hdepth : t.depth ≤ nestingLimit) :
    t.Printable := by
  obtain ⟨text, hprint, -⟩ := h.exists_printedAs
  exact ⟨h, hdepth, text, hprint⟩

/-- Only printable terms are read. -/
theorem printable_of_parse? {text : Text} {t : Term} (h : parse? text = some t) : t.Printable :=
  (wellFormed_of_parse? h).printable (depth_le_of_parse? h)

/-- A well-formed term that nests no more deeply than is read has a text, and exactly that term is
read back from it, each hole at its place. -/
theorem WellFormed.read_back {t : Term} (h : t.WellFormed) (hdepth : t.depth ≤ nestingLimit) :
    ∃ text, t.print? = some text ∧ parse? text = some t := by
  obtain ⟨text, hprint, htext⟩ := h.exists_printedAs
  exact ⟨text, hprint, htext.parse hdepth⟩

/-- A call with holes in front and at the end, a string of punctuation, a nested call, a negative
zero and a negative integer. -/
def mixedCall : Term :=
  .call "f_1".toList
    [none, some (.literal ⟨.string, .str "a\"\\,(;)//\n".toList⟩),
      some (.call ['g'] [some (.literal ⟨.float, .float (.finite true .zero)⟩), none]),
      some (.literal ⟨.integer, .int (-70)⟩), none]

theorem mixedCall_read_back :
    mixedCall.WellFormed ∧ mixedCall.depth ≤ nestingLimit ∧
      ∃ text, mixedCall.print? = some text ∧ parse? text = some mixedCall := by
  have hinner : WellFormed
      (.call ['g'] [some (.literal ⟨.float, .float (.finite true .zero)⟩), none]) := by
    refine .call _ _ (by decide) fun t ht ↦ ?_
    obtain rfl : t = .literal ⟨.float, .float (.finite true .zero)⟩ := by simpa using ht
    exact .literal _ (.float true .zero)
  have hformed : mixedCall.WellFormed := by
    refine .call _ _ (by decide) fun t ht ↦ ?_
    simp only [List.mem_cons, reduceCtorEq, Option.some.injEq, List.not_mem_nil, or_false,
      false_or] at ht
    rcases ht with rfl | rfl | rfl
    · exact .literal _ (.string _)
    · exact hinner
    · exact .literal _ (.integer _ (by decide))
  have hdepth : mixedCall.depth ≤ nestingLimit := by decide
  exact ⟨hformed, hdepth, WellFormed.read_back hformed hdepth⟩

end Term

end Lilac
