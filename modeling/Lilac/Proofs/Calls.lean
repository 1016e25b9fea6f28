import Lilac.Proofs.Terms

/-!
# Reading calls

A call is read argument by argument. Where the arguments are whole texts, each is cut out as it
stands, so what one of them holds has no effect on how the others are read, whether it can be read
or not. The call nests one deeper than its deepest argument.

However unbalanced the text of a call is, each of its arguments nests less deeply than the call. The
limit on nesting is therefore decided at the outermost call: below it no argument is refused for its
nesting, and the nesting of a text bounds how many calls of the reader are under way at once.

About `parse_function_call`. Specification: `SPEC_FULL.md`, section 4.2.
-/

namespace Lilac

namespace Text

/-! ## Nesting of calls -/

instance : (depth : Int) → (cs : List Char) → Decidable (Uncut depth cs)
  | _, [] => .isTrue trivial
  | depth, c :: cs =>
    have : Decidable (Uncut (depth + parenthesisStep c) cs) :=
      instDecidableUncut (depth + parenthesisStep c) cs
    inferInstanceAs (Decidable (¬(c = ',' ∧ depth = 0) ∧ Uncut (depth + parenthesisStep c) cs))

instance (t : Text) : Decidable (Whole t) :=
  decidable_of_iff
    (Mode.outside.after t = .outside ∧ balance (shown .outside t) = 0 ∧
      Uncut 0 (shown .outside t))
    ⟨fun ⟨houtside, hbalanced, huncut⟩ ↦ ⟨houtside, hbalanced, huncut⟩,
      fun h ↦ ⟨h.outside, h.balanced, h.uncut⟩⟩

/-- A comma is closed. -/
theorem closed_comma : Closed [','] := ⟨rfl, rfl⟩

private theorem nesting_join_le_iff {ps : List Text} (h : ∀ p ∈ ps, Closed p) {n : Nat} :
    (join [','] ps).nesting ≤ n ↔ ∀ p ∈ ps, p.nesting ≤ n := by
  induction ps with
  | nil =>
    have hnone : (join [','] []).nesting = 0 := rfl
    simp [hnone]
  | cons p ps ih =>
    obtain ⟨hp, hps⟩ := List.forall_mem_cons.mp h
    have hpeak := peak_join_cons closed_comma rfl hp ps
    rw [← nesting_eq, ← nesting_eq, ← nesting_eq] at hpeak
    rw [List.forall_mem_cons, ← ih hps]
    omega

private theorem nesting_call {name : Text} (hname : isName name = true) {inner : Text}
    (hinner : Closed inner) : (name ++ ('(' :: inner ++ [')'])).nesting = inner.nesting + 1 := by
  have hpeak := peak_call hname hinner
  rw [← nesting_eq, ← nesting_eq] at hpeak
  omega

/-- What is handed on to the reader for an argument of a call nests less deeply than the call, also
where parentheses have no partners and strings do not end. -/
theorem nesting_trim_lt {t name inner p : Text} (hparts : callParts? t = some (name, inner))
    (hp : p ∈ inner.arguments) : (trim p).nesting < t.nesting := by
  have htrim := peak_trim_le p
  have hargument := peak_le_of_mem_arguments hp
  have hcall := peak_lt_of_callParts? hparts
  have hnesting := nesting_eq t
  have hnesting' := nesting_eq (trim p)
  omega

end Text

namespace Term

/-! ## Calls of whole arguments -/

private theorem parse?_call {name : Text} (hname : name.isName = true) (inner : Text) :
    parse? (name ++ ('(' :: inner ++ [')'])) =
      if nestingLimit < (name ++ ('(' :: inner ++ [')'])).nesting then none
      else some (.call name (parseArguments inner)) := by
  rw [parse?_eq, Text.callParts?_call hname]

/-- Whole texts joined with commas are read one by one, if the last one is not blank. -/
theorem parseArguments_join_whole {ps : List Text} (h : ∀ p ∈ ps, p.Whole)
    (hlast : ∀ p ∈ ps.getLast?, p.trim ≠ []) :
    parseArguments (Text.join [','] ps) = ps.map fun p ↦ parse? p.trim := by
  rw [parseArguments, Text.arguments_join h hlast]

private theorem nestingLimit_lt_nesting_call_iff {name : Text} (hname : name.isName = true)
    {ps : List Text} (h : ∀ p ∈ ps, p.Whole) :
    nestingLimit < (name ++ ('(' :: Text.join [','] ps ++ [')'])).nesting ↔
      ¬∀ p ∈ ps, p.nesting < nestingLimit := by
  have hclosed : ∀ p ∈ ps, p.Closed := fun p hp ↦ (h p hp).closed
  have hjoin := Text.nesting_join_le_iff hclosed (n := nestingLimit - 1)
  have hlimit : 0 < nestingLimit := by decide
  have hbelow : (∀ p ∈ ps, p.nesting < nestingLimit) ↔
      ∀ p ∈ ps, p.nesting ≤ nestingLimit - 1 :=
    forall₂_congr fun p _ ↦ by omega
  rw [Text.nesting_call hname (Text.closed_join Text.closed_comma hclosed), hbelow, ← hjoin]
  omega

/-- A call of whole arguments, the last of which is not blank, is read as the call of what each of
them is read as; it is not read at all if one of them nests too deeply. -/
theorem parse?_call_join {name : Text} (hname : name.isName = true) {ps : List Text}
    (h : ∀ p ∈ ps, p.Whole) (hlast : ∀ p ∈ ps.getLast?, p.trim ≠ []) :
    parse? (name ++ ('(' :: Text.join [','] ps ++ [')'])) =
      if ∀ p ∈ ps, p.nesting < nestingLimit then
        some (.call name (ps.map fun p ↦ parse? p.trim))
      else none := by
  rw [parse?_call hname, parseArguments_join_whole h hlast]
  by_cases hbelow : ∀ p ∈ ps, p.nesting < nestingLimit
  · rw [if_neg (mt (nestingLimit_lt_nesting_call_iff hname h).mp (not_not_intro hbelow)),
      if_pos hbelow]
  · rw [if_pos ((nestingLimit_lt_nesting_call_iff hname h).mpr hbelow), if_neg hbelow]

/-- A call is read argument by argument: it is read as the call of what its arguments, whole texts
of which the last is not blank, are read as, each by itself, if all of them nest below the limit,
and not at all otherwise. Another argument in the place of one changes what is read there and
nothing else. -/
theorem calls_read_argumentwise {name : Text} (hname : name.isName = true) {ps : List Text}
    (h : ∀ p ∈ ps, p.Whole) (hlast : ∀ p ∈ ps.getLast?, p.trim ≠ []) :
    parse? (name ++ ('(' :: Text.join [','] ps ++ [')'])) =
        (if ∀ p ∈ ps, p.nesting < nestingLimit then
          some (.call name (ps.map fun p ↦ parse? p.trim))
        else none) ∧
      ∀ (i : Nat) (q : Text), q.Whole → (∀ p ∈ (ps.set i q).getLast?, p.trim ≠ []) →
        (∀ p ∈ ps.set i q, p.nesting < nestingLimit) →
        parse? (name ++ ('(' :: Text.join [','] (ps.set i q) ++ [')'])) =
          some (.call name ((ps.map fun p ↦ parse? p.trim).set i (parse? q.trim))) := by
  refine ⟨parse?_call_join hname h hlast, fun i q hq hlast' hnesting ↦ ?_⟩
  have hwhole : ∀ p ∈ ps.set i q, p.Whole := by
    intro p hp
    rcases List.mem_or_eq_of_mem_set hp with hp | rfl
    · exact h p hp
    · exact hq
  rw [parse?_call_join hname hwhole hlast', if_pos hnesting, List.map_set]

/-- Arguments that drive the count of open parentheses below zero, that are blank, that hold
punctuation in a string, and that cannot be read; and in the place of the first one a call. -/
theorem calls_read_argumentwise_unbalanced :
    Text.isName ['f'] = true ∧
      (∀ p ∈ [[')', '('], [' '], "\"),(\\\"\"".toList, ['@']], Text.Whole p) ∧
      (∀ p ∈ [[')', '('], [' '], "\"),(\\\"\"".toList, ['@']].getLast?, Text.trim p ≠ []) ∧
      parse? "f()(, ,\"),(\\\"\",@)".toList =
        some (.call ['f'] [none, none, some (.literal ⟨.string, .str "),(\"".toList⟩), none]) ∧
      parse? "f( g(1) , ,\"),(\\\"\",@)".toList =
        some (.call ['f'] [some (.call ['g'] [some (.literal ⟨.integer, .int 1⟩)]), none,
          some (.literal ⟨.string, .str "),(\"".toList⟩), none]) := by
  have hname : Text.isName ['f'] = true := by decide
  have hwhole : ∀ p ∈ [[')', '('], [' '], "\"),(\\\"\"".toList, ['@']], Text.Whole p := by
    decide
  have hlast : ∀ p ∈ [[')', '('], [' '], "\"),(\\\"\"".toList, ['@']].getLast?,
      Text.trim p ≠ [] := by
    decide
  obtain ⟨hread, hreplaced⟩ := calls_read_argumentwise hname hwhole hlast
  refine ⟨hname, hwhole, hlast, hread.trans (by decide +kernel), ?_⟩
  exact (hreplaced 0 " g(1) ".toList (by decide +kernel) (by decide +kernel)
    (by decide +kernel)).trans (by decide +kernel)

/-! ## The limit on nesting -/

/-- The reader without a limit on nesting. -/
def parseUnlimited? (t : Text) : Option Term :=
  match _parts : t.callParts? with
  | some (name, inner) =>
    some (.call name (inner.arguments.attach.map fun p ↦ parseUnlimited? p.val.trim))
  | none => (Literal.parse? t).map .literal
termination_by t.nesting
decreasing_by exact Text.nesting_trim_lt _parts p.property

/-- The reader without a limit in one equation. -/
theorem parseUnlimited?_eq (t : Text) :
    parseUnlimited? t =
      match t.callParts? with
      | some (name, inner) =>
        some (.call name (inner.arguments.map fun p ↦ parseUnlimited? p.trim))
      | none => (Literal.parse? t).map .literal := by
  rw [parseUnlimited?]
  split
  · next h => simp [h]
  · next h => simp [h]

/-- The reader with at most the given number of its calls under way at once; the outer `none` says
that more of them would be needed. -/
def parseWithin? : Nat → Text → Option (Option Term)
  | 0, _ => none
  | calls + 1, t =>
    if nestingLimit < t.nesting then some none
    else
      match t.callParts? with
      | some (name, inner) =>
        (inner.arguments.mapM fun p ↦ parseWithin? calls p.trim).map fun xs ↦
          some (.call name xs)
      | none => some ((Literal.parse? t).map .literal)

/-- A text within the limit is read as if there were none: no argument is refused for its
nesting. -/
theorem parse?_eq_parseUnlimited? {t : Text} (h : t.nesting ≤ nestingLimit) :
    parse? t = parseUnlimited? t := by
  induction hn : t.nesting using Nat.strongRecOn generalizing t with
  | ind n ih =>
    rw [parse?_eq, if_neg (Nat.not_lt.mpr h), parseUnlimited?_eq]
    cases hparts : t.callParts? with
    | none => rfl
    | some parts =>
      have harguments : ∀ p ∈ parts.2.arguments, parse? p.trim = parseUnlimited? p.trim := by
        intro p hp
        have hlt := Text.nesting_trim_lt hparts hp
        exact ih p.trim.nesting (by omega) (by omega) rfl
      dsimp only
      rw [parseArguments, List.map_congr_left harguments]

/-- More calls under way at once than a text nests deep are enough to read it. -/
theorem parseWithin?_eq {calls : Nat} {t : Text} (h : t.nesting < calls) :
    parseWithin? calls t = some (parse? t) := by
  induction calls generalizing t with
  | zero => omega
  | succ calls ih =>
    rw [parseWithin?, parse?_eq]
    split
    · rfl
    · cases hparts : t.callParts? with
      | none => rfl
      | some parts =>
        have harguments : ∀ p ∈ parts.2.arguments,
            parseWithin? calls p.trim = some (parse? p.trim) := by
          intro p hp
          have hlt := Text.nesting_trim_lt hparts hp
          exact ih (by omega)
        dsimp only
        rw [mapM_eq_some_map harguments]
        rfl

/-- Whatever the text, it is read with no more calls under way at once than the limit and one. -/
theorem parseWithin?_nestingLimit (t : Text) :
    parseWithin? (nestingLimit + 1) t = some (parse? t) := by
  by_cases h : nestingLimit < t.nesting
  · rw [parseWithin?, parse?_eq, if_pos h, if_pos h]
  · exact parseWithin?_eq (by omega)

/-- The limit on nesting bounds the recursion and is decided at the outermost call. Each argument of
a call nests less deeply than the call, however unbalanced the text; a text within the limit is
therefore read as if there were none, with at most one call more under way at once than it nests
deep, and what is read nests no more deeply than the text. Whatever the text, the limit and one are
enough. -/
theorem nesting_limit_bounds_recursion (t : Text) :
    (∀ name inner : Text, name.isName = true → t = name ++ ('(' :: inner ++ [')']) →
        ∀ p ∈ inner.arguments, p.trim.nesting + 1 ≤ t.nesting) ∧
      (t.nesting ≤ nestingLimit →
        parse? t = parseUnlimited? t ∧
          (∀ calls, t.nesting + 1 ≤ calls → parseWithin? calls t = some (parse? t)) ∧
          ∀ u, parse? t = some u → u.depth ≤ t.nesting) ∧
      parseWithin? (nestingLimit + 1) t = some (parse? t) := by
  refine ⟨?_, fun hlimit ↦ ⟨?_, ?_, ?_⟩, parseWithin?_nestingLimit t⟩
  · rintro name inner hname rfl p hp
    exact Text.nesting_trim_lt (Text.callParts?_call hname inner) hp
  · exact parse?_eq_parseUnlimited? hlimit
  · intro calls hcalls
    exact parseWithin?_eq hcalls
  · intro u hu
    exact depth_le_nesting hu

/-- A string that is never ended holds the final parenthesis; one call less under way at once would
not do. -/
theorem nesting_limit_bounds_recursion_unended :
    Text.nesting "f(g(1),\"a)".toList = 2 ∧ 2 ≤ nestingLimit ∧
      parse? "f(g(1),\"a)".toList = parseUnlimited? "f(g(1),\"a)".toList ∧
      parseWithin? 3 "f(g(1),\"a)".toList =
        some (some (.call ['f'] [some (.call ['g'] [some (.literal ⟨.integer, .int 1⟩)]), none])) ∧
      parseWithin? 2 "f(g(1),\"a)".toList = none := by
  have hnesting : Text.nesting "f(g(1),\"a)".toList = 2 := by decide
  have hlimit : 2 ≤ nestingLimit := by decide
  obtain ⟨hunlimited, hwithin, -⟩ :=
    (nesting_limit_bounds_recursion "f(g(1),\"a)".toList).2.1 (hnesting ▸ hlimit)
  have hcalls := hwithin 3 (Nat.le_of_eq (congrArg (· + 1) hnesting))
  exact ⟨hnesting, hlimit, hunlimited, hcalls.trans (by decide +kernel), by decide +kernel⟩

end Term

end Lilac
