import Lilac.Yaml.Node

/-!
# Recursive descent over YAML tokens

Every reader of nodes spends one unit of fuel on each call, and calls itself only on what it or the
readers before it left over. So three units for each token, and a few more, are as good as any
number of units: a reader never runs out of fuel, and a text is refused only for what stands in it.
-/

namespace Lilac

namespace Yaml

namespace Node

/-! ## Results that do not depend on fuel -/

/-- Two results are the same, and a successful one leaves fewer than `bound` tokens. -/
structure Alike {α : Type} (bound : Nat) (r r' : Except Fault (α × List Token)) : Prop where
  eq : r = r'
  lt : ∀ a rest, r = .ok (a, rest) → rest.length < bound

namespace Alike

variable {α β : Type} {bound bound' : Nat} {r r' : Except Fault (α × List Token)}

private theorem mono (h : Alike bound r r') (hle : bound ≤ bound') : Alike bound' r r' :=
  ⟨h.eq, fun a rest hr ↦ Nat.lt_of_lt_of_le (h.lt a rest hr) hle⟩

private theorem ok {a : α} {rest : List Token} (h : rest.length < bound) :
    Alike bound (.ok (a, rest)) (.ok (a, rest)) := by
  refine ⟨rfl, fun b rest' hr ↦ ?_⟩
  obtain ⟨rfl, rfl⟩ : a = b ∧ rest = rest' := by simpa using hr
  exact h

private theorem error (fault : Fault) : Alike (α := α) bound (.error fault) (.error fault) :=
  ⟨rfl, fun _ _ hr ↦ nomatch hr⟩

private theorem stuck (ts : List Token) : Alike (α := α) bound (stuck ts) (stuck ts) := by
  unfold Node.stuck
  split
  · exact error _
  · exact error _

/-- What follows a reader need only agree on what the reader leaves. -/
private theorem bind {f f' : α × List Token → Except Fault (β × List Token)}
    (h : Alike bound r r')
    (hf : ∀ a rest, rest.length < bound → Alike bound' (f (a, rest)) (f' (a, rest))) :
    Alike bound' (r >>= f) (r' >>= f') := by
  obtain ⟨rfl, hlt⟩ := h
  cases r with
  | error fault => exact error fault
  | ok p => exact hf p.1 p.2 (hlt p.1 p.2 rfl)

/-- What is done one level deeper need only agree where there is one. -/
private theorem inside {depth : Nat} {f f' : Nat → Except Fault (β × List Token)}
    (hf : ∀ within, Alike bound (f within) (f' within)) :
    Alike bound (inside depth >>= f) (inside depth >>= f') := by
  cases depth with
  | zero => exact error _
  | succ within => exact hf within

private theorem collection {depth : Nat} {f f' : Nat → Except Fault (α × List Token)} (g : α → β)
    (hf : ∀ within, Alike bound (f within) (f' within)) :
    Alike bound (do let (a, rest) ← f (← Node.inside depth); .ok (g a, rest))
      (do let (a, rest) ← f' (← Node.inside depth); .ok (g a, rest)) :=
  inside fun within ↦ (hf within).bind fun _ _ hlt ↦ ok hlt

/-- Items after a comma need only agree on what is behind it. -/
private theorem afterEntry {isFirst : Bool} {ts : List Token}
    {f f' : List Token → Except Fault (β × List Token)}
    (hf : ∀ rest : List Token, rest.length ≤ ts.length → Alike bound (f rest) (f' rest)) :
    Alike bound (afterEntry isFirst ts >>= f) (afterEntry isFirst ts >>= f') := by
  unfold Node.afterEntry
  split
  · exact hf ts (Nat.le_refl _)
  · split
    · exact hf _ (Nat.le_succ _)
    · unfold Node.stuck
      split
      · exact error _
      · exact error _

end Alike

/-- One more unit of fuel changes nothing: with `n` units each reader does with its tokens what it
does with `n + 1`, if there are three units for each token and as many more as its calls on the same
tokens take. Only a node is sure to take a token, and so is a sequence behind its first dash. -/
structure Steady (n : Nat) : Prop where
  read : ∀ (block indentless : Bool) (depth : Nat) (ts : List Token), 3 * ts.length + 2 ≤ n →
    Alike ts.length (read block indentless depth n ts) (read block indentless depth (n + 1) ts)
  readUnless : ∀ (stops : List Token) (block indentless : Bool) (depth : Nat) (ts : List Token),
    3 * ts.length + 3 ≤ n →
      Alike (ts.length + 1) (readUnless stops block indentless depth n ts)
        (readUnless stops block indentless depth (n + 1) ts)
  valueUnless : ∀ (stops : List Token) (block : Bool) (depth : Nat) (ts : List Token),
    3 * ts.length + 1 ≤ n →
      Alike (ts.length + 1) (valueUnless stops block depth n ts)
        (valueUnless stops block depth (n + 1) ts)
  blockItems : ∀ (depth : Nat) (ts : List Token), 3 * ts.length + 1 ≤ n →
    Alike (ts.length + 1) (blockItems depth n ts) (blockItems depth (n + 1) ts)
  dashedItems : ∀ (depth : Nat) (ts : List Token), 3 * ts.length + 4 ≤ n →
    Alike (ts.length + 1) (indentlessItems depth n (.blockEntry :: ts))
      (indentlessItems depth (n + 1) (.blockEntry :: ts))
  indentlessItems : ∀ (depth : Nat) (ts : List Token), 3 * ts.length + 1 ≤ n →
    Alike (ts.length + 1) (indentlessItems depth n ts) (indentlessItems depth (n + 1) ts)
  blockPairs : ∀ (depth : Nat) (ts : List Token), 3 * ts.length + 1 ≤ n →
    Alike (ts.length + 1) (blockPairs depth n ts) (blockPairs depth (n + 1) ts)
  flowItems : ∀ (isFirst : Bool) (depth : Nat) (ts : List Token), 3 * ts.length + 3 ≤ n →
    Alike (ts.length + 1) (flowItems isFirst depth n ts) (flowItems isFirst depth (n + 1) ts)
  flowPairs : ∀ (isFirst : Bool) (depth : Nat) (ts : List Token), 3 * ts.length + 3 ≤ n →
    Alike (ts.length + 1) (flowPairs isFirst depth n ts) (flowPairs isFirst depth (n + 1) ts)

namespace Steady

variable {n : Nat}

private theorem read_succ (h : Steady n) (block indentless : Bool) (depth : Nat) (ts : List Token)
    (hn : 3 * ts.length + 2 ≤ n + 1) :
    Alike ts.length (Node.read block indentless depth (n + 1) ts)
      (Node.read block indentless depth (n + 2) ts) := by
  unfold Node.read
  split
  case h_1 => exact .ok (Nat.lt_succ_self _)
  case h_2 rest =>
    simp only [List.length_cons] at hn ⊢
    exact .collection _ fun within ↦ h.flowItems true within rest (by omega)
  case h_3 rest =>
    simp only [List.length_cons] at hn ⊢
    exact .collection _ fun within ↦ h.flowPairs true within rest (by omega)
  case h_4 rest =>
    simp only [List.length_cons] at hn ⊢
    split
    · exact .collection _ fun within ↦ h.blockItems within rest (by omega)
    · exact .stuck _
  case h_5 rest =>
    simp only [List.length_cons] at hn ⊢
    split
    · exact .collection _ fun within ↦ h.blockPairs within rest (by omega)
    · exact .stuck _
  case h_6 rest =>
    -- The dash is still in front of the items: that they leave no more than they get would not do.
    simp only [List.length_cons] at hn ⊢
    split
    · exact .collection _ fun within ↦ h.dashedItems within rest (by omega)
    · exact .stuck _
  case h_7 => exact .stuck _

private theorem readUnless_succ (h : Steady n) (stops : List Token) (block indentless : Bool)
    (depth : Nat) (ts : List Token) (hn : 3 * ts.length + 3 ≤ n + 1) :
    Alike (ts.length + 1) (Node.readUnless stops block indentless depth (n + 1) ts)
      (Node.readUnless stops block indentless depth (n + 2) ts) := by
  unfold Node.readUnless
  split
  · exact .ok (Nat.lt_succ_self _)
  · exact (h.read block indentless depth ts (by omega)).mono (Nat.le_succ _)

private theorem valueUnless_succ (h : Steady n) (stops : List Token) (block : Bool) (depth : Nat)
    (ts : List Token) (hn : 3 * ts.length + 1 ≤ n + 1) :
    Alike (ts.length + 1) (Node.valueUnless stops block depth (n + 1) ts)
      (Node.valueUnless stops block depth (n + 2) ts) := by
  unfold Node.valueUnless
  split
  case h_1 rest =>
    simp only [List.length_cons] at hn ⊢
    exact (h.readUnless stops block block depth rest (by omega)).mono (Nat.le_succ _)
  case h_2 => exact .ok (Nat.lt_succ_self _)

private theorem blockItems_succ (h : Steady n) (depth : Nat) (ts : List Token)
    (hn : 3 * ts.length + 1 ≤ n + 1) :
    Alike (ts.length + 1) (Node.blockItems depth (n + 1) ts)
      (Node.blockItems depth (n + 2) ts) := by
  unfold Node.blockItems
  split
  case h_1 rest =>
    simp only [List.length_cons] at hn ⊢
    refine (h.readUnless _ true false depth rest (by omega)).bind fun _ rest₁ h₁ ↦ ?_
    refine (h.blockItems depth rest₁ (by omega)).bind fun _ rest₂ h₂ ↦ ?_
    exact .ok (show rest₂.length < _ by omega)
  case h_2 rest => exact .ok (by simp only [List.length_cons]; omega)
  case h_3 => exact .stuck _

private theorem dashedItems_succ (h : Steady n) (depth : Nat) (ts : List Token)
    (hn : 3 * ts.length + 4 ≤ n + 1) :
    Alike (ts.length + 1) (Node.indentlessItems depth (n + 1) (.blockEntry :: ts))
      (Node.indentlessItems depth (n + 2) (.blockEntry :: ts)) := by
  rw [Node.indentlessItems, Node.indentlessItems]
  refine (h.readUnless _ true false depth ts (by omega)).bind fun _ rest₁ h₁ ↦ ?_
  refine (h.indentlessItems depth rest₁ (by omega)).bind fun _ rest₂ h₂ ↦ ?_
  exact .ok (by omega)

private theorem indentlessItems_succ (h : Steady n) (depth : Nat) (ts : List Token)
    (hn : 3 * ts.length + 1 ≤ n + 1) :
    Alike (ts.length + 1) (Node.indentlessItems depth (n + 1) ts)
      (Node.indentlessItems depth (n + 2) ts) := by
  -- Without a dash in front there are no items, and nothing is taken.
  by_cases hdash : ∃ rest, ts = .blockEntry :: rest
  · obtain ⟨rest, rfl⟩ := hdash
    simp only [List.length_cons] at hn ⊢
    exact (h.dashedItems_succ depth rest (by omega)).mono (Nat.le_succ _)
  · have hend : ∀ m, Node.indentlessItems depth (m + 1) ts = .ok ([], ts) := by
      intro m
      unfold Node.indentlessItems
      split
      · exact absurd ⟨_, rfl⟩ hdash
      · rfl
    rw [hend, hend]
    exact .ok (Nat.lt_succ_self _)

private theorem blockPairs_succ (h : Steady n) (depth : Nat) (ts : List Token)
    (hn : 3 * ts.length + 1 ≤ n + 1) :
    Alike (ts.length + 1) (Node.blockPairs depth (n + 1) ts)
      (Node.blockPairs depth (n + 2) ts) := by
  unfold Node.blockPairs
  split
  case h_1 rest =>
    simp only [List.length_cons] at hn ⊢
    refine (h.readUnless _ true true depth rest (by omega)).bind fun _ rest₁ h₁ ↦ ?_
    refine (h.valueUnless _ true depth rest₁ (by omega)).bind fun _ rest₂ h₂ ↦ ?_
    refine (h.blockPairs depth rest₂ (by omega)).bind fun _ rest₃ h₃ ↦ ?_
    exact .ok (show rest₃.length < _ by omega)
  case h_2 rest => exact .ok (by simp only [List.length_cons]; omega)
  case h_3 => exact .stuck _

private theorem flowItems_succ (h : Steady n) (isFirst : Bool) (depth : Nat) (ts : List Token)
    (hn : 3 * ts.length + 3 ≤ n + 1) :
    Alike (ts.length + 1) (Node.flowItems isFirst depth (n + 1) ts)
      (Node.flowItems isFirst depth (n + 2) ts) := by
  unfold Node.flowItems
  split
  case h_1 rest => exact .ok (by simp only [List.length_cons]; omega)
  case h_2 =>
    refine .afterEntry fun items hitems ↦ ?_
    split
    case h_1 rest =>
      simp only [List.length_cons] at hitems
      exact .ok (by omega)
    case h_2 rest =>
      simp only [List.length_cons] at hitems
      refine .inside fun within ↦ ?_
      refine (h.readUnless _ false false within rest (by omega)).bind fun _ rest₁ h₁ ↦ ?_
      refine (h.valueUnless _ false within rest₁ (by omega)).bind fun _ rest₂ h₂ ↦ ?_
      refine (h.flowItems false depth rest₂ (by omega)).bind fun _ rest₃ h₃ ↦ ?_
      exact .ok (by omega)
    case h_3 =>
      -- The first item has no comma in front, so it is read from the same tokens, and only the fact
      -- that it takes one of them makes the rest shorter.
      refine (h.read false false depth _ (by omega)).bind fun _ rest₁ h₁ ↦ ?_
      refine (h.flowItems false depth rest₁ (by omega)).bind fun _ rest₂ h₂ ↦ ?_
      exact .ok (by omega)

private theorem flowPairs_succ (h : Steady n) (isFirst : Bool) (depth : Nat) (ts : List Token)
    (hn : 3 * ts.length + 3 ≤ n + 1) :
    Alike (ts.length + 1) (Node.flowPairs isFirst depth (n + 1) ts)
      (Node.flowPairs isFirst depth (n + 2) ts) := by
  unfold Node.flowPairs
  split
  case h_1 rest => exact .ok (by simp only [List.length_cons]; omega)
  case h_2 =>
    refine .afterEntry fun pairs hpairs ↦ ?_
    split
    case h_1 rest =>
      simp only [List.length_cons] at hpairs
      exact .ok (by omega)
    case h_2 rest =>
      simp only [List.length_cons] at hpairs
      refine (h.readUnless _ false false depth rest (by omega)).bind fun _ rest₁ h₁ ↦ ?_
      refine (h.valueUnless _ false depth rest₁ (by omega)).bind fun _ rest₂ h₂ ↦ ?_
      refine (h.flowPairs false depth rest₂ (by omega)).bind fun _ rest₃ h₃ ↦ ?_
      exact .ok (by omega)
    case h_3 =>
      refine (h.read false false depth _ (by omega)).bind fun _ rest₁ h₁ ↦ ?_
      refine (h.flowPairs false depth rest₁ (by omega)).bind fun _ rest₂ h₂ ↦ ?_
      exact .ok (by omega)

private theorem succ (h : Steady n) : Steady (n + 1) where
  read := h.read_succ
  readUnless := h.readUnless_succ
  valueUnless := h.valueUnless_succ
  blockItems := h.blockItems_succ
  dashedItems := h.dashedItems_succ
  indentlessItems := h.indentlessItems_succ
  blockPairs := h.blockPairs_succ
  flowItems := h.flowItems_succ
  flowPairs := h.flowPairs_succ

/-- Every number of units is steady. -/
theorem of_nat (n : Nat) : Steady n := by
  induction n with
  | zero =>
    -- Every reader asks for at least one unit.
    constructor <;> intros <;> omega
  | succ n ih => exact ih.succ

end Steady

/-- A node is read alike with every number of units from three for each token on. -/
theorem read_fuel_irrelevant (block indentless : Bool) (depth : Nat) (ts : List Token) {fuel : Nat}
    (h : 3 * ts.length + 2 ≤ fuel) :
    read block indentless depth fuel ts = read block indentless depth (3 * ts.length + 2) ts := by
  induction h with
  | refl => rfl
  | @step n hn ih => exact ((Steady.of_nat n).read block indentless depth ts hn).eq.symm.trans ih

/-- The first document is read alike with every number of units from that on which `ofTokens`
gives. -/
theorem first_fuel_irrelevant (ts : List Token) {fuel : Nat} (h : 3 * ts.length + 3 ≤ fuel) :
    first fuel ts = first (3 * ts.length + 3) ts := by
  have hread : ∀ rest : List Token, rest.length ≤ ts.length →
      read true false nestingLimit fuel rest
        = read true false nestingLimit (3 * ts.length + 3) rest := by
    intro rest hle
    have hless : 3 * rest.length + 2 ≤ 3 * ts.length + 3 := by omega
    exact (read_fuel_irrelevant true false nestingLimit rest (Nat.le_trans hless h)).trans
      (read_fuel_irrelevant true false nestingLimit rest hless).symm
  unfold first
  split
  · rfl
  · unfold marked
    rw [hread _ (Nat.le_succ _)]
  · exact hread _ (Nat.le_refl _)

end Node

end Yaml

end Lilac
