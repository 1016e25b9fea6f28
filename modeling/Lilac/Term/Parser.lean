import Lilac.Term
import Lilac.Quotation
import Lilac.Text.Word

/-!
# Reading terms

A text is a call if it is a name, an opening parenthesis, anything, and a closing parenthesis at
the very end; everything between the outer parentheses is the argument list. Otherwise it is read as
a literal. An argument that cannot be read is kept as a hole, and a text whose parentheses nest more
than 64 deep is not read at all.

Specification: `SPEC_FULL.md`, section 4.2.
-/

namespace Lilac

namespace Text

/-- The parts of a text of call shape: the name, and what stands between the parenthesis after it
and the final one. -/
def callParts? (t : Text) : Option (Text × Text) :=
  match t.takeWhile isWord, t.dropWhile isWord with
  | c :: name, '(' :: rest =>
    if rest.getLast? = some ')' then some (c :: name, rest.dropLast) else none
  | _, _ => none

/-- The argument list of a call is at least two characters shorter than the call. -/
theorem length_callParts? {t name inner : Text} (h : t.callParts? = some (name, inner)) :
    inner.length + 2 ≤ t.length := by
  unfold callParts? at h
  split at h
  · next c word rest hword hrest =>
    split at h
    · next hlast =>
      obtain ⟨-, rfl⟩ := Prod.mk.inj (Option.some.inj h)
      have hle := (List.dropWhile_sublist (l := t) isWord).length_le
      rw [hrest, List.length_cons] at hle
      have hne : rest ≠ [] := by
        rintro rfl
        simp at hlast
      have hpos := List.length_pos_iff.2 hne
      rw [List.length_dropLast]
      omega
    · cases h
  · cases h

/-- Putting a character in front of the first piece makes no other piece longer. -/
theorem length_le_of_mem_consHead {c : Char} {ps : List Text} {n : Nat}
    (h : ∀ p ∈ ps, p.length ≤ n) {p : Text} (hp : p ∈ consHead c ps) : p.length ≤ n + 1 := by
  cases ps with
  | nil =>
    simp only [consHead, List.mem_singleton] at hp
    subst hp
    simp
  | cons q qs =>
    rcases List.mem_cons.1 hp with rfl | hq
    · simpa using h q List.mem_cons_self
    · exact Nat.le_succ_of_le (h p (List.mem_cons_of_mem _ hq))

/-- No piece between top-level commas is longer than the argument list. -/
theorem length_le_of_mem_argumentPiecesFrom {mode : Mode} {depth : Int} {t p : Text}
    (h : p ∈ argumentPiecesFrom mode depth t) : p.length ≤ t.length := by
  induction t generalizing mode depth p with
  | nil => simp_all [argumentPiecesFrom]
  | cons c t ih =>
    simp only [argumentPiecesFrom] at h
    split at h
    · split at h
      · rcases List.mem_cons.1 h with rfl | h
        · simp
        · exact Nat.le_succ_of_le (ih h)
      · exact length_le_of_mem_consHead (fun q hq ↦ ih hq) h
    · exact length_le_of_mem_consHead (fun q hq ↦ ih hq) h

/-- Dropping a blank last piece adds no pieces. -/
theorem mem_of_mem_dropBlankTail {ps : List Text} {p : Text} (h : p ∈ dropBlankTail ps) :
    p ∈ ps := by
  induction ps with
  | nil => simp [dropBlankTail] at h
  | cons q qs ih =>
    cases qs with
    | nil =>
      simp only [dropBlankTail] at h
      split at h
      · simp at h
      · exact h
    | cons r rs =>
      simp only [dropBlankTail] at h
      rcases List.mem_cons.1 h with rfl | h
      · exact List.mem_cons_self
      · exact List.mem_cons_of_mem _ (ih h)

/-- No argument is longer than the argument list. -/
theorem length_le_of_mem_arguments {t p : Text} (h : p ∈ t.arguments) : p.length ≤ t.length :=
  length_le_of_mem_argumentPiecesFrom (mem_of_mem_dropBlankTail h)

end Text

namespace Term

/-- Texts whose parentheses nest deeper than this are not read. -/
def nestingLimit : Nat := 64

/-- Reads a term that makes up the whole text. Follows `parse_function_call`. -/
def parse? (t : Text) : Option Term :=
  if nestingLimit < t.nesting then none
  else
    match _parts : t.callParts? with
    | some (name, inner) => some (.call name (inner.arguments.attach.map fun p ↦ parse? p.val.trim))
    | none => (Literal.parse? t).map .literal
termination_by t.length
decreasing_by
  have hp := Text.length_le_of_mem_arguments p.property
  have ht := Text.length_trim_le p.val
  have hc := Text.length_callParts? _parts
  omega

/-- Reads an argument list; an argument that cannot be read becomes a hole. Follows
`parse_function_arguments`. -/
def parseArguments (t : Text) : List (Option Term) := t.arguments.map fun p ↦ parse? p.trim

/-- The reader in one equation: a call reads its argument list, anything else is a literal. -/
theorem parse?_eq (t : Text) :
    parse? t =
      if nestingLimit < t.nesting then none
      else
        match t.callParts? with
        | some (name, inner) => some (.call name (parseArguments inner))
        | none => (Literal.parse? t).map .literal := by
  rw [parse?]
  split
  · rfl
  · split
    · next h => simp [h, parseArguments]
    · next h => simp [h]

end Term

end Lilac
