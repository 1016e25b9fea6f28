import Lilac.Proofs.Lines

/-!
# Where scanned lines stand

The place of a scanned line is genuine: cutting the source text there gives the text of the line,
which is trimmed and, unless the line is blank, not empty. Neither dropping carriage returns and
comments nor splitting a brace off a header moves it. Scanned lines come in the strict order of
their places, so no two of them stand at the same place.
-/

namespace Lilac

/-! ## Places -/

namespace Span

/-- Whether a place comes before another: on an earlier line, or further left on the same line. -/
def Before (a b : Span) : Prop := a.line < b.line ∨ a.line = b.line ∧ a.column < b.column

instance (a b : Span) : Decidable (Before a b) :=
  inferInstanceAs (Decidable (a.line < b.line ∨ a.line = b.line ∧ a.column < b.column))

private theorem Before.ne {a b : Span} (h : Before a b) : a ≠ b := by
  rintro rfl
  rcases h with h | ⟨-, h⟩ <;> omega

/-- The characters of a source text at a place: those of the line from the column up to, but not
including, the end column. -/
def cut (source : Text) (s : Span) : Text :=
  (source.lines.getD (s.line - 1).toNat []).extract (s.column - 1).toNat (s.endColumn - 1).toNat

/-- A place that points at the text of a scanned line: it lies within the source text, and the
characters there are not none and neither start nor end with a blank. -/
structure Genuine (source : Text) (s : Span) : Prop where
  line_pos : 1 ≤ s.line
  line_le : s.line ≤ source.lines.length
  column_pos : 1 ≤ s.column
  column_lt : s.column < s.endColumn
  length_cut : (s.cut source).length = s.endColumn - s.column
  cut_ne_nil : s.cut source ≠ []
  tight_cut : (s.cut source).Tight
  scanned : ∃ line ∈ Line.scan source, line.span = s ∧ line.text = s.cut source

end Span

/-! ## One physical line -/

private theorem Text.extract_append_append (a t b : Text) :
    (a ++ t ++ b).extract a.length (a.length + t.length) = t := by
  simp [List.extract_eq_take_drop]

private theorem Text.front_of_looksLikeHeader {front : Text}
    (h : looksLikeHeader (front ++ ['{']) = true) :
    front ≠ [] ∧ ∀ c ∈ front.head?, isBlank c = false := by
  cases front with
  | nil => cases h
  | cons c front =>
    refine ⟨List.cons_ne_nil c front, fun d hd ↦ ?_⟩
    obtain rfl := Option.some.inj hd
    unfold looksLikeHeader at h
    split at h
    · next heq => rw [(List.cons.inj heq).1]; decide
    · next heq => rw [(List.cons.inj heq).1]; decide
    · cases h

private theorem Text.trimRight_ne_nil {t : Text} (hne : t ≠ [])
    (h : ∀ c ∈ t.head?, isBlank c = false) : trimRight t ≠ [] := by
  obtain ⟨c, rest, rfl⟩ := List.exists_cons_of_ne_nil hne
  have hpre : [c] <+: trimRight (c :: rest) :=
    prefix_trimRight (List.prefix_append [c] rest) (fun d hd ↦ h d hd)
  exact hpre.ne_nil (List.cons_ne_nil c [])

namespace Line

/-- A line whose place, on the physical line with a number, is where its trimmed text stands; only a
blank line has no text. -/
structure StandsIn (number : Nat) (raw : Text) (line : Line) : Prop where
  onLine : line.span.line = number
  column_pos : 1 ≤ line.span.column
  endColumn_eq : line.span.endColumn = line.span.column + line.text.length
  tight : line.text.Tight
  ne_nil : line.kind ≠ .blank → line.text ≠ []
  cut : raw.extract (line.span.column - 1).toNat (line.span.endColumn - 1).toNat = line.text

/-- Lines that stand in a physical line, one after the other. -/
structure StandIn (number : Nat) (raw : Text) (lines : List Line) : Prop where
  each : ∀ line ∈ lines, StandsIn number raw line
  ordered : lines.Pairwise (·.span.Before ·.span)

/-- A trimmed part of a physical line stands behind what precedes it. -/
theorem standsIn_starting (kind : LineKind) {text : Text} (htight : text.Tight)
    (hne : kind ≠ .blank → text ≠ []) (number : Nat) (a b : Text) :
    StandsIn number (a ++ text ++ b) (.starting kind text number (a.length + 1)) where
  onLine := rfl
  column_pos := by
    simp only [starting]
    omega
  endColumn_eq := rfl
  tight := htight
  ne_nil := hne
  cut := by
    have hstart : ((a.length + 1 : Nat) - 1 : Int).toNat = a.length := by omega
    have hstop : ((a.length + 1 : Nat) + text.length - 1 : Int).toNat = a.length + text.length := by
      omega
    simp only [starting, hstart, hstop, Text.extract_append_append]

private theorem standIn_singleton (kind : LineKind) {text : Text} (htight : text.Tight)
    (hne : kind ≠ .blank → text ≠ []) (number : Nat) (a b : Text) :
    StandIn number (a ++ text ++ b) [.starting kind text number (a.length + 1)] :=
  ⟨List.forall_mem_singleton.mpr (standsIn_starting kind htight hne number a b),
    List.pairwise_singleton _ _⟩

/-- A header and the brace at its end, split off. -/
private theorem standIn_header_opening {front : Text}
    (hlooks : Text.looksLikeHeader (front ++ ['{']) = true) (number : Nat) (a b : Text) :
    StandIn number (a ++ (front ++ ['{']) ++ b)
      [.starting .header (Text.trimRight front) number (a.length + 1),
        .starting .opening ['{'] number (a.length + 1 + (front ++ ['{']).length - 1)] := by
  obtain ⟨hne, hhead⟩ := Text.front_of_looksLikeHeader hlooks
  obtain ⟨blanks, -, hfront⟩ := Text.exists_trimRight_append front
  have htight : (Text.trimRight front).Tight :=
    ⟨Text.head_of_isPrefix (Text.trimRight_isPrefix front) hhead, Text.getLast_trimRight front⟩
  have hbrace : Text.Tight ['{'] := ⟨by simp; decide, by simp; decide⟩
  have hheader := standsIn_starting .header htight
    (fun _ ↦ Text.trimRight_ne_nil hne hhead) number a (blanks ++ ['{'] ++ b)
  have hopening := standsIn_starting .opening hbrace (fun _ ↦ List.cons_ne_nil _ _) number
    (a ++ front) b
  have hsplit : a ++ Text.trimRight front ++ (blanks ++ ['{'] ++ b) =
      a ++ (front ++ ['{']) ++ b := by
    conv => rhs; rw [hfront]
    simp
  have hsame : a ++ front ++ ['{'] ++ b = a ++ (front ++ ['{']) ++ b := by simp
  have hcolumn : (a ++ front).length + 1 = a.length + 1 + (front ++ ['{']).length - 1 := by
    simp only [List.length_append, List.length_cons, List.length_nil]
    omega
  rw [hsplit] at hheader
  rw [hsame, hcolumn] at hopening
  have hpos := List.length_pos_iff.mpr hne
  refine ⟨List.forall_mem_cons.mpr ⟨hheader, List.forall_mem_singleton.mpr hopening⟩,
    List.pairwise_pair.mpr (.inr ⟨rfl, ?_⟩)⟩
  simp only [starting, List.length_append, List.length_cons, List.length_nil]
  omega

/-- The lines that a trimmed text is classified as stand where it does. -/
theorem standIn_classify {text : Text} (htight : text.Tight) (number : Nat) (a b : Text) :
    StandIn number (a ++ text ++ b) (classify number (a.length + 1) text) := by
  unfold classify
  split
  · next hnil =>
    -- A blank line is placed at the first column, however many blanks it has.
    subst hnil
    rw [List.append_nil]
    exact standIn_singleton _ htight (fun h ↦ absurd rfl h) number [] (a ++ b)
  next hne =>
  split
  · exact standIn_singleton _ htight (fun _ ↦ hne) number a b
  split
  · exact standIn_singleton _ htight (fun _ ↦ hne) number a b
  split
  · next hlooks =>
    split
    · next hlast =>
      obtain ⟨front, rfl⟩ := List.getLast?_eq_some_iff.mp hlast
      rw [List.dropLast_concat]
      exact standIn_header_opening hlooks number a b
    · exact standIn_singleton _ htight (fun _ ↦ hne) number a b
  · exact standIn_singleton _ htight (fun _ ↦ hne) number a b

/-- The lines of a physical line stand in it. -/
theorem standIn_ofPhysical (number : Nat) (raw : Text) :
    StandIn number raw (ofPhysical number raw) := by
  obtain ⟨a, -, hleft⟩ := Text.exists_append_trimLeft (content raw)
  obtain ⟨b, -, hright⟩ := Text.exists_trimRight_append (content raw).trimLeft
  obtain ⟨comment, hcomment⟩ := content_isPrefix raw
  have hraw : a ++ (content raw).trim ++ (b ++ comment) = raw := by
    rw [List.append_assoc, ← List.append_assoc _ b, Text.trim, ← hright, ← List.append_assoc,
      ← hleft, hcomment]
  have hcolumn : (content raw).length - (content raw).trimLeft.length = a.length := by
    have hlength := congrArg List.length hleft
    rw [List.length_append] at hlength
    omega
  have hclassify := standIn_classify (Text.tight_trim (content raw)) number a (b ++ comment)
  rw [hraw] at hclassify
  rw [ofPhysical]
  simpa only [hcolumn] using hclassify

/-! ## All lines of a source text -/

/-- Each scanned line stands in one of the physical lines. -/
theorem exists_standsIn_of_mem_ofPhysicals {number : Nat} {raws : List Text} {line : Line}
    (h : line ∈ ofPhysicals number raws) :
    ∃ i raw, raws[i]? = some raw ∧ StandsIn (number + i) raw line := by
  induction raws generalizing number with
  | nil => cases h
  | cons raw raws ih =>
    rcases List.mem_append.mp h with h | h
    · exact ⟨0, raw, rfl, (standIn_ofPhysical number raw).each line h⟩
    · obtain ⟨i, other, hi, hstands⟩ := ih h
      refine ⟨i + 1, other, hi, ?_⟩
      rwa [Nat.add_right_comm] at hstands

/-- Scanned lines come in the order of their places. -/
theorem pairwise_ofPhysicals (number : Nat) (raws : List Text) :
    (ofPhysicals number raws).Pairwise (·.span.Before ·.span) := by
  induction raws generalizing number with
  | nil => exact .nil
  | cons raw raws ih =>
    have hfirst := standIn_ofPhysical number raw
    refine List.pairwise_append.mpr ⟨hfirst.ordered, ih (number + 1), fun a ha b hb ↦ .inl ?_⟩
    obtain ⟨i, other, -, hb⟩ := exists_standsIn_of_mem_ofPhysicals hb
    rw [(hfirst.each a ha).onLine, hb.onLine]
    omega

/-- Scanned lines come in the order of their places. -/
theorem pairwise_scan (source : Text) : (scan source).Pairwise (·.span.Before ·.span) :=
  pairwise_ofPhysicals 1 source.lines

/-- No two scanned lines stand at the same place. -/
theorem nodup_spans (source : Text) : ((scan source).map (·.span)).Nodup :=
  List.pairwise_map.mpr ((pairwise_scan source).imp Span.Before.ne)

/-- Cutting at the place of a scanned line gives its text. -/
theorem cut_span {source : Text} {line : Line} (h : line ∈ scan source) :
    line.span.cut source = line.text := by
  obtain ⟨i, raw, hraw, hstands⟩ := exists_standsIn_of_mem_ofPhysicals h
  have hnumber : (line.span.line - 1).toNat = i := by
    rw [hstands.onLine]
    omega
  rw [Span.cut, hnumber, List.getD_eq_getElem?_getD, hraw]
  exact hstands.cut

/-- The place of a scanned line that is not blank is genuine. -/
theorem genuine_span {source : Text} {line : Line} (h : line ∈ scan source)
    (hblank : line.kind ≠ .blank) : line.span.Genuine source := by
  obtain ⟨i, raw, hraw, hstands⟩ := exists_standsIn_of_mem_ofPhysicals h
  have hcut := cut_span h
  have hne := hstands.ne_nil hblank
  have hpos := List.length_pos_iff.mpr hne
  have hline := hstands.onLine
  have hend := hstands.endColumn_eq
  have hlast : i < source.lines.length := (List.getElem?_eq_some_iff.mp hraw).1
  exact {
    line_pos := by omega
    line_le := by omega
    column_pos := hstands.column_pos
    column_lt := by omega
    length_cut := by rw [hcut]; omega
    cut_ne_nil := hcut.symm ▸ hne
    tight_cut := hcut.symm ▸ hstands.tight
    scanned := ⟨line, h, rfl, hcut.symm⟩ }

end Line

end Lilac
