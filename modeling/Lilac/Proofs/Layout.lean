import Lilac.Proofs.Composition
import Mathlib.Data.List.Forall2

/-!
# Layout and comments

What a physical line means is its trimmed text without comment. Cutting a line down to that text a
second time changes nothing, so a source text in which every line is cut down has the same document
but for columns. Carriage returns and comments at the end of a line do not even change columns. A
brace that is moved from the end of a header to a line of its own moves everything below it down,
and changes nothing but places.

About `scan` and `parse_document`. Specification: `SPEC_FULL.md`, section 2.
-/

namespace Lilac

namespace Text

/-! ## Comments -/

/-- No comment starts in front of the place where a comment was cut away. -/
private theorem uncommentedFrom_of_isPrefix {mode : Mode} {a t : Text}
    (h : a <+: uncommentedFrom mode t) : uncommentedFrom mode a = a := by
  induction t generalizing mode a with
  | nil => rw [List.prefix_nil.mp h, uncommentedFrom]
  | cons c t ih =>
    by_cases hcomment : mode = .outside ∧ c = '/' ∧ t.head? = some '/'
    · obtain ⟨rfl, rfl, ht⟩ := hcomment
      obtain ⟨rest, rfl⟩ := List.head?_eq_some_iff.mp ht
      rw [List.prefix_nil.mp h, uncommentedFrom]
    · rw [uncommentedFrom_cons hcomment] at h
      cases a with
      | nil => rw [uncommentedFrom]
      | cons d a =>
        obtain ⟨rfl, ha⟩ := List.cons_prefix_cons.mp h
        have hsame : ¬(mode = .outside ∧ d = '/' ∧ a.head? = some '/') := by
          rintro ⟨hmode, hd, hhead⟩
          obtain ⟨rest, rfl⟩ := List.head?_eq_some_iff.mp hhead
          obtain ⟨more, rfl⟩ := ha.trans (uncommentedFrom_isPrefix _ t)
          exact hcomment ⟨hmode, hd, rfl⟩
        rw [uncommentedFrom_cons hsame, ih ha]

/-- A comment can be put behind a text that leads out of every string literal and does not end with
a slash. -/
private theorem uncommentedFrom_append_comment {mode : Mode} {t : Text}
    (houtside : mode.after (uncommentedFrom mode t) = .outside) (hlast : t.getLast? ≠ some '/')
    (comment : Text) :
    uncommentedFrom mode (t ++ '/' :: '/' :: comment) = uncommentedFrom mode t := by
  induction t generalizing mode with
  | nil =>
    obtain rfl : mode = .outside := houtside
    rfl
  | cons c t ih =>
    by_cases hcomment : mode = .outside ∧ c = '/' ∧ t.head? = some '/'
    · obtain ⟨rfl, rfl, ht⟩ := hcomment
      obtain ⟨rest, rfl⟩ := List.head?_eq_some_iff.mp ht
      rfl
    · have hsame : ¬(mode = .outside ∧ c = '/' ∧
          (t ++ '/' :: '/' :: comment).head? = some '/') := by
        rintro ⟨hmode, rfl, hhead⟩
        cases t with
        | nil => exact hlast rfl
        | cons d t => exact hcomment ⟨hmode, rfl, hhead⟩
      have hrest : t.getLast? ≠ some '/' := by
        intro ht
        rw [List.getLast?_cons, ht] at hlast
        exact hlast rfl
      rw [uncommentedFrom_cons hcomment] at houtside
      rw [List.cons_append, uncommentedFrom_cons hsame, uncommentedFrom_cons hcomment,
        ih houtside hrest]

/-- Text without slashes behind a text is part of its comment, if it has one, or else not. -/
private theorem exists_uncommentedFrom_append {r : Text} (hslash : '/' ∉ r) (mode : Mode)
    (t : Text) : ∃ s, s <+: r ∧ uncommentedFrom mode (t ++ r) = uncommentedFrom mode t ++ s := by
  induction t generalizing mode with
  | nil =>
    refine ⟨r, List.prefix_rfl, ?_⟩
    have hall := uncommentedFrom_append hslash mode []
    rwa [uncommentedFrom, List.append_nil] at hall
  | cons c t ih =>
    by_cases hcomment : mode = .outside ∧ c = '/' ∧ t.head? = some '/'
    · obtain ⟨rfl, rfl, ht⟩ := hcomment
      obtain ⟨rest, rfl⟩ := List.head?_eq_some_iff.mp ht
      exact ⟨[], List.nil_prefix, rfl⟩
    · have hsame : ¬(mode = .outside ∧ c = '/' ∧ (t ++ r).head? = some '/') := by
        rintro ⟨hmode, hc, hhead⟩
        cases t with
        | nil => exact hslash (List.mem_of_mem_head? hhead)
        | cons d t => exact hcomment ⟨hmode, hc, hhead⟩
      obtain ⟨s, hs, happend⟩ := ih (mode.next c)
      refine ⟨s, hs, ?_⟩
      rw [List.cons_append, uncommentedFrom_cons hsame, uncommentedFrom_cons hcomment, happend,
        List.cons_append]

/-! ## Carriage returns -/

private theorem exists_dropReturns_append (t : Text) :
    ∃ r, (∀ c ∈ r, c = '\r') ∧ t = dropReturns t ++ r := by
  refine ⟨(t.reverse.takeWhile (· = '\r')).reverse, ?_, ?_⟩
  · intro c hc
    have hall := List.all_takeWhile (p := (· = '\r')) (l := t.reverse)
    exact of_decide_eq_true (List.all_eq_true.mp hall c (List.mem_reverse.mp hc))
  · rw [dropReturns, ← List.reverse_append, List.takeWhile_append_dropWhile, List.reverse_reverse]

private theorem dropReturns_append_of_returns {r : Text} (hr : ∀ c ∈ r, c = '\r') (t : Text) :
    dropReturns (t ++ r) = dropReturns t := by
  have hall : ∀ c ∈ r.reverse, decide (c = '\r') = true := by
    intro c hc
    exact decide_eq_true (hr c (List.mem_reverse.mp hc))
  rw [dropReturns, List.reverse_append, List.dropWhile_append_of_pos hall, dropReturns]

private theorem dropReturns_append_cons {c : Char} (hc : c ≠ '\r') (a b : Text) :
    dropReturns (a ++ c :: b) = a ++ c :: dropReturns b := by
  have hrest : (c :: a.reverse).dropWhile (· = '\r') = c :: a.reverse := by simp [hc]
  have hsplit : (a ++ c :: b).reverse = b.reverse ++ c :: a.reverse := by simp
  rw [dropReturns, hsplit, List.dropWhile_append, hrest]
  split
  · next hempty =>
    have hnil : dropReturns b = [] := by rw [dropReturns, List.isEmpty_iff.mp hempty]; rfl
    rw [hnil]
    simp
  · simp [dropReturns]

private theorem isBlank_of_returns {r : Text} (hr : ∀ c ∈ r, c = '\r') :
    ∀ c ∈ r, isBlank c = true := by
  intro c hc
  rw [hr c hc]
  decide

/-- The text with a carriage return in front of every line feed. -/
def withReturns (t : Text) : Text := t.flatMap fun c ↦ if c = '\n' then ['\r', '\n'] else [c]

/-- A carriage return in front of every line feed ends every line but the last. -/
private theorem forall₂_lines_withReturns (t : Text) :
    List.Forall₂ (fun a b ↦ a = b ∨ a = b ++ ['\r']) t.withReturns.lines t.lines := by
  induction t with
  | nil => exact .cons (.inl rfl) .nil
  | cons c t ih =>
    by_cases hc : c = '\n'
    · subst hc
      exact .cons (.inr rfl) ih
    · have hreturns : withReturns (c :: t) = c :: withReturns t := by simp [withReturns, hc]
      have hpieces (s : Text) : lines (c :: s) = consHead c (lines s) := by
        simp only [lines, pieces, if_neg hc]
      rw [hreturns, hpieces, hpieces]
      generalize lines (withReturns t) = before, lines t = after at ih ⊢
      cases ih with
      | nil => exact .cons (.inl rfl) .nil
      | cons hline hrest =>
        refine .cons ?_ hrest
        rcases hline with rfl | rfl
        · exact .inl rfl
        · exact .inr rfl

/-! ## Headers -/

private theorem looksLikeHeader_iff {t : Text} :
    looksLikeHeader t = true ↔
      ∃ rest, t = 'f' :: 'u' :: 'n' :: 'c' :: rest ∧ ∀ c ∈ rest.head?, isBlank c = true := by
  constructor
  · intro h
    unfold looksLikeHeader at h
    split at h
    · exact ⟨[], rfl, fun c hc ↦ nomatch hc⟩
    · next c rest => exact ⟨c :: rest, rfl, fun d hd ↦ Option.some.inj hd ▸ h⟩
    · cases h
  · rintro ⟨rest, rfl, hblank⟩
    cases rest with
    | nil => rfl
    | cons c rest => exact hblank c rfl

/-- What is in front of the brace of a header looks like a header. -/
private theorem looksLikeHeader_trimRight {front : Text}
    (h : looksLikeHeader (front ++ ['{']) = true) : looksLikeHeader (trimRight front) = true := by
  obtain ⟨rest, hrest, hblank⟩ := looksLikeHeader_iff.mp h
  obtain ⟨middle, rfl, hmiddle⟩ : ∃ middle, front = 'f' :: 'u' :: 'n' :: 'c' :: middle ∧
      ∀ c ∈ middle.head?, isBlank c = true := by
    rcases List.eq_nil_or_concat rest with rfl | ⟨middle, brace, rfl⟩
    · have hlast := congrArg List.getLast? hrest
      rw [List.getLast?_concat] at hlast
      cases hlast
    · rw [List.concat_eq_append] at hrest hblank
      have hconcat : front ++ ['{'] = ('f' :: 'u' :: 'n' :: 'c' :: middle) ++ [brace] := hrest
      refine ⟨middle, (List.append_inj' hconcat rfl).1, fun c hc ↦ hblank c ?_⟩
      rw [List.head?_append, Option.mem_def.mp hc]
      rfl
  have hword : ['f', 'u', 'n', 'c'] <+: trimRight ('f' :: 'u' :: 'n' :: 'c' :: middle) :=
    prefix_trimRight ⟨middle, rfl⟩ (by simp; decide)
  obtain ⟨kept, hkept⟩ := hword
  have hprefix : kept <+: middle := by
    have hcut := trimRight_isPrefix ('f' :: 'u' :: 'n' :: 'c' :: middle)
    rw [← hkept] at hcut
    simpa using hcut
  refine looksLikeHeader_iff.mpr ⟨kept, hkept.symm, ?_⟩
  intro c hc
  obtain ⟨tail, rfl⟩ := hprefix
  exact hmiddle c (by rw [List.head?_append, Option.mem_def.mp hc]; rfl)

end Text

/-- The start of the line that a place is on. -/
def Span.start (s : Span) : Span := ⟨s.line, 1, 1⟩

namespace Line

/-! ## What is left of a line -/

/-- What a physical line means: its content without the blanks around it. -/
def tidy (raw : Text) : Text := (content raw).trim

private theorem tidy_isInfix (raw : Text) : tidy raw <:+: raw :=
  (Text.trim_isInfix _).trans (content_isPrefix raw).isInfix

private theorem content_tidy (raw : Text) : content (tidy raw) = tidy raw := by
  have htight : (tidy raw).Tight := Text.tight_trim _
  have hreturn : (tidy raw).getLast? ≠ some '\r' := by
    intro hlast
    exact absurd (htight.2 '\r' hlast) (by decide)
  obtain ⟨a, b, ha, -, hcontent⟩ := Text.exists_eq_append_trim_append (content raw)
  have hne (d : Char) (hd : isBlank d = false) : d ∉ a := by
    intro hmem
    rw [ha d hmem] at hd
    cases hd
  -- The blanks in front lead into no string literal, so what follows them is read alike.
  have hfront : Text.uncommented (a ++ tidy raw) = a ++ tidy raw :=
    Text.uncommentedFrom_of_isPrefix ⟨b, hcontent.symm⟩
  rw [Text.uncommented, Text.uncommentedFrom_append (hne '/' (by decide)),
    Mode.after_outside (hne '"' (by decide))] at hfront
  rw [content, Text.dropReturns_eq_self hreturn]
  exact List.append_cancel_left hfront

private theorem tidy_tidy (raw : Text) : tidy (tidy raw) = tidy raw := by
  rw [tidy, content_tidy]
  exact (Text.tight_trim _).trim_eq

/-- A physical line is classified by what it means. -/
theorem ofPhysical_eq (number : Nat) (raw : Text) :
    ofPhysical number raw =
      classify number ((content raw).length - (content raw).trimLeft.length + 1) (tidy raw) := rfl

private theorem ofPhysical_eq_of_content_append {raw raw' b : Text} (hb : ∀ c ∈ b, isBlank c = true)
    (h : content raw' = content raw ++ b) (number : Nat) :
    ofPhysical number raw' = ofPhysical number raw := by
  have htidy : tidy raw' = tidy raw := by rw [tidy, h, Text.trim_append_of_blank_right hb, tidy]
  rw [ofPhysical_eq, ofPhysical_eq, htidy, h]
  by_cases hblank : (content raw).trimLeft = []
  · have hnil : tidy raw = [] := by rw [tidy, Text.trim, hblank]; rfl
    rw [hnil, classify, if_pos rfl, classify, if_pos rfl]
  · have hcolumn : (content raw ++ b).length - (content raw ++ b).trimLeft.length =
        (content raw).length - (content raw).trimLeft.length := by
      rw [Text.trimLeft_append_of_ne_nil hblank, List.length_append, List.length_append]
      omega
    rw [hcolumn]

private theorem ofPhysical_append_return (number : Nat) (raw : Text) :
    ofPhysical number (raw ++ ['\r']) = ofPhysical number raw := by
  have hcontent : content (raw ++ ['\r']) = content raw := by
    rw [content, Text.dropReturns_append_of_returns (by simp), content]
  rw [ofPhysical, hcontent, ofPhysical]

private theorem exists_content_append_comment {raw : Text} (hlast : raw.getLast? ≠ some '/')
    (houtside : Mode.outside.after (content raw) = .outside) (comment : Text) :
    ∃ b, (∀ c ∈ b, isBlank c = true) ∧
      content (raw ++ '/' :: '/' :: comment) = content raw ++ b := by
  obtain ⟨r, hr, hraw⟩ := Text.exists_dropReturns_append raw
  have hslash : '/' ∉ r := fun hmem ↦ absurd (hr _ hmem) (by decide)
  have hquote : '"' ∉ r := fun hmem ↦ absurd (hr _ hmem) (by decide)
  obtain ⟨s, hs, hsame⟩ := Text.exists_uncommentedFrom_append hslash .outside raw.dropReturns
  rw [← hraw] at hsame
  have hblank := Text.isBlank_of_returns hr
  refine ⟨s, fun c hc ↦ hblank c (hs.subset hc), ?_⟩
  -- The slashes keep the carriage returns at the end of the line from being dropped; those at the
  -- end of the comment are part of it.
  have hdrop : Text.dropReturns (raw ++ '/' :: '/' :: comment) =
      raw ++ '/' :: '/' :: Text.dropReturns comment := by
    rw [Text.dropReturns_append_cons (by decide), ← List.nil_append ('/' :: comment),
      Text.dropReturns_append_cons (by decide)]
    rfl
  have hafter : Mode.outside.after (Text.uncommentedFrom .outside raw) = .outside := by
    have hfront : Mode.outside.after (Text.uncommentedFrom .outside raw.dropReturns) = .outside :=
      houtside
    rw [hsame, Mode.after_append, hfront, Mode.after_outside fun hmem ↦ hquote (hs.subset hmem)]
  rw [content, hdrop, Text.uncommented, Text.uncommentedFrom_append_comment hafter hlast, hsame]
  rfl

/-! ## Forgetting places -/

/-- The column has no part in how a text is classified. -/
private theorem map_classify_eq {f : Span → Span} (hf : ∀ s t : Span, s.line = t.line → f s = f t)
    (number column column' : Nat) (text : Text) :
    (classify number column text).map (mapPlace f) =
      (classify number column' text).map (mapPlace f) := by
  have hplace (kind : LineKind) (text : Text) (a b : Nat) :
      mapPlace f (starting kind text number a) = mapPlace f (starting kind text number b) := by
    simp only [mapPlace, starting]
    rw [hf]
    rfl
  unfold classify
  split
  · rfl
  split
  · exact congrArg (fun line ↦ [line]) (hplace _ _ _ _)
  split
  · exact congrArg (fun line ↦ [line]) (hplace _ _ _ _)
  split
  · split
    · exact congrArg₂ (fun line brace ↦ [line, brace]) (hplace _ _ _ _) (hplace _ _ _ _)
    · exact congrArg (fun line ↦ [line]) (hplace _ _ _ _)
  · exact congrArg (fun line ↦ [line]) (hplace _ _ _ _)

private theorem map_ofPhysical_eq {f : Span → Span} (hf : ∀ s t : Span, s.line = t.line → f s = f t)
    {raw raw' : Text} (h : tidy raw = tidy raw') (number : Nat) :
    (ofPhysical number raw).map (mapPlace f) = (ofPhysical number raw').map (mapPlace f) := by
  rw [ofPhysical_eq, ofPhysical_eq, h]
  exact map_classify_eq hf number _ _ _

/-! ## Source texts laid out anew -/

private theorem ofPhysicals_eq_of_forall₂ {raws raws' : List Text}
    (h : List.Forall₂ (fun a b ↦ ∀ number, ofPhysical number a = ofPhysical number b) raws raws')
    (number : Nat) : ofPhysicals number raws = ofPhysicals number raws' := by
  induction h generalizing number with
  | nil => rfl
  | cons hline _ ih => rw [ofPhysicals, hline, ih, ofPhysicals]

private theorem map_ofPhysicals_tidy {f : Span → Span}
    (hf : ∀ s t : Span, s.line = t.line → f s = f t) (number : Nat) (raws : List Text) :
    (ofPhysicals number (raws.map tidy)).map (mapPlace f) =
      (ofPhysicals number raws).map (mapPlace f) := by
  induction raws generalizing number with
  | nil => rfl
  | cons raw raws ih =>
    rw [List.map_cons, ofPhysicals, ofPhysicals, List.map_append, List.map_append, ih,
      map_ofPhysical_eq hf (tidy_tidy raw)]

private theorem map_ofPhysicals_add {f : Span → Span} (hf : ∀ s t : Span, f s = f t)
    (number k : Nat) (raws : List Text) :
    (ofPhysicals (number + k) raws).map (mapPlace f) =
      (ofPhysicals number raws).map (mapPlace f) := by
  have hplace : mapPlace f ∘ mapPlace (Span.down k) = mapPlace f := by
    funext line
    simp only [Function.comp_apply, mapPlace]
    rw [hf (Span.down k line.span) line.span]
  rw [ofPhysicals_add, List.map_map, hplace]

/-- A header with a brace at its end is scanned like the header and the brace on lines of their own,
but for places. -/
private theorem map_ofPhysical_brace {f : Span → Span} (hf : ∀ s t : Span, f s = f t)
    {raw header raw' brace : Text} (hraw : tidy raw = header ++ ['{'])
    (hlooks : (tidy raw).looksLikeHeader = true) (hheader : tidy raw' = header.trimRight)
    (hlast : header.trimRight.getLast? ≠ some '{') (hbrace : tidy brace = ['{'])
    (number number' : Nat) :
    (ofPhysical number raw).map (mapPlace f) =
      (ofPhysical number raw' ++ ofPhysical number' brace).map (mapPlace f) := by
  have hplace (kind : LineKind) (text : Text) (n n' a b : Nat) :
      mapPlace f (starting kind text n a) = mapPlace f (starting kind text n' b) := by
    simp only [mapPlace, starting]
    rw [hf]
  have hlooks' : (Text.trimRight header).looksLikeHeader = true :=
    Text.looksLikeHeader_trimRight (hraw ▸ hlooks)
  have hne (t : Text) (ht : t.looksLikeHeader = false) : tidy raw ≠ t := by
    rintro rfl
    rw [hlooks] at ht
    cases ht
  have hends : (tidy raw).getLast? = some '{' := by rw [hraw, List.getLast?_concat]
  have hbraced (column : Nat) : classify number column (tidy raw) =
      [starting .header header.trimRight number column,
        starting .opening ['{'] number (column + (tidy raw).length - 1)] := by
    rw [classify, if_neg (hne _ rfl), if_neg (hne _ rfl), if_neg (hne _ rfl), if_pos hlooks,
      if_pos hends, hraw, List.dropLast_concat]
  have hopening (column : Nat) : classify number' column ['{'] =
      [starting .opening ['{'] number' column] := rfl
  rw [ofPhysical_eq, hbraced, ofPhysical_eq, ofPhysical_eq, hheader, hbrace,
    classify_header hlooks' hlast, hopening]
  exact congrArg₂ (fun line brace ↦ [line, brace]) (hplace _ _ _ _ _ _) (hplace _ _ _ _ _ _)

end Line

/-- The source text with every line cut down to what it means. -/
def Text.tidied (source : Text) : Text := join ['\n'] (source.lines.map Line.tidy)

namespace Document

/-- The lines of a source text that is put together from lines. -/
theorem lines_join {raws : List Text} (hne : raws ≠ []) (h : ∀ raw ∈ raws, '\n' ∉ raw) :
    (Text.join ['\n'] raws).lines = raws := Text.pieces_join hne h

/-- Documents that differ in their places only have the same functions. -/
theorem functions_eq_of_mapPlaces_eq {f : Span → Span} {d d' : Document Span}
    (h : d.mapPlaces f = d'.mapPlaces f) : d.functions = d'.functions := by
  have hfunctions := congrArg functions h
  simpa [functions, mapPlaces, Function.comp_def] using hfunctions

/-- Documents that differ in their places only have the same faults, and what is left of the places
is the same too. -/
theorem map_issues_eq_of_mapPlaces_eq {f : Span → Span} {d d' : Document Span}
    (h : d.mapPlaces f = d'.mapPlaces f) :
    d.issues.map (fun i ↦ (i.fault, f i.place)) = d'.issues.map fun i ↦ (i.fault, f i.place) := by
  have hissues := congrArg (fun d ↦ d.issues.map fun i ↦ (i.fault, i.place)) h
  simpa [mapPlaces, Function.comp_def] using hissues

/-- Lines that differ in their places only have documents that differ in their places only. -/
theorem mapPlaces_assemble_eq {f : Span → Span} {lines lines' : List Line}
    (h : lines.map (Line.mapPlace f) = lines'.map (Line.mapPlace f)) :
    (assemble lines).mapPlaces f = (assemble lines').mapPlaces f := by
  rw [← assemble_mapPlaces, h, assemble_mapPlaces]

/-- A source text and its lines cut down to what they mean have the same document, but for
columns. -/
theorem mapPlaces_parse_tidied {f : Span → Span} (hf : ∀ s t : Span, s.line = t.line → f s = f t)
    (source : Text) : (parse source.tidied).mapPlaces f = (parse source).mapPlaces f := by
  have hlines : source.tidied.lines = source.lines.map Line.tidy := by
    apply lines_join
    · rw [ne_eq, List.map_eq_nil_iff]
      exact Text.pieces_ne_nil '\n' source
    · intro raw hraw
      obtain ⟨line, hline, rfl⟩ := List.mem_map.mp hraw
      exact fun hc ↦ Text.not_mem_of_mem_pieces hline ((Line.tidy_isInfix line).subset hc)
  apply mapPlaces_assemble_eq
  rw [Line.scan, hlines, Line.scan]
  exact Line.map_ofPhysicals_tidy hf 1 source.lines

/-- Carriage returns in front of the line feeds change nothing. -/
theorem parse_withReturns (source : Text) : parse source.withReturns = parse source := by
  have hscan : Line.scan source.withReturns = Line.scan source := by
    apply Line.ofPhysicals_eq_of_forall₂
    apply (Text.forall₂_lines_withReturns source).imp
    intro a b hab number
    rcases hab with rfl | rfl
    · rfl
    · exact Line.ofPhysical_append_return number b
  rw [parse, hscan, parse]

section Lines

variable {source raw : Text} {before after : List Text}

/-- The lines of a source text hold no line feed. -/
theorem not_mem_of_lines_eq (h : source.lines = before ++ raw :: after) :
    (∀ line ∈ before, '\n' ∉ line) ∧ '\n' ∉ raw ∧ ∀ line ∈ after, '\n' ∉ line := by
  have hnone : ∀ line ∈ before ++ raw :: after, '\n' ∉ line := by
    intro line hline
    rw [← h] at hline
    exact Text.not_mem_of_mem_pieces hline
  obtain ⟨hbefore, hrest⟩ := List.forall_mem_append.mp hnone
  exact ⟨hbefore, List.forall_mem_cons.mp hrest⟩

/-- A comment behind a line that does not end with a slash or in a string literal changes
nothing. -/
theorem parse_append_comment (hlines : source.lines = before ++ raw :: after)
    (hlast : raw.getLast? ≠ some '/')
    (houtside : Mode.outside.after (Line.content raw) = .outside) {comment : Text}
    (hcomment : '\n' ∉ comment) :
    parse (Text.join ['\n'] (before ++ (raw ++ '/' :: '/' :: comment) :: after)) =
      parse source := by
  obtain ⟨hbefore, hraw, hafter⟩ := not_mem_of_lines_eq hlines
  have hline : '\n' ∉ raw ++ '/' :: '/' :: comment := by simp [hraw, hcomment]
  have hjoin := lines_join (List.append_ne_nil_of_right_ne_nil before (List.cons_ne_nil _ _))
    (List.forall_mem_append.mpr ⟨hbefore, List.forall_mem_cons.mpr ⟨hline, hafter⟩⟩)
  obtain ⟨b, hb, hcontent⟩ := Line.exists_content_append_comment hlast houtside comment
  rw [parse, Line.scan, hjoin, parse, Line.scan, hlines, Line.ofPhysicals_append, Line.ofPhysicals,
    Line.ofPhysical_eq_of_content_append hb hcontent, Line.ofPhysicals_append, Line.ofPhysicals]

/-- A brace that is moved from the end of a header to a line of its own changes nothing but
places. -/
theorem mapPlaces_parse_brace {f : Span → Span} (hf : ∀ s t : Span, f s = f t)
    (hlines : source.lines = before ++ raw :: after) {header raw' brace : Text}
    (hraw : Line.tidy raw = header ++ ['{']) (hlooks : (Line.tidy raw).looksLikeHeader = true)
    (hheader : Line.tidy raw' = header.trimRight)
    (hlast : header.trimRight.getLast? ≠ some '{') (hbrace : Line.tidy brace = ['{'])
    (hfeed : '\n' ∉ raw' ∧ '\n' ∉ brace) :
    (parse (Text.join ['\n'] (before ++ raw' :: brace :: after))).mapPlaces f =
      (parse source).mapPlaces f := by
  obtain ⟨hbefore, -, hafter⟩ := not_mem_of_lines_eq hlines
  have hjoin := lines_join (List.append_ne_nil_of_right_ne_nil before (List.cons_ne_nil _ _))
    (List.forall_mem_append.mpr ⟨hbefore, List.forall_mem_cons.mpr ⟨hfeed.1,
      List.forall_mem_cons.mpr ⟨hfeed.2, hafter⟩⟩⟩)
  apply mapPlaces_assemble_eq
  have hheaders := Line.map_ofPhysical_brace hf hraw hlooks hheader hlast hbrace
    (1 + before.length) (1 + before.length + 1)
  rw [Line.scan, hjoin, Line.scan, hlines, Line.ofPhysicals_append, Line.ofPhysicals_append]
  simp only [Line.ofPhysicals, List.map_append] at hheaders ⊢
  rw [Line.map_ofPhysicals_add hf _ 1 after, hheaders, List.append_assoc]

end Lines

/-- How a source text is laid out does not change what it means. Lines may be cut down to their
trimmed texts without comments: functions and faults stay the same, and so do the lines of the
faults. Line feeds may get carriage returns, and lines that do not end with a slash or in a string
literal may get comments: the document stays the same, places included. A brace at the end of a
header may go to a line of its own: functions and faults stay the same. -/
theorem layout_keeps_meaning (source : Text) :
    (parse source.tidied).functions = (parse source).functions ∧
      ((parse source.tidied).issues.map fun i ↦ (i.fault, i.place.line)) =
        ((parse source).issues.map fun i ↦ (i.fault, i.place.line)) ∧
      parse source.withReturns = parse source ∧
      (∀ before raw after comment, source.lines = before ++ raw :: after →
        raw.getLast? ≠ some '/' → Mode.outside.after (Line.content raw) = .outside →
        '\n' ∉ comment →
        parse (Text.join ['\n'] (before ++ (raw ++ '/' :: '/' :: comment) :: after)) =
          parse source) ∧
      ∀ before raw after header raw' brace, source.lines = before ++ raw :: after →
        Line.tidy raw = header ++ ['{'] → (Line.tidy raw).looksLikeHeader = true →
        Line.tidy raw' = header.trimRight → header.trimRight.getLast? ≠ some '{' →
        Line.tidy brace = ['{'] → '\n' ∉ raw' ∧ '\n' ∉ brace →
        (parse (Text.join ['\n'] (before ++ raw' :: brace :: after))).functions =
            (parse source).functions ∧
          (parse (Text.join ['\n'] (before ++ raw' :: brace :: after))).issues.map (·.fault) =
            (parse source).issues.map (·.fault) := by
  have htidied := mapPlaces_parse_tidied (f := Span.start) (fun s t h ↦ by simp [Span.start, h])
    source
  refine ⟨functions_eq_of_mapPlaces_eq htidied, ?_, parse_withReturns source, ?_, ?_⟩
  · have hissues := congrArg (List.map fun x ↦ (x.1, x.2.line))
      (map_issues_eq_of_mapPlaces_eq htidied)
    simpa [Span.start, Function.comp_def] using hissues
  · intro before raw after comment hlines hlast houtside hcomment
    exact parse_append_comment hlines hlast houtside hcomment
  · intro before raw after header raw' brace hlines hraw hlooks hheader hlast hbrace hfeed
    have hmoved := mapPlaces_parse_brace (f := fun _ ↦ ⟨0, 0, 0⟩) (fun _ _ ↦ rfl) hlines hraw
      hlooks hheader hlast hbrace hfeed
    refine ⟨functions_eq_of_mapPlaces_eq hmoved, ?_⟩
    have hissues := congrArg (List.map (·.1)) (map_issues_eq_of_mapPlaces_eq hmoved)
    simpa [Function.comp_def] using hissues

/-- A header with a brace and a comment, and a case with slashes in its string and a carriage return
at its end. -/
def commentedSource : Text := "func f a -> b \x7b // open\n\tf(a) = \"//\"; \r\n\x7d".toList

theorem commentedSource_keeps_meaning :
    Line.tidy "func f a -> b \x7b // open".toList = "func f a -> b \x7b".toList ∧
      Mode.outside.after (Line.content "\tf(a) = \"//\"; \r".toList) = .outside ∧
      parse commentedSource.tidied ≠ parse commentedSource ∧
      (parse commentedSource.tidied).functions = (parse commentedSource).functions ∧
      parse commentedSource.withReturns = parse commentedSource ∧
      parse "func f a -> b \x7b // open\n\tf(a) = \"//\"; \r// \"\n\x7d".toList =
        parse commentedSource ∧
      (parse "func f a -> b // open\n \x7b\n\tf(a) = \"//\"; \r\n\x7d".toList).functions =
        (parse commentedSource).functions := by
  obtain ⟨htidied, -, hreturns, hcomment, hbrace⟩ := layout_keeps_meaning commentedSource
  have hheader : Line.tidy "func f a -> b \x7b // open".toList = "func f a -> b \x7b".toList := by
    decide
  have houtside : Mode.outside.after (Line.content "\tf(a) = \"//\"; \r".toList) = .outside := by
    decide
  have hmoved := hbrace [] "func f a -> b \x7b // open".toList
    ["\tf(a) = \"//\"; \r".toList, ['\x7d']] "func f a -> b ".toList
    "func f a -> b // open".toList " \x7b".toList (by decide) hheader (by decide)
    (by decide) (by decide) (by decide) (by decide)
  exact ⟨hheader, houtside, by decide +kernel, htidied, hreturns,
    hcomment ["func f a -> b \x7b // open".toList] "\tf(a) = \"//\"; \r".toList [['\x7d']]
      " \"".toList (by decide) (by decide) houtside (by decide), hmoved.1⟩

end Document

end Lilac
