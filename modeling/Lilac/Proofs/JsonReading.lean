import Lilac.Proofs.Comments
import Lilac.Proofs.JsonScalars

/-!
# Reading JSON

A JSON text is cut into marks, strings and words, and blanks between these do not count. A reader
goes through the parts one by one; it holds the lists and records that are still open, and takes
only what may come next. Data whose integers are not too long and whose doubles are finite is read
back from its JSON text, at every level of indentation and whatever follows.
-/

namespace Lilac

namespace Json

/-! ## Cutting a text into parts -/

/-- A part of a JSON text. -/
inductive Token where
  /-- A bracket, a brace, a comma or a colon. -/
  | mark (c : Char)
  /-- A string, by what stands between its quotes. -/
  | string (raw : Text)
  /-- A string without an end. -/
  | unclosed
  /-- A number or a word. -/
  | word (t : Text)
  deriving DecidableEq, Repr

/-- Whether a character may stand between two parts. -/
def isSpace (c : Char) : Bool := c = ' ' || c = '\t' || c = '\n' || c = '\r'

/-- Whether a character is a part by itself. -/
def isMark (c : Char) : Bool :=
  c = '[' || c = ']' || c = '{' || c = '}' || c = ',' || c = ':'

/-- Where the cutting of a text stands. -/
inductive Cutting where
  /-- Between two parts. -/
  | between
  /-- In a word, behind the given part of it. -/
  | word (t : Text)
  /-- In a string, behind the given part of it. -/
  | string (raw : Text)
  /-- In a string, behind a backslash. -/
  | escape (raw : Text)

/-- The parts of the rest of a text. -/
def tokensFrom : Cutting → Text → List Token
  | .between, [] => []
  | .word w, [] => [.word w]
  | .string _, [] => [.unclosed]
  | .escape _, [] => [.unclosed]
  | .between, c :: t =>
    if isSpace c then tokensFrom .between t
    else if isMark c then .mark c :: tokensFrom .between t
    else if c = '"' then tokensFrom (.string []) t
    else tokensFrom (.word [c]) t
  | .word w, c :: t =>
    if isSpace c then .word w :: tokensFrom .between t
    else if isMark c then .word w :: .mark c :: tokensFrom .between t
    else if c = '"' then .word w :: tokensFrom (.string []) t
    else tokensFrom (.word (w ++ [c])) t
  | .string raw, c :: t =>
    if c = '"' then .string raw :: tokensFrom .between t
    else if c = '\\' then tokensFrom (.escape (raw ++ [c])) t
    else tokensFrom (.string (raw ++ [c])) t
  | .escape raw, c :: t => tokensFrom (.string (raw ++ [c])) t

/-- The parts of a text. -/
def tokens (t : Text) : List Token := tokensFrom .between t

/-! ## Reading the parts -/

/-- A list or a record that is still open, without the value that is being read in it. -/
inductive Frame where
  /-- A list, by the items before. -/
  | list (before : List Data)
  /-- A record, by the fields before and the name of the field. -/
  | field (before : List (Text × Data)) (key : Text)

/-- Where the reader stands, with what is still open around it, innermost first. -/
inductive State where
  /-- A value comes next, or the end of a list that has just been opened. -/
  | value (outer : List Frame)
  /-- The name of a field comes next, or the end of a record that has just been opened. -/
  | key (before : List (Text × Data)) (outer : List Frame)
  /-- The colon after the name of a field comes next. -/
  | colon (before : List (Text × Data)) (key : Text) (outer : List Frame)
  /-- A value has been read. -/
  | after (d : Data) (outer : List Frame)

/-- Reads a number or a word. -/
def word? (w : Text) : Option Data :=
  match number? w with
  | some v => some (.scalar v)
  | none =>
    if w = "null".toList then some .null
    else if w = "true".toList then some (.scalar (.bool true))
    else if w = "false".toList then some (.scalar (.bool false))
    else none

/-- Where the reader stands after a part, if that part may come next. -/
def step : State → Token → Option State
  | .value outer, .mark '[' => some (.value (.list [] :: outer))
  | .value outer, .mark '{' => some (.key [] outer)
  | .value (.list [] :: outer), .mark ']' => some (.after (.list []) outer)
  | .value outer, .string raw => (unescape? raw).map fun t ↦ .after (.text t) outer
  | .value outer, .word w => (word? w).map fun d ↦ .after d outer
  | .key [] outer, .mark '}' => some (.after (.record []) outer)
  | .key before outer, .string raw => (unescape? raw).map fun key ↦ .colon before key outer
  | .colon before key outer, .mark ':' => some (.value (.field before key :: outer))
  | .after d (.list before :: outer), .mark ',' => some (.value (.list (before ++ [d]) :: outer))
  | .after d (.list before :: outer), .mark ']' => some (.after (.list (before ++ [d])) outer)
  | .after d (.field before key :: outer), .mark ',' => some (.key (before ++ [(key, d)]) outer)
  | .after d (.field before key :: outer), .mark '}' =>
    some (.after (.record (before ++ [(key, d)])) outer)
  | _, _ => none

/-- The value that is complete after the last part. -/
def read? : State → List Token → Option Data
  | .after d [], [] => some d
  | _, [] => none
  | s, t :: rest => (step s t).bind fun s' ↦ read? s' rest

/-- Reads a JSON text. -/
def decode? (t : Text) : Option Data := read? (.value []) (tokens t)

/-! ## What is written is cut into its parts -/

/-- A word ends in front of a text: there is nothing more, or a blank or a mark comes next. -/
def Ends (t : Text) : Prop := ∀ c ∈ t.head?, isSpace c = true ∨ isMark c = true

/-- Whether a character belongs to a word. -/
def isWordChar (c : Char) : Bool := !isSpace c && !isMark c && c ≠ '"'

private theorem isWordChar_of_isAsciiDigit {c : Char} (h : isAsciiDigit c = true) :
    isWordChar c = true := by
  have hne (d : Char) (hd : isAsciiDigit d = false) : c ≠ d := by
    rintro rfl
    rw [h] at hd
    cases hd
  simp only [isWordChar, isSpace, isMark, Bool.and_eq_true, Bool.not_eq_true', Bool.or_eq_false_iff,
    decide_eq_false_iff_not, decide_eq_true_eq]
  and_intros <;> exact hne _ (by decide)

/-- Line breaks and indentation do not count. -/
theorem tokens_newline (level : Nat) (t : Text) : tokens (newline level ++ t) = tokens t := by
  change tokens (List.replicate (2 * level) ' ' ++ t) = tokens t
  generalize 2 * level = n
  induction n with
  | zero => rfl
  | succ n ih => exact ih

/-- A mark is a part by itself. -/
theorem tokens_mark {c : Char} (h : isMark c = true) (t : Text) :
    tokens (c :: t) = .mark c :: tokens t := by
  have hspace : isSpace c = false := by
    simp only [isMark, Bool.or_eq_true, decide_eq_true_eq] at h
    rcases h with ((((rfl | rfl) | rfl) | rfl) | rfl) | rfl <;> rfl
  rw [tokens, tokensFrom, hspace, if_neg (by decide), if_pos h]
  rfl

private theorem ends_newline (level : Nat) (t : Text) : Ends (newline level ++ t) := by
  rintro c ⟨⟩
  exact .inl rfl

private theorem ends_mark {c : Char} (h : isMark c = true) (t : Text) : Ends (c :: t) := by
  rintro d ⟨⟩
  exact .inr h

/-- The rest of a word goes up to where the word ends. -/
private theorem tokensFrom_word {w : Text} (hw : ∀ c ∈ w, isWordChar c = true) {rest : Text}
    (hrest : Ends rest) (before : Text) :
    tokensFrom (.word before) (w ++ rest) = .word (before ++ w) :: tokens rest := by
  induction w generalizing before with
  | nil =>
    rw [List.nil_append, List.append_nil]
    cases rest with
    | nil => rfl
    | cons c rest =>
      rw [tokensFrom, tokens, tokensFrom]
      rcases hrest c rfl with hspace | hmark
      · rw [if_pos hspace, if_pos hspace]
      · by_cases hspace : isSpace c
        · rw [if_pos hspace, if_pos hspace]
        · rw [if_neg hspace, if_neg hspace, if_pos hmark, if_pos hmark]
  | cons c w ih =>
    have hc := hw c List.mem_cons_self
    simp only [isWordChar, Bool.and_eq_true, Bool.not_eq_true', decide_eq_true_eq] at hc
    rw [List.cons_append, tokensFrom, if_neg (by simp [hc]), if_neg (by simp [hc]),
      if_neg hc.2, ih (fun d hd ↦ hw d (List.mem_cons_of_mem c hd)), List.append_assoc,
      List.singleton_append]

private theorem tokens_word {w : Text} (hne : w ≠ []) (hw : ∀ c ∈ w, isWordChar c = true)
    {rest : Text} (hrest : Ends rest) : tokens (w ++ rest) = .word w :: tokens rest := by
  obtain ⟨c, w, rfl⟩ := List.exists_cons_of_ne_nil hne
  have hc := hw c List.mem_cons_self
  simp only [isWordChar, Bool.and_eq_true, Bool.not_eq_true', decide_eq_true_eq] at hc
  rw [List.cons_append, tokens, tokensFrom, if_neg (by simp [hc]), if_neg (by simp [hc]),
    if_neg hc.2, tokensFrom_word (fun d hd ↦ hw d (List.mem_cons_of_mem c hd)) hrest]
  rfl

/-- A character that is neither a quote nor a backslash stands for itself in a string. -/
theorem tokensFrom_string_cons {c : Char} (hquote : c ≠ '"') (hbackslash : c ≠ '\\')
    (raw t : Text) :
    tokensFrom (.string raw) (c :: t) = tokensFrom (.string (raw ++ [c])) t := by
  rw [tokensFrom, if_neg hquote, if_neg hbackslash]

private theorem hexDigit_ne : ∀ n < 16, hexDigit n ≠ '"' ∧ hexDigit n ≠ '\\' := by
  decide

private theorem tokensFrom_string_unitEscape (n : Nat) (raw t : Text) :
    tokensFrom (.string raw) (unitEscape n ++ t) =
      tokensFrom (.string (raw ++ unitEscape n)) t := by
  have hdigit (k : Nat) := hexDigit_ne (k % 16) (Nat.mod_lt k (by decide))
  change tokensFrom (.string (raw ++ ['\\'] ++ ['u'])) (hexDigit (n / 4096 % 16) ::
    hexDigit (n / 256 % 16) :: hexDigit (n / 16 % 16) :: hexDigit (n % 16) :: t) = _
  rw [tokensFrom_string_cons (hdigit _).1 (hdigit _).2,
    tokensFrom_string_cons (hdigit _).1 (hdigit _).2,
    tokensFrom_string_cons (hdigit _).1 (hdigit _).2,
    tokensFrom_string_cons (hdigit _).1 (hdigit _).2]
  simp [unitEscape]

/-- A string goes on after what is written for one of its characters. -/
private theorem tokensFrom_string_escape (c : Char) (raw t : Text) :
    tokensFrom (.string raw) (escape c ++ t) = tokensFrom (.string (raw ++ escape c)) t := by
  have hpair (d : Char) : tokensFrom (.string raw) ('\\' :: d :: t) =
      tokensFrom (.string (raw ++ ['\\', d])) t := by
    change tokensFrom (.string (raw ++ ['\\'] ++ [d])) t = _
    rw [List.append_assoc]
    rfl
  unfold escape
  split
  · exact hpair _
  · exact hpair _
  · exact hpair _
  · exact hpair _
  · exact hpair _
  · exact hpair _
  · exact hpair _
  · next hquote hbackslash _ _ _ _ _ =>
    dsimp only
    split
    · exact tokensFrom_string_cons hquote hbackslash raw t
    · split
      · exact tokensFrom_string_unitEscape _ raw t
      · rw [List.append_assoc, tokensFrom_string_unitEscape, tokensFrom_string_unitEscape,
          List.append_assoc]

/-- A string is a part by itself. -/
theorem tokens_string (t rest : Text) :
    tokens (string t ++ rest) = .string (t.flatMap escape) :: tokens rest := by
  have hinside (s raw : Text) : tokensFrom (.string raw) (s.flatMap escape ++ '"' :: rest) =
      .string (raw ++ s.flatMap escape) :: tokens rest := by
    induction s generalizing raw with
    | nil =>
      rw [List.flatMap_nil, List.append_nil]
      rfl
    | cons c s ih =>
      rw [List.flatMap_cons, List.append_assoc, tokensFrom_string_escape, ih, List.append_assoc]
  rw [string, List.append_assoc]
  exact hinside t []

/-! ## What is written is read back -/

/-- Data that JSON has a text for: its integers have at most `digitLimit` digits, and its doubles
are finite. -/
inductive Writable : Data → Prop
  | null : Writable .null
  | bool (b : Bool) : Writable (.scalar (.bool b))
  | int (n : Int) (h : (toAsciiDigits n.natAbs).length ≤ digitLimit) : Writable (.scalar (.int n))
  | float (negative : Bool) (x : Magnitude) : Writable (.scalar (.float (.finite negative x)))
  | str (t : Text) : Writable (.scalar (.str t))
  | list (items : List Data) (h : ∀ d ∈ items, Writable d) : Writable (.list items)
  | record (fields : List (Text × Data)) (h : ∀ f ∈ fields, Writable f.2) :
    Writable (.record fields)

/-- A text is read as data wherever a value may stand, and the reader goes on behind it. -/
def ReadsAs (t : Text) (d : Data) : Prop :=
  ∀ outer rest, Ends rest →
    read? (.value outer) (tokens (t ++ rest)) = read? (.after d outer) (tokens rest)

/-- A word is read as what it stands for. -/
theorem readsAs_word {w : Text} {d : Data} (hne : w ≠ []) (hw : ∀ c ∈ w, isWordChar c = true)
    (hd : word? w = some d) : ReadsAs w d := by
  intro outer rest hrest
  have hstep : step (.value outer) (.word w) = (word? w).map fun d ↦ .after d outer := rfl
  rw [tokens_word hne hw hrest, read?, hstep, hd]
  rfl

/-- A string is read as its text. -/
theorem readsAs_string (t : Text) : ReadsAs (string t) (.text t) := by
  intro outer rest hrest
  have hstep : step (.value outer) (.string (t.flatMap escape)) =
      (unescape? (t.flatMap escape)).map fun t ↦ .after (.text t) outer := rfl
  rw [tokens_string, read?, hstep, unescape?_flatMap_escape]
  rfl

/-- A spelt number is written as a word. -/
theorem isWordChar_of_mem_spelling (s : Numeral.Spelling) : ∀ c ∈ s.text, isWordChar c = true := by
  intro c hc
  rcases s.isNumeric_of_mem_text c hc with hdigit | hmark
  · exact isWordChar_of_isAsciiDigit hdigit
  · exact Text.forall_mem_of_all (P := fun c ↦ isWordChar c = true) rfl c hmark

private theorem isWordChar_of_mem_integerText (n : Int) :
    ∀ c ∈ integerText n, isWordChar c = true := by
  rw [← Numeral.Spelling.text_ofInt]
  exact isWordChar_of_mem_spelling _

private theorem isWordChar_of_mem_number (negative : Bool) (x : Magnitude) :
    ∀ c ∈ number (.finite negative x), isWordChar c = true := by
  obtain ⟨s, -, htext, -⟩ := Double.exists_spelling negative x
  rw [number_finite, ← htext]
  exact isWordChar_of_mem_spelling s

/-- How the reader goes through the members of a list or of a record: where it stands in front of a
member, `start`, and behind one, `behind`, given the members before. -/
structure Encloses {α : Type} (left right : Char) (whole : List α → Data)
    (start : List α → List Frame → State) (behind : List α → α → List Frame → State) : Prop where
  isMark_left : isMark left = true
  isMark_right : isMark right = true
  step_left : ∀ outer, step (.value outer) (.mark left) = some (start [] outer)
  step_empty : ∀ outer, step (start [] outer) (.mark right) = some (.after (whole []) outer)
  step_comma : ∀ before x outer,
    step (behind before x outer) (.mark ',') = some (start (before ++ [x]) outer)
  step_right : ∀ before x outer,
    step (behind before x outer) (.mark right) = some (.after (whole (before ++ [x])) outer)

private theorem encloses_list :
    Encloses '[' ']' Data.list (fun before outer ↦ .value (.list before :: outer))
      (fun before d outer ↦ .after d (.list before :: outer)) :=
  ⟨rfl, rfl, fun _ ↦ rfl, fun _ ↦ rfl, fun _ _ _ ↦ rfl, fun _ _ _ ↦ rfl⟩

private theorem encloses_record :
    Encloses '{' '}' Data.record (fun before outer ↦ .key before outer)
      (fun before field outer ↦ .after field.2 (.field before field.1 :: outer)) :=
  ⟨rfl, rfl, fun _ ↦ rfl, fun _ ↦ rfl, fun _ _ _ ↦ rfl, fun _ _ _ ↦ rfl⟩

namespace Encloses

variable {α : Type} {left right : Char} {whole : List α → Data}
  {start : List α → List Frame → State} {behind : List α → α → List Frame → State}
  {xs : List α} {text : α → Text}

/-- Members on lines of their own are read one after the other. -/
private theorem read?_join (h : Encloses left right whole start behind) (hne : xs ≠ [])
    (hmember : ∀ x ∈ xs, ∀ before outer rest, Ends rest →
      read? (start before outer) (tokens (text x ++ rest)) =
        read? (behind before x outer) (tokens rest))
    (level : Nat) (before : List α) (outer : List Frame) (rest : Text) :
    read? (start before outer) (tokens (Text.join (',' :: newline (level + 1)) (xs.map text) ++
        (newline level ++ right :: rest))) =
      read? (.after (whole (before ++ xs)) outer) (tokens rest) := by
  induction xs generalizing before with
  | nil => exact absurd rfl hne
  | cons x xs ih =>
    have hx := hmember x List.mem_cons_self before outer
    cases xs with
    | nil =>
      rw [List.map_singleton, Text.join, hx _ (ends_newline _ _), tokens_newline,
        tokens_mark h.isMark_right, read?, h.step_right]
      rfl
    | cons y ys =>
      have hrest := ih (List.cons_ne_nil y ys)
        (fun z hz ↦ hmember z (List.mem_cons_of_mem x hz)) (before ++ [x])
      rw [List.append_assoc, List.singleton_append] at hrest
      rw [List.map_cons, List.map_cons, Text.join_cons_cons, ← List.map_cons, List.append_assoc,
        List.append_assoc, List.cons_append, hx _ (ends_mark rfl _), tokens_mark rfl,
        tokens_newline, read?, h.step_comma, Option.bind_some, hrest]

/-- Members between two marks are read as the list or the record of them. -/
theorem readsAs (h : Encloses left right whole start behind)
    (hmember : ∀ x ∈ xs, ∀ before outer rest, Ends rest →
      read? (start before outer) (tokens (text x ++ rest)) =
        read? (behind before x outer) (tokens rest))
    (level : Nat) : ReadsAs (enclose left right level (xs.map text)) (whole xs) := by
  intro outer rest hrest
  by_cases hxs : xs = []
  · subst hxs
    change read? _ (tokens (left :: right :: rest)) = _
    rw [tokens_mark h.isMark_left, tokens_mark h.isMark_right, read?, h.step_left,
      Option.bind_some, read?, h.step_empty, Option.bind_some]
  · have htext : enclose left right level (xs.map text) ++ rest =
        left :: (newline (level + 1) ++ (Text.join (',' :: newline (level + 1)) (xs.map text) ++
          (newline level ++ right :: rest))) := by
      simp [enclose, hxs]
    rw [htext, tokens_mark h.isMark_left, tokens_newline, read?, h.step_left, Option.bind_some]
    exact h.read?_join hxs hmember level [] outer rest

end Encloses

/-- A number is read as the value it stands for. -/
theorem readsAs_number {w : Text} {v : Value} (hw : ∀ c ∈ w, isWordChar c = true)
    (hv : number? w = some v) : ReadsAs w (.scalar v) := by
  refine readsAs_word ?_ hw ?_
  · rintro rfl
    cases hv
  · rw [word?, hv]

private theorem read?_field {d : Data} {text : Text} (h : ReadsAs text d) (key : Text)
    (before : List (Text × Data)) (outer : List Frame) {rest : Text} (hrest : Ends rest) :
    read? (.key before outer) (tokens ((string key ++ ':' :: ' ' :: text) ++ rest)) =
      read? (.after d (.field before key :: outer)) (tokens rest) := by
  have hspace : tokens (' ' :: (text ++ rest)) = tokens (text ++ rest) := rfl
  rw [List.append_assoc, tokens_string, read?, step, unescape?_flatMap_escape, Option.map_some,
    Option.bind_some, List.cons_append, List.cons_append, tokens_mark rfl, hspace, read?, step,
    Option.bind_some, h _ rest hrest]

private theorem jsonItems_eq_map (level : Nat) (items : List Data) :
    Data.jsonItems level items = items.map (·.json level) := by
  induction items with
  | nil => rfl
  | cons d items ih => rw [Data.jsonItems, ih, List.map_cons]

private theorem jsonFields_eq_map (level : Nat) (fields : List (Text × Data)) :
    Data.jsonFields level fields =
      fields.map fun field ↦ string field.1 ++ ':' :: ' ' :: field.2.json level := by
  induction fields with
  | nil => rfl
  | cons field fields ih => rw [Data.jsonFields, ih, List.map_cons]

/-- Data that JSON has a text for is read back from its text at every level. -/
theorem Writable.readsAs {d : Data} (h : Writable d) (level : Nat) : ReadsAs (d.json level) d := by
  induction h generalizing level with
  | null => exact readsAs_word (w := "null".toList) (by decide) (Text.forall_mem_of_all rfl) rfl
  | bool b =>
    cases b with
    | true => exact readsAs_word (w := "true".toList) (by decide) (Text.forall_mem_of_all rfl) rfl
    | false => exact readsAs_word (w := "false".toList) (by decide) (Text.forall_mem_of_all rfl) rfl
  | int n h => exact readsAs_number (isWordChar_of_mem_integerText n) (number?_integerText h)
  | float negative x =>
    exact readsAs_number (isWordChar_of_mem_number negative x) (number?_number negative x)
  | str t => exact readsAs_string t
  | list items _ ih =>
    rw [Data.json, jsonItems_eq_map]
    exact encloses_list.readsAs (fun d hd before outer rest hrest ↦ ih d hd _ _ rest hrest) level
  | record fields _ ih =>
    rw [Data.json, jsonFields_eq_map]
    exact encloses_record.readsAs
      (fun field hfield before outer rest hrest ↦ read?_field (ih field hfield _) _ _ _ hrest) level

/-- Data that JSON has a text for is read back from its text, with a line end or without. -/
theorem Writable.decode?_json {d : Data} (h : Writable d) (level : Nat) {blanks : Text}
    (hblanks : ∀ c ∈ blanks, isSpace c = true) : decode? (d.json level ++ blanks) = some d := by
  have hends : Ends blanks := fun c hc ↦ .inl (hblanks c (List.mem_of_mem_head? hc))
  have hnone : tokens blanks = [] := by
    clear hends
    induction blanks with
    | nil => rfl
    | cons c blanks ih =>
      rw [tokens, tokensFrom, if_pos (hblanks c List.mem_cons_self)]
      exact ih fun d hd ↦ hblanks d (List.mem_cons_of_mem c hd)
  rw [decode?, h.readsAs level [] blanks hends, hnone]
  rfl

-- What is not finite has no number, and neither a needless zero nor a needless comma is taken.
example : decode? "[NaN]".toList = none ∧ decode? "[-Infinity]".toList = none ∧
    decode? "[01]".toList = none ∧ decode? "[1,]".toList = none := ⟨rfl, rfl, rfl, rfl⟩

end Json

end Lilac
