import Lilac.Header
import Lilac.Proofs.Characters

/-!
# Trimming and cutting at commas

A run of characters of one class ends where the first character outside the class stands. A trimmed
text starts and ends with a character that is not blank, which makes it a fixed point of
trimming. Cutting at a separator undoes joining with it, and a list of trimmed pieces without
commas survives being joined with a comma and a space and cut again.
-/

namespace Lilac

namespace Text

/-- What is checked on a text character by character holds of all its characters. -/
theorem forall_mem_of_all {P : Char → Prop} [DecidablePred P] {t : Text}
    (h : t.all (decide <| P ·) = true) : ∀ c ∈ t, P c :=
  fun c hc ↦ of_decide_eq_true (List.all_eq_true.mp h c hc)

/-! ## Runs of one class -/

/-- What holds of a character holds of the first one of a text that starts with it. -/
theorem forall_mem_head?_cons {P : Char → Prop} {d : Char} (h : P d) (t : Text) :
    ∀ c ∈ (d :: t).head?, P c :=
  fun _ hc ↦ Option.some.inj hc ▸ h

/-- What holds of all characters of a run that is not empty holds of the first one of a text that
starts with it. -/
theorem forall_mem_head?_append {P : Char → Prop} {a : Text} (hne : a ≠ []) (h : ∀ c ∈ a, P c)
    (t : Text) : ∀ c ∈ (a ++ t).head?, P c := by
  obtain ⟨d, a, rfl⟩ := List.exists_cons_of_ne_nil hne
  exact forall_mem_head?_cons (h d List.mem_cons_self) (a ++ t)

/-- A run of a class is taken up to the first character outside it. -/
theorem takeWhile_append_of_head {p : Char → Bool} {a s : Text} (ha : ∀ c ∈ a, p c = true)
    (hs : ∀ c ∈ s.head?, p c = false) : (a ++ s).takeWhile p = a := by
  rw [List.takeWhile_append_of_pos ha]
  cases s with
  | nil => simp
  | cons c s => simp [hs c rfl]

/-- Behind a run of a class the text goes on with the first character outside it. -/
theorem dropWhile_append_of_head {p : Char → Bool} {a s : Text} (ha : ∀ c ∈ a, p c = true)
    (hs : ∀ c ∈ s.head?, p c = false) : (a ++ s).dropWhile p = s := by
  rw [List.dropWhile_append_of_pos ha]
  cases s with
  | nil => rfl
  | cons c s => simp [hs c rfl]

/-- Where a run of a class ends is told by the text. -/
theorem append_inj_of_head {p : Char → Bool} {a b s t : Text} (ha : ∀ c ∈ a, p c = true)
    (hb : ∀ c ∈ b, p c = true) (hs : ∀ c ∈ s.head?, p c = false)
    (ht : ∀ c ∈ t.head?, p c = false) (h : a ++ s = b ++ t) : a = b ∧ s = t := by
  have htake := congrArg (List.takeWhile p) h
  have hdrop := congrArg (List.dropWhile p) h
  rw [takeWhile_append_of_head ha hs, takeWhile_append_of_head hb ht] at htake
  rw [dropWhile_append_of_head ha hs, dropWhile_append_of_head hb ht] at hdrop
  exact ⟨htake, hdrop⟩

/-! ## Trimming -/

/-- A space is blank. -/
theorem isBlank_of_mem_space : ∀ c ∈ [' '], isBlank c = true := forall_mem_of_all rfl

/-- A text that neither starts nor ends with a blank. -/
def Tight (t : Text) : Prop :=
  (∀ c ∈ t.head?, isBlank c = false) ∧ (∀ c ∈ t.getLast?, isBlank c = false)

/-- Blanks in front of a text are lost when it is trimmed on the left. -/
theorem trimLeft_append_of_blank {b : Text} (hb : ∀ c ∈ b, isBlank c = true) (t : Text) :
    trimLeft (b ++ t) = trimLeft t :=
  List.dropWhile_append_of_pos hb

/-- Trimming on the left stops inside the first of two texts, unless that one is blank. -/
theorem trimLeft_append_of_ne_nil {a : Text} (h : trimLeft a ≠ []) (b : Text) :
    trimLeft (a ++ b) = trimLeft a ++ b := by
  rw [trimLeft, List.dropWhile_append, ← trimLeft, if_neg (by simpa using h)]

/-- A text that does not start with a blank is left alone on the left. -/
theorem trimLeft_eq_self {t : Text} (h : ∀ c ∈ t.head?, isBlank c = false) : trimLeft t = t := by
  cases t with
  | nil => rfl
  | cons c t => simp [trimLeft, h c rfl]

/-- What is left of a text after trimming on the left does not start with a blank. -/
theorem head_trimLeft (t : Text) : ∀ c ∈ (trimLeft t).head?, isBlank c = false := by
  induction t with
  | nil => simp [trimLeft]
  | cons d t ih =>
    cases hd : isBlank d with
    | true => simpa [trimLeft, hd] using ih
    | false => simp [trimLeft, hd]

/-- A text is some blanks followed by what trimming on the left leaves of it. -/
theorem exists_append_trimLeft (t : Text) :
    ∃ b : Text, (∀ c ∈ b, isBlank c = true) ∧ t = b ++ trimLeft t :=
  ⟨t.takeWhile isBlank, fun _ hc ↦ List.all_eq_true.mp List.all_takeWhile _ hc,
    List.takeWhile_append_dropWhile.symm⟩

/-- Trimming on the right is trimming the mirrored text on the left. -/
theorem trimRight_eq (t : Text) : trimRight t = (trimLeft t.reverse).reverse := rfl

private theorem trimRight_append_of_blank {b : Text} (hb : ∀ c ∈ b, isBlank c = true) (t : Text) :
    trimRight (t ++ b) = trimRight t := by
  rw [trimRight_eq, List.reverse_append,
    trimLeft_append_of_blank (fun c hc ↦ hb c (List.mem_reverse.mp hc)), trimRight_eq]

private theorem trimRight_eq_self {t : Text} (h : ∀ c ∈ t.getLast?, isBlank c = false) :
    trimRight t = t := by
  rw [trimRight_eq, trimLeft_eq_self (by simpa using h), List.reverse_reverse]

/-- What is left of a text after trimming on the right does not end with a blank. -/
theorem getLast_trimRight (t : Text) : ∀ c ∈ (trimRight t).getLast?, isBlank c = false := by
  rw [trimRight_eq, List.getLast?_reverse]
  exact head_trimLeft t.reverse

/-- A text is what trimming on the right leaves of it followed by some blanks. -/
theorem exists_trimRight_append (t : Text) :
    ∃ b : Text, (∀ c ∈ b, isBlank c = true) ∧ t = trimRight t ++ b := by
  obtain ⟨b, hb, ht⟩ := exists_append_trimLeft t.reverse
  refine ⟨b.reverse, fun c hc ↦ hb c (List.mem_reverse.mp hc), ?_⟩
  rw [trimRight_eq, ← List.reverse_append, ← ht, List.reverse_reverse]

/-- Trimming on the right leaves a prefix. -/
theorem trimRight_isPrefix (t : Text) : trimRight t <+: t := by
  obtain ⟨b, -, ht⟩ := exists_trimRight_append t
  exact ⟨b, ht.symm⟩

/-- Trimming on the right keeps every prefix that does not end with a blank. -/
theorem prefix_trimRight {a t : Text} (h : a <+: t) (hlast : ∀ c ∈ a.getLast?, isBlank c = false) :
    a <+: trimRight t := by
  obtain ⟨r, hr⟩ := h
  obtain ⟨b, hb, ht⟩ := exists_trimRight_append t
  rw [ht] at hr
  rcases List.append_eq_append_iff.mp hr with ⟨s, hs, -⟩ | ⟨s, hs, hbs⟩
  · exact ⟨s, hs.symm⟩
  · cases hend : s.getLast? with
    | none =>
      rw [List.getLast?_eq_none_iff.mp hend, List.append_nil] at hs
      exact hs ▸ List.prefix_rfl
    | some c =>
      have hc : isBlank c = true := by
        apply hb
        rw [hbs]
        exact List.mem_append_left r (List.mem_of_getLast? hend)
      rw [hlast c (by rw [hs, List.getLast?_append, hend]; rfl)] at hc
      cases hc

/-- A prefix of a text that does not start with a blank does not start with one. -/
theorem head_of_isPrefix {a t : Text} (h : a <+: t) (ht : ∀ c ∈ t.head?, isBlank c = false) :
    ∀ c ∈ a.head?, isBlank c = false := by
  intro c hc
  obtain ⟨s, hs⟩ := h
  apply ht
  rw [← hs, List.head?_append, Option.mem_def.mp hc]
  rfl

/-- A trimmed text neither starts nor ends with a blank. -/
theorem tight_trim (t : Text) : Tight (trim t) :=
  ⟨head_of_isPrefix (trimRight_isPrefix _) (head_trimLeft t), getLast_trimRight (trimLeft t)⟩

/-- A text that neither starts nor ends with a blank is left alone by trimming. -/
theorem Tight.trim_eq {t : Text} (h : Tight t) : trim t = t := by
  rw [trim, trimLeft_eq_self h.1, trimRight_eq_self h.2]

/-- Trimming twice is trimming once. -/
theorem trim_trim (t : Text) : trim (trim t) = trim t :=
  (tight_trim t).trim_eq

/-- Blanks in front of a text are lost when it is trimmed. -/
theorem trim_append_of_blank_left {b : Text} (hb : ∀ c ∈ b, isBlank c = true) (t : Text) :
    trim (b ++ t) = trim t := by
  rw [trim, trimLeft_append_of_blank hb, trim]

/-- Blanks behind a text are lost when it is trimmed. -/
theorem trim_append_of_blank_right {b : Text} (hb : ∀ c ∈ b, isBlank c = true) (t : Text) :
    trim (t ++ b) = trim t := by
  obtain ⟨a, ha, ht⟩ := exists_append_trimLeft t
  by_cases hl : trimLeft t = []
  · rw [hl, List.append_nil] at ht
    have hab : trimLeft (t ++ b) = [] := by
      rw [trimLeft_append_of_blank (ht ▸ ha), ← List.append_nil b, trimLeft_append_of_blank hb]
      rfl
    rw [trim, trim, hab, hl]
  · rw [trim, trimLeft_append_of_ne_nil hl, trimRight_append_of_blank hb, trim]

/-- A text is blank exactly when trimming leaves nothing of it. -/
theorem trim_eq_nil_iff {t : Text} : trim t = [] ↔ ∀ c ∈ t, isBlank c = true := by
  constructor
  · intro h
    obtain ⟨a, ha, ht⟩ := exists_append_trimLeft t
    obtain ⟨b, hb, hl⟩ := exists_trimRight_append (trimLeft t)
    rw [show trimRight (trimLeft t) = [] from h, List.nil_append] at hl
    rw [ht, hl]
    intro c hc
    rcases List.mem_append.mp hc with hc | hc
    · exact ha c hc
    · exact hb c hc
  · intro h
    rw [← List.append_nil t, trim_append_of_blank_left h]
    rfl

/-- A text is its trimmed core with blanks on both sides. -/
theorem exists_eq_append_trim_append (t : Text) :
    ∃ a b : Text, (∀ c ∈ a, isBlank c = true) ∧ (∀ c ∈ b, isBlank c = true) ∧
      t = a ++ trim t ++ b := by
  obtain ⟨a, ha, ht⟩ := exists_append_trimLeft t
  obtain ⟨b, hb, hl⟩ := exists_trimRight_append (trimLeft t)
  refine ⟨a, b, ha, hb, ?_⟩
  rw [trim, List.append_assoc, ← hl, ← ht]

/-- Trimming cuts a text out of another. -/
theorem trim_isInfix (t : Text) : trim t <:+: t := by
  obtain ⟨a, b, -, -, ht⟩ := exists_eq_append_trim_append t
  exact ⟨a, b, ht.symm⟩

/-! ## Cutting at a separator -/

/-- A text without the separator is a single piece. -/
theorem pieces_of_not_mem {separator : Char} {t : Text} (h : separator ∉ t) :
    pieces separator t = [t] := by
  induction t with
  | nil => rfl
  | cons c t ih =>
    obtain ⟨hc, ht⟩ := not_or.mp (mt List.mem_cons.mpr h)
    simp [pieces, Ne.symm hc, ih ht, consHead]

/-- A separator cuts a text into the pieces before it and the pieces after it. -/
theorem pieces_append {separator : Char} (a b : Text) :
    pieces separator (a ++ separator :: b) = pieces separator a ++ pieces separator b := by
  induction a with
  | nil => simp [pieces]
  | cons c a ih =>
    simp only [List.cons_append, pieces, ih]
    split
    · rfl
    · cases hp : pieces separator a with
      | nil => exact absurd hp (pieces_ne_nil separator a)
      | cons p ps => rfl

/-- The text in front of the first separator is the first piece. -/
theorem pieces_append_separator {separator : Char} {p : Text} (h : separator ∉ p) (t : Text) :
    pieces separator (p ++ separator :: t) = p :: pieces separator t := by
  rw [pieces_append, pieces_of_not_mem h, List.singleton_append]

private theorem pieces_append_of_not_mem {separator : Char} {b : Text} (h : separator ∉ b)
    (t : Text) :
    ∃ (first : List Text) (last : Text), pieces separator t = first ++ [last] ∧
      pieces separator (t ++ b) = first ++ [last ++ b] := by
  induction t with
  | nil => exact ⟨[], [], rfl, pieces_of_not_mem h⟩
  | cons c t ih =>
    obtain ⟨first, last, ht, htb⟩ := ih
    simp only [List.cons_append, pieces, ht, htb]
    split
    · exact ⟨[] :: first, last, rfl, rfl⟩
    · cases first with
      | nil => exact ⟨[], c :: last, rfl, rfl⟩
      | cons p first => exact ⟨(c :: p) :: first, last, rfl, rfl⟩

/-- No piece holds the separator. -/
theorem not_mem_of_mem_pieces {separator : Char} {t p : Text} (h : p ∈ pieces separator t) :
    separator ∉ p := by
  induction t generalizing p with
  | nil =>
    rw [pieces, List.mem_singleton] at h
    subst h
    exact List.not_mem_nil
  | cons c t ih =>
    simp only [pieces] at h
    split at h
    · rcases List.mem_cons.mp h with rfl | h
      · exact List.not_mem_nil
      · exact ih h
    · next hc =>
      cases hp : pieces separator t with
      | nil => exact absurd hp (pieces_ne_nil separator t)
      | cons q rest =>
        rw [hp, consHead] at h
        rcases List.mem_cons.mp h with rfl | h
        · rw [List.mem_cons, not_or]
          exact ⟨Ne.symm hc, ih (by rw [hp]; exact List.mem_cons_self)⟩
        · exact ih (by rw [hp]; exact List.mem_cons_of_mem q h)

/-- Joining puts the separator between the first text and the rest. -/
theorem join_cons_cons (separator p q : Text) (ps : List Text) :
    join separator (p :: q :: ps) = p ++ (separator ++ join separator (q :: ps)) :=
  List.append_assoc _ _ _

/-- The pieces of joined texts are the pieces of the one after those of the other. -/
theorem pieces_join_flatMap {separator : Char} {ts : List Text} (hne : ts ≠ []) :
    pieces separator (join [separator] ts) = ts.flatMap (pieces separator) := by
  induction ts with
  | nil => exact absurd rfl hne
  | cons t ts ih =>
    cases ts with
    | nil => simp [join]
    | cons u us =>
      rw [join_cons_cons, List.singleton_append, pieces_append, ih (List.cons_ne_nil u us)]
      rfl

/-- Cutting at a separator undoes joining with it. -/
theorem pieces_join {separator : Char} {ps : List Text} (hne : ps ≠ [])
    (h : ∀ p ∈ ps, separator ∉ p) : pieces separator (join [separator] ps) = ps := by
  have hsingle : ∀ p ∈ ps, pieces separator p = [p] := fun p hp ↦ pieces_of_not_mem (h p hp)
  rw [pieces_join_flatMap hne, List.flatMap_def, List.map_congr_left hsingle, ← List.flatMap_def,
    List.flatMap_singleton']

/-- What texts in a row take over from one another holds of joined texts, if it holds of each of
them, of the separator and of the empty text. -/
theorem join_of_append {P : Text → Prop} (hnil : P []) (happend : ∀ {a b}, P a → P b → P (a ++ b))
    {separator : Text} (hseparator : P separator) {ps : List Text} (h : ∀ p ∈ ps, P p) :
    P (join separator ps) := by
  induction ps with
  | nil => exact hnil
  | cons p ps ih =>
    obtain ⟨hp, hps⟩ := List.forall_mem_cons.mp h
    cases ps with
    | nil => exact hp
    | cons q ps =>
      rw [join_cons_cons]
      exact happend hp (happend hseparator (ih hps))

/-- What holds of the characters of the separator and of each text holds of those of the joined
text. -/
theorem of_mem_join {P : Char → Prop} {separator : Text} (hseparator : ∀ c ∈ separator, P c)
    {ps : List Text} (h : ∀ p ∈ ps, ∀ c ∈ p, P c) : ∀ c ∈ join separator ps, P c :=
  join_of_append (P := fun t ↦ ∀ c ∈ t, P c) (List.forall_mem_nil _)
    (fun ha hb ↦ List.forall_mem_append.mpr ⟨ha, hb⟩) hseparator h

/-- A character that stands neither in the separator nor in a text does not stand in the joined
text. -/
theorem not_mem_join {d : Char} {separator : Text} (hseparator : d ∉ separator) {ps : List Text}
    (h : ∀ p ∈ ps, d ∉ p) : d ∉ join separator ps := by
  intro hmem
  refine of_mem_join (P := (· ≠ d)) ?_ ?_ d hmem rfl
  · exact fun c hc he ↦ hseparator (he ▸ hc)
  · exact fun p hp c hc he ↦ h p hp (he ▸ hc)

private theorem infix_join {separator p : Text} {ps : List Text} (h : p ∈ ps) :
    p <:+: join separator ps := by
  induction ps with
  | nil => cases h
  | cons q ps ih =>
    cases ps with
    | nil => exact List.mem_singleton.mp h ▸ List.infix_rfl
    | cons r ps =>
      rw [join_cons_cons]
      rcases List.mem_cons.mp h with rfl | h
      · exact (List.prefix_append _ _).isInfix
      · exact (ih h).trans ((List.suffix_append _ _).trans (List.suffix_append _ _)).isInfix

/-- A piece stands in the text it is cut from. -/
theorem infix_of_mem_pieces {separator : Char} {t p : Text} (h : p ∈ pieces separator t) :
    p <:+: t := by
  have hjoin : p <:+: join [separator] (pieces separator t) := infix_join h
  rwa [join_pieces] at hjoin

/-! ## Trimmed pieces between commas -/

private theorem ne_comma_of_isBlank {c : Char} (h : isBlank c = true) : c ≠ ',' := by
  rintro rfl
  revert h
  decide

/-- A blank in front of a text changes none of its trimmed pieces. -/
theorem commaPieces_cons_of_blank {c : Char} (h : isBlank c = true) (t : Text) :
    commaPieces (c :: t) = commaPieces t := by
  simp only [commaPieces, pieces, if_neg (ne_comma_of_isBlank h)]
  cases hp : pieces ',' t with
  | nil => exact absurd hp (pieces_ne_nil ',' t)
  | cons p rest =>
    have hc : trim ([c] ++ p) = trim p := trim_append_of_blank_left (by simpa using h) p
    rw [consHead, List.map_cons, List.map_cons]
    exact congrArg (· :: rest.map trim) hc

/-- Blanks in front of a text change none of its trimmed pieces. -/
theorem commaPieces_append_of_blank_left {b : Text} (hb : ∀ c ∈ b, isBlank c = true) (t : Text) :
    commaPieces (b ++ t) = commaPieces t := by
  induction b with
  | nil => rfl
  | cons c b ih =>
    rw [List.cons_append, commaPieces_cons_of_blank (hb c List.mem_cons_self),
      ih fun d hd ↦ hb d (List.mem_cons_of_mem c hd)]

/-- Blanks behind a text change none of its trimmed pieces. -/
theorem commaPieces_append_of_blank_right {b : Text} (hb : ∀ c ∈ b, isBlank c = true) (t : Text) :
    commaPieces (t ++ b) = commaPieces t := by
  have hcomma : ',' ∉ b := fun h ↦ ne_comma_of_isBlank (hb ',' h) rfl
  obtain ⟨first, last, ht, htb⟩ := pieces_append_of_not_mem hcomma t
  simp only [commaPieces, ht, htb, List.map_append, List.map_cons, List.map_nil,
    trim_append_of_blank_right hb]

/-- Trimming a text changes none of its trimmed pieces. -/
theorem commaPieces_trim (t : Text) : commaPieces (trim t) = commaPieces t := by
  obtain ⟨a, b, ha, hb, ht⟩ := exists_eq_append_trim_append t
  conv => rhs; rw [ht]
  rw [commaPieces_append_of_blank_right hb, commaPieces_append_of_blank_left ha]

/-- Every trimmed piece between commas is trimmed and holds no comma. -/
theorem mem_commaPieces {t p : Text} (h : p ∈ commaPieces t) : Tight p ∧ ',' ∉ p := by
  obtain ⟨q, hq, rfl⟩ := List.mem_map.mp h
  exact ⟨tight_trim q, fun hc ↦ not_mem_of_mem_pieces hq ((trim_isInfix q).subset hc)⟩

/-- Trimmed pieces without commas come back after being joined with a comma and a space. -/
theorem commaPieces_join {ps : List Text} (hne : ps ≠ []) (h : ∀ p ∈ ps, Tight p ∧ ',' ∉ p) :
    commaPieces (join [',', ' '] ps) = ps := by
  induction ps with
  | nil => exact absurd rfl hne
  | cons p ps ih =>
    obtain ⟨hp, hcomma⟩ := h p List.mem_cons_self
    cases ps with
    | nil => rw [join, commaPieces, pieces_of_not_mem hcomma, List.map_singleton, hp.trim_eq]
    | cons q ps =>
      have hrest := ih (List.cons_ne_nil q ps) fun r hr ↦ h r (List.mem_cons_of_mem p hr)
      have hjoin : join [',', ' '] (p :: q :: ps) = p ++ ',' :: ' ' :: join [',', ' '] (q :: ps) :=
        join_cons_cons _ p q ps
      rw [hjoin, commaPieces, pieces_append_separator hcomma, List.map_cons, hp.trim_eq,
        ← commaPieces, commaPieces_cons_of_blank (by decide), hrest]

end Text

end Lilac
