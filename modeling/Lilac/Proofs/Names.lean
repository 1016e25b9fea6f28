import Lilac.Proofs.Literals

/-!
# Lists of names

A list of names is spelt as its names with a comma between neighbours and optional blanks around
each comma. A text is read as a list of names exactly when it is such a spelling between blanks, and
both the spelling and where it ends are told by the text: what comes next always starts with a
character of another class than the run before it.
-/

namespace Lilac

namespace Text

/-- A text that starts with a blank has blanks in front of anything that does not. -/
theorem ne_nil_of_startsBlank {a t : Text} (ht : ∀ c ∈ t.head?, isBlank c = false)
    (h : startsBlank (a ++ t) = true) : a ≠ [] := by
  rintro rfl
  rw [List.nil_append, startsBlank] at h
  cases hhead : t.head? with
  | none =>
    rw [hhead] at h
    cases h
  | some c =>
    rw [hhead, Option.any_some, ht c hhead] at h
    cases h

private theorem tight_of_isName {n : Text} (h : isName n = true) : Tight n ∧ ',' ∉ n := by
  refine ⟨(fragment_of_isName h).tight, fun hc ↦ ?_⟩
  exact ne_of_isWord ((isName_iff.mp h).2 _ hc) (by decide) rfl

end Text

/-- No blank is a word character. -/
theorem not_isWord_of_isBlank {c : Char} (h : isBlank c = true) : isWord c = false := by
  cases hc : isWord c with
  | false => rfl
  | true =>
    rw [not_isBlank_of_isWord hc] at h
    cases h

/-! ## Names and blanks -/

/-- Blanks, possibly none. -/
@[ext] structure Blanks where
  text : Text
  blank : ∀ c ∈ text, isBlank c = true

/-- One or more word characters. -/
@[ext] structure Name where
  text : Text
  isName : text.isName = true

namespace Name

variable (n : Name)

/-- A name consists of word characters. -/
theorem word : ∀ c ∈ n.text, isWord c = true := (Text.isName_iff.mp n.isName).2

/-- A name is not empty. -/
theorem ne_nil : n.text ≠ [] := (Text.isName_iff.mp n.isName).1

/-- A text that starts with a name does not start with a blank. -/
theorem not_isBlank_head (t : Text) : ∀ c ∈ (n.text ++ t).head?, isBlank c = false :=
  Text.forall_mem_head?_append n.ne_nil (fun c hc ↦ not_isBlank_of_isWord (n.word c hc)) t

end Name

namespace Blanks

variable (b : Blanks)

/-- No blanks. -/
def none : Blanks := ⟨[], List.forall_mem_nil _⟩

/-- One space. -/
def space : Blanks := ⟨[' '], Text.isBlank_of_mem_space⟩

/-- Blanks in front of a text that does not start with a word character do not change that. -/
theorem not_isWord_head {t : Text} (h : ∀ c ∈ t.head?, isWord c = false) :
    ∀ c ∈ (b.text ++ t).head?, isWord c = false := by
  by_cases hb : b.text = []
  · rw [hb]
    exact h
  · exact Text.forall_mem_head?_append hb (fun c hc ↦ not_isWord_of_isBlank (b.blank c hc)) t

/-- Behind a text that does not end with a blank there are none. -/
theorem eq_nil_of_endsBlank {t : Text} (h : Text.endsBlank (t ++ b.text) = false) :
    b.text = [] := by
  cases hlast : b.text.getLast? with
  | none => exact List.getLast?_eq_none_iff.mp hlast
  | some c =>
    have hblank := b.blank c (List.mem_of_getLast? hlast)
    rw [Text.endsBlank, List.getLast?_append, hlast, Option.some_or, Option.any_some, hblank] at h
    cases h

/-- A character that is not blank does not stand among blanks. -/
theorem not_mem {c : Char} (h : isBlank c = false) : c ∉ b.text := by
  intro hc
  rw [b.blank c hc] at h
  cases h

end Blanks

/-! ## Lists of names -/

/-- A comma with the blanks around it and the name behind it. -/
@[ext] structure NextName where
  before : Blanks
  after : Blanks
  name : Name

/-- How a list of names is spelt. -/
@[ext] structure NameList where
  first : Name
  rest : List NextName

/-- The text of a name in a list with the comma in front of it. -/
def NextName.text (x : NextName) : Text := x.before.text ++ [','] ++ x.after.text ++ x.name.text

/-- A name in a list, followed by a text. -/
theorem NextName.text_append (x : NextName) (t : Text) :
    x.text ++ t = x.before.text ++ ',' :: (x.after.text ++ (x.name.text ++ t)) := by
  simp [text]

namespace NameList

/-- The text of a list of names. -/
def text (l : NameList) : Text := l.first.text ++ l.rest.flatMap NextName.text

/-- The names in a list of them. -/
def names (l : NameList) : List Text := l.first.text :: l.rest.map (·.name.text)

/-- A text that cannot go on with a list of names: it neither starts with a word character nor,
behind blanks, with a comma. -/
structure Ends (t : Text) : Prop where
  noWord : ∀ c ∈ t.head?, isWord c = false
  noComma : (Text.trimLeft t).head? ≠ some ','

/-- What follows a name in a list does not start with a word character. -/
theorem not_isWord_head_rest {t : Text} (ht : Ends t) (xs : List NextName) :
    ∀ c ∈ (xs.flatMap NextName.text ++ t).head?, isWord c = false := by
  cases xs with
  | nil => exact ht.noWord
  | cons x xs =>
    rw [List.flatMap_cons, List.append_assoc, NextName.text_append]
    exact x.before.not_isWord_head (Text.forall_mem_head?_cons (by decide) _)

private theorem Ends.ne_rest {t u : Text} (ht : Ends t) (x : NextName) : t ≠ x.text ++ u := by
  rintro rfl
  apply ht.noComma
  rw [NextName.text_append, Text.trimLeft_append_of_blank x.before.blank]
  rfl

/-- Further names and where they end are told by the text. -/
private theorem rest_append_inj {xs ys : List NextName} {s t : Text} (hs : Ends s) (ht : Ends t)
    (h : xs.flatMap NextName.text ++ s = ys.flatMap NextName.text ++ t) : xs = ys ∧ s = t := by
  induction xs generalizing ys with
  | nil =>
    cases ys with
    | nil => exact ⟨rfl, h⟩
    | cons y ys =>
      rw [List.flatMap_cons, List.append_assoc] at h
      exact absurd h (hs.ne_rest y)
  | cons x xs ih =>
    cases ys with
    | nil =>
      rw [List.flatMap_cons, List.append_assoc] at h
      exact absurd h.symm (ht.ne_rest x)
    | cons y ys =>
      rw [List.flatMap_cons, List.flatMap_cons, List.append_assoc, List.append_assoc,
        NextName.text_append, NextName.text_append] at h
      have hcomma : ∀ u, ∀ c ∈ (',' :: u).head?, isBlank c = false :=
        Text.forall_mem_head?_cons (by decide)
      obtain ⟨hbefore, h⟩ := Text.append_inj_of_head x.before.blank y.before.blank
        (hcomma _) (hcomma _) h
      obtain ⟨hafter, h⟩ := Text.append_inj_of_head x.after.blank y.after.blank
        (x.name.not_isBlank_head _) (y.name.not_isBlank_head _) (List.cons.inj h).2
      obtain ⟨hname, h⟩ := Text.append_inj_of_head x.name.word y.name.word
        (not_isWord_head_rest hs xs) (not_isWord_head_rest ht ys) h
      obtain ⟨hrest, h⟩ := ih h
      exact ⟨List.cons_eq_cons.mpr
        ⟨NextName.ext (Blanks.ext hbefore) (Blanks.ext hafter) (Name.ext hname), hrest⟩, h⟩

/-- A list of names and where it ends are told by the text. -/
theorem text_append_inj {l m : NameList} {s t : Text} (hs : Ends s) (ht : Ends t)
    (h : l.text ++ s = m.text ++ t) : l = m ∧ s = t := by
  rw [text, text, List.append_assoc, List.append_assoc] at h
  obtain ⟨hfirst, h⟩ := Text.append_inj_of_head l.first.word m.first.word
    (not_isWord_head_rest hs l.rest) (not_isWord_head_rest ht m.rest) h
  obtain ⟨hrest, h⟩ := rest_append_inj hs ht h
  exact ⟨NameList.ext (Name.ext hfirst) hrest, h⟩

/-- A property of word characters, commas and blanks holds of every character of a list of
names. -/
theorem of_mem_text {P : Char → Prop} (hword : ∀ c, isWord c = true → P c) (hcomma : P ',')
    (hblank : ∀ c, isBlank c = true → P c) (l : NameList) : ∀ c ∈ l.text, P c := by
  intro c hc
  simp only [text, NextName.text, List.mem_append, List.mem_flatMap, List.mem_singleton] at hc
  rcases hc with hc | ⟨x, -, ((hc | rfl) | hc) | hc⟩
  · exact hword c (l.first.word c hc)
  · exact hblank c (x.before.blank c hc)
  · exact hcomma
  · exact hblank c (x.after.blank c hc)
  · exact hword c (x.name.word c hc)

/-- A list of names ends with a word character. -/
theorem isWord_getLast (l : NameList) : ∃ c, l.text.getLast? = some c ∧ isWord c = true := by
  have hlast (n : Name) : ∃ c, n.text.getLast? = some c ∧ isWord c = true :=
    ⟨n.text.getLast n.ne_nil, List.getLast?_eq_some_getLast n.ne_nil,
      n.word _ (List.getLast_mem n.ne_nil)⟩
  rcases List.eq_nil_or_concat l.rest with hrest | ⟨xs, x, hrest⟩
  · obtain ⟨c, hc, hword⟩ := hlast l.first
    exact ⟨c, by rw [text, hrest, List.flatMap_nil, List.append_nil, hc], hword⟩
  · obtain ⟨c, hc, hword⟩ := hlast x.name
    refine ⟨c, ?_, hword⟩
    have hend : l.text = (l.first.text ++ xs.flatMap NextName.text
        ++ (x.before.text ++ [','] ++ x.after.text)) ++ x.name.text := by
      simp [text, hrest, NextName.text]
    rw [hend, List.getLast?_append, hc, Option.some_or]

/-! ## Reading lists of names -/

/-- The trimmed pieces of a list of names are the names. -/
theorem commaPieces_text (l : NameList) : l.text.commaPieces = l.names := by
  obtain ⟨first, rest⟩ := l
  induction rest generalizing first with
  | nil =>
    obtain ⟨htight, hcomma⟩ := Text.tight_of_isName first.isName
    simp [text, names, Text.commaPieces, Text.pieces_of_not_mem hcomma, htight.trim_eq]
  | cons x rest ih =>
    obtain ⟨htight, hcomma⟩ := Text.tight_of_isName first.isName
    have hcut : (text ⟨first, x :: rest⟩) =
        (first.text ++ x.before.text) ++ ',' :: (x.after.text ++ text ⟨x.name, rest⟩) := by
      simp [text, NextName.text]
    have hbefore : ',' ∉ first.text ++ x.before.text := by
      rw [List.mem_append, not_or]
      exact ⟨hcomma, x.before.not_mem (by decide)⟩
    rw [hcut, Text.commaPieces, Text.pieces_append_separator hbefore, List.map_cons,
      Text.trim_append_of_blank_right x.before.blank, htight.trim_eq, ← Text.commaPieces,
      Text.commaPieces_append_of_blank_left x.after.blank, ih]
    rfl

/-- Every name in a list is one. -/
theorem isName_of_mem_names (l : NameList) : ∀ n ∈ l.names, n.isName = true := by
  intro n hn
  rcases List.mem_cons.mp hn with rfl | hn
  · exact l.first.isName
  · obtain ⟨x, -, rfl⟩ := List.mem_map.mp hn
    exact x.name.isName

/-- Pieces that are names once they are trimmed spell a list of names between blanks. -/
private theorem exists_of_pieces {ps : List Text} (hne : ps ≠ [])
    (h : ∀ p ∈ ps, Text.isName (Text.trim p) = true) :
    ∃ (a : Blanks) (l : NameList) (b : Blanks),
      Text.join [','] ps = a.text ++ (l.text ++ b.text) ∧ l.names = ps.map Text.trim := by
  induction ps with
  | nil => exact absurd rfl hne
  | cons p ps ih =>
    obtain ⟨a, b, ha, hb, hp⟩ := Text.exists_eq_append_trim_append p
    have hname := h p List.mem_cons_self
    cases ps with
    | nil =>
      refine ⟨⟨a, ha⟩, ⟨⟨_, hname⟩, []⟩, ⟨b, hb⟩, ?_, rfl⟩
      conv => lhs; rw [Text.join, hp]
      simp [text]
    | cons q ps =>
      obtain ⟨a', l, b', hjoin, hnames⟩ := ih (List.cons_ne_nil q ps)
        fun r hr ↦ h r (List.mem_cons_of_mem p hr)
      refine ⟨⟨a, ha⟩, ⟨⟨_, hname⟩, ⟨⟨b, hb⟩, a', l.first⟩ :: l.rest⟩, b', ?_, ?_⟩
      · rw [Text.join_cons_cons, hjoin]
        conv => lhs; rw [hp]
        simp [text, NextName.text]
      · rw [List.map_cons, ← hnames]
        rfl

end NameList

/-- A list of names is read exactly from its spellings between blanks. -/
theorem Text.names?_eq_some_iff {t : Text} {ns : List Text} :
    t.names? = some ns ↔
      ∃ (a : Blanks) (l : NameList) (b : Blanks),
        t = a.text ++ (l.text ++ b.text) ∧ l.names = ns := by
  constructor
  · intro h
    unfold names? at h
    split at h
    · next hall =>
      obtain rfl := Option.some.inj h
      obtain ⟨a, l, b, hjoin, hnames⟩ := NameList.exists_of_pieces (pieces_ne_nil ',' t)
        fun p hp ↦ List.all_eq_true.mp hall _ (List.mem_map_of_mem hp)
      exact ⟨a, l, b, (join_pieces ',' t).symm.trans hjoin, hnames⟩
    · cases h
  · rintro ⟨a, l, b, rfl, rfl⟩
    have hpieces : commaPieces (a.text ++ (l.text ++ b.text)) = l.names := by
      rw [commaPieces_append_of_blank_left a.blank, commaPieces_append_of_blank_right b.blank,
        l.commaPieces_text]
    rw [names?, hpieces, if_pos (List.all_eq_true.mpr l.isName_of_mem_names)]

/-! ## Joined names -/

namespace Text

/-- A list of names. -/
def AreNames (ns : List Text) : Prop := ns ≠ [] ∧ ∀ n ∈ ns, isName n = true

/-- Names joined with a comma and a space are a spelling of their list. -/
theorem AreNames.exists_nameList {ns : List Text} (h : AreNames ns) :
    ∃ l : NameList, l.text = join [',', ' '] ns ∧ l.names = ns := by
  obtain ⟨hne, hnames⟩ := h
  induction ns with
  | nil => exact absurd rfl hne
  | cons n ns ih =>
    have hname := hnames n List.mem_cons_self
    cases ns with
    | nil => exact ⟨⟨⟨n, hname⟩, []⟩, List.append_nil n, rfl⟩
    | cons m ns =>
      obtain ⟨l, htext, hl⟩ := ih (List.cons_ne_nil m ns)
        fun r hr ↦ hnames r (List.mem_cons_of_mem n hr)
      refine ⟨⟨⟨n, hname⟩, ⟨.none, .space, l.first⟩ :: l.rest⟩, ?_, ?_⟩
      · rw [join_cons_cons, ← htext]
        rfl
      · rw [← hl]
        rfl

/-- A property of word characters, commas and spaces holds of every character of joined names. -/
theorem of_mem_join_names {P : Char → Prop} (hword : ∀ c, isWord c = true → P c) (hcomma : P ',')
    (hspace : P ' ') {ns : List Text} (h : ∀ n ∈ ns, isName n = true) :
    ∀ c ∈ join [',', ' '] ns, P c := by
  apply of_mem_join
  · exact List.forall_mem_cons.mpr ⟨hcomma, List.forall_mem_singleton.mpr hspace⟩
  · exact fun n hn c hc ↦ hword c ((isName_iff.mp (h n hn)).2 c hc)

end Text

end Lilac
