import Lilac.Case
import Lilac.Proofs.Names
import Lilac.Proofs.Terms

/-!
# The parts of a case line

A case line is made of a name, an argument list in parentheses, an equals sign, a body, a semicolon
and a tail. The argument list holds no semicolon and ends at the first closing parenthesis that an
equals sign follows; the body ends at the first semicolon outside string literals. A line is read as
a case exactly when it has such parts and its body can be read, and what stands in the tail has no
effect.

A text in which no closing parenthesis is followed by an equals sign and no semicolon stands is
*unended*: an argument list does not end in it.

About `parse_function_case`. Specification: `SPEC_FULL.md`, section 4.4.
-/

namespace Lilac

namespace Text

/-! ## Argument lists that do not end -/

/-- The first character of a concatenation that is not blank. -/
theorem head?_trimLeft_append (a b : Text) :
    (trimLeft (a ++ b)).head? = (trimLeft a).head?.or (trimLeft b).head? := by
  induction a with
  | nil => rfl
  | cons c a ih =>
    cases hc : isBlank c with
    | true => simpa [trimLeft, hc] using ih
    | false => simp [trimLeft, hc]

/-- A character that is neither blank nor an equals sign hides what comes after it. -/
theorem head?_trimLeft_append_ne {a : Text} (h : (trimLeft a).head? ≠ some '=') {d : Char}
    (hblank : isBlank d = false) (hne : d ≠ '=') (t : Text) :
    (trimLeft (a ++ d :: t)).head? ≠ some '=' := by
  have hd : (trimLeft (d :: t)).head? = some d := by simp [trimLeft, hblank]
  rw [head?_trimLeft_append, hd]
  cases hhead : (trimLeft a).head? with
  | none => simpa using hne
  | some e =>
    rw [hhead] at h
    exact h

/-- No closing parenthesis in the text is followed by an equals sign, and no semicolon stands in
it. -/
def Unended : Text → Prop
  | [] => True
  | c :: t => c ≠ ';' ∧ (c = ')' → (trimLeft t).head? ≠ some '=') ∧ Unended t

instance : (t : Text) → Decidable (Unended t)
  | [] => .isTrue trivial
  | c :: t =>
    have : Decidable (Unended t) := instDecidableUnended t
    inferInstanceAs (Decidable (c ≠ ';' ∧ (c = ')' → (trimLeft t).head? ≠ some '=') ∧ Unended t))

theorem unended_cons {c : Char} {t : Text} :
    Unended (c :: t) ↔ c ≠ ';' ∧ (c = ')' → (trimLeft t).head? ≠ some '=') ∧ Unended t :=
  Iff.rfl

/-- A suffix of an unended text is unended. -/
theorem Unended.of_append_right {a b : Text} (h : Unended (a ++ b)) : Unended b := by
  induction a with
  | nil => exact h
  | cons c a ih => exact ih h.2.2

/-- An equals sign follows behind optional blanks. -/
def EqualsFollows (t : Text) : Prop := ∃ (w : Blanks) (rest : Text), t = w.text ++ '=' :: rest

private theorem equalsFollows_iff {t : Text} : EqualsFollows t ↔ (trimLeft t).head? = some '=' := by
  constructor
  · rintro ⟨w, rest, rfl⟩
    rw [trimLeft_append_of_blank w.blank]
    rfl
  · intro h
    obtain ⟨b, hb, ht⟩ := exists_append_trimLeft t
    obtain ⟨rest, hrest⟩ := List.head?_eq_some_iff.mp h
    exact ⟨⟨b, hb⟩, rest, by rw [← hrest, ← ht]⟩

/-- An argument list is unended exactly when it holds no semicolon and the closing parenthesis
behind it is the first one that an equals sign can follow. -/
theorem unended_iff {t : Text} (rest : Text) :
    Unended t ↔ ';' ∉ t ∧ ∀ a b, t = a ++ ')' :: b → ¬EqualsFollows (b ++ ')' :: rest) := by
  constructor
  · intro h
    constructor
    · intro hmem
      obtain ⟨a, b, rfl⟩ := List.append_of_mem hmem
      exact h.of_append_right.1 rfl
    · rintro a b rfl
      rw [equalsFollows_iff]
      exact head?_trimLeft_append_ne (h.of_append_right.2.1 rfl) (by decide) (by decide) rest
  · rintro ⟨hsemicolon, hfirst⟩
    induction t with
    | nil => trivial
    | cons c t ih =>
      obtain ⟨hc, ht⟩ := not_or.mp (mt List.mem_cons.mpr hsemicolon)
      refine ⟨Ne.symm hc, ?_, ih ht fun a b hsplit ↦ hfirst (c :: a) b (by rw [hsplit]; rfl)⟩
      rintro rfl hequals
      apply hfirst [] t rfl
      rw [equalsFollows_iff, head?_trimLeft_append, hequals, Option.some_or]

end Text

private theorem Term.parse?_nil : parse? [] = none := by
  rw [parse?_eq]
  rfl

namespace Case

/-! ## The head of a case -/

/-- What follows an equals sign behind optional blanks. -/
theorem afterEquals?_eq_some_iff {t rest : Text} :
    afterEquals? t = some rest ↔ ∃ w : Blanks, t = w.text ++ '=' :: rest := by
  constructor
  · intro h
    unfold afterEquals? at h
    split at h
    · next heq =>
      obtain rfl := Option.some.inj h
      obtain ⟨b, hb, ht⟩ := Text.exists_append_trimLeft t
      exact ⟨⟨b, hb⟩, by rw [← heq, ← ht]⟩
    · cases h
  · rintro ⟨w, rfl⟩
    rw [afterEquals?, Text.trimLeft_append_of_blank w.blank]
    rfl

/-- An equals sign follows a text exactly when it is its first character that is not blank. -/
theorem afterEquals?_eq_none_iff {t : Text} :
    afterEquals? t = none ↔ t.trimLeft.head? ≠ some '=' := by
  unfold afterEquals?
  split
  · next rest heq => simp [heq]
  · next hne =>
    refine ⟨fun _ hhead ↦ ?_, fun _ ↦ rfl⟩
    obtain ⟨rest, hrest⟩ := List.head?_eq_some_iff.mp hhead
    exact hne rest hrest

/-- An unended argument list is cut off at the closing parenthesis behind it. -/
theorem cutArguments?_append {arguments s rest : Text} (hunended : arguments.Unended)
    (hafter : afterEquals? s = some rest) :
    cutArguments? (arguments ++ ')' :: s) = some (arguments, rest) := by
  induction arguments with
  | nil => simp [cutArguments?, hafter]
  | cons c a ih =>
    obtain ⟨hsemicolon, hclose, hrest⟩ := hunended
    have hcut := ih hrest
    rw [List.cons_append, cutArguments?]
    simp only [hcut, if_neg hsemicolon, Option.map_some]
    split
    · next hc =>
      have hnone : afterEquals? (a ++ ')' :: s) = none := afterEquals?_eq_none_iff.mpr
        (Text.head?_trimLeft_append_ne (hclose hc) (by decide) (by decide) s)
      rw [hnone]
    · rfl

/-- An argument list is cut off exactly where it first ends. -/
theorem cutArguments?_eq_some_iff {t arguments rest : Text} :
    cutArguments? t = some (arguments, rest) ↔
      ∃ s, t = arguments ++ ')' :: s ∧ afterEquals? s = some rest ∧ Text.Unended arguments := by
  constructor
  · intro h
    induction t generalizing arguments with
    | nil => cases h
    | cons c t ih =>
      -- A character that does not end the list goes in front of the arguments.
      have longer (hsemicolon : c ≠ ';') (hclose : c = ')' → afterEquals? t = none)
          (hrest : ∃ x, cutArguments? t = some x ∧ (c :: x.1, x.2) = (arguments, rest)) :
          ∃ s, c :: t = arguments ++ ')' :: s ∧ afterEquals? s = some rest ∧
            Text.Unended arguments := by
        obtain ⟨⟨a, r⟩, hcut, heq⟩ := hrest
        obtain ⟨rfl, rfl⟩ := Prod.mk.inj heq
        obtain ⟨s, rfl, hafter, hunended⟩ := ih hcut
        refine ⟨s, rfl, hafter, hsemicolon, fun hc hequals ↦ ?_, hunended⟩
        apply afterEquals?_eq_none_iff.mp (hclose hc)
        rw [Text.head?_trimLeft_append, hequals]
        rfl
      simp only [cutArguments?] at h
      split at h
      · next hc =>
        subst hc
        cases hafter : afterEquals? t with
        | some r =>
          rw [hafter] at h
          obtain ⟨rfl, rfl⟩ := Prod.mk.inj (Option.some.inj h)
          exact ⟨t, rfl, hafter, trivial⟩
        | none =>
          rw [hafter] at h
          exact longer (by decide) (fun _ ↦ hafter) (Option.map_eq_some_iff.mp h)
      · next hc =>
        split at h
        · cases h
        · next hsemicolon =>
          exact longer hsemicolon (fun he ↦ absurd he hc) (Option.map_eq_some_iff.mp h)
  · rintro ⟨s, rfl, hafter, hunended⟩
    exact cutArguments?_append hunended hafter

private theorem head?_append {name : Text} (h : name.isName = true) (t : Text) :
    head? (name ++ '(' :: t) = cutArguments? t := by
  obtain ⟨hne, hword⟩ := Text.isName_iff.mp h
  obtain ⟨c, rest, rfl⟩ := List.exists_cons_of_ne_nil hne
  have hopen : isWord '(' = false := by decide
  rw [head?, Text.takeWhile_isWord_append hword hopen, Text.dropWhile_isWord_append hword hopen]
  rfl

private theorem exists_of_head? {t arguments rest : Text} (h : head? t = some (arguments, rest)) :
    ∃ name s, t = name ++ '(' :: s ∧ name.isName = true ∧
      cutArguments? s = some (arguments, rest) := by
  unfold head? at h
  split at h
  · next c word s hword hrest =>
    refine ⟨t.takeWhile isWord, s, ?_, ?_, h⟩
    · rw [← hrest]
      exact List.takeWhile_append_dropWhile.symm
    · refine Text.isName_iff.mpr ⟨by rw [hword]; exact List.cons_ne_nil _ _, ?_⟩
      exact fun d hd ↦ List.all_eq_true.mp List.all_takeWhile d hd
  · cases h

/-! ## The body of a case -/

private theorem body?_append {body : Text} (houtside : Mode.outside.after body = .outside)
    (hunterminated : ';' ∉ Text.shown .outside body) (tail : Text) :
    body? (body ++ ';' :: tail) = Term.parse? body.trim := by
  rw [body?, Text.terminator?_append houtside hunterminated]
  simp only [Option.bind_eq_bind, Option.bind_some, List.take_left]
  split
  · next hblank => rw [hblank, Term.parse?_nil]
  · rfl

/-- The formal arguments are the trimmed pieces between commas, and none in a blank list. -/
theorem formals_eq (t : Text) :
    formals t = if t.all isBlank then [] else (Text.pieces ',' t).map Text.trim := by
  have hblank : Text.trim t = [] ↔ t.all isBlank = true :=
    Text.trim_eq_nil_iff.trans List.all_eq_true.symm
  rw [formals, Text.commaPieces_trim, Text.commaPieces]
  by_cases hall : t.all isBlank = true
  · rw [if_pos hall, if_pos (hblank.mpr hall)]
  · rw [if_neg hall, if_neg (mt hblank.mp hall)]

/-! ## Parts of lines -/

/-- The parts that a case line is made of. -/
@[ext] structure Parts where
  name : Name
  arguments : Text
  beforeEquals : Blanks
  afterEquals : Blanks
  body : Text
  tail : Text

namespace Parts

variable {p : Parts}

/-- What stands behind the closing parenthesis. -/
def rest (p : Parts) : Text :=
  p.beforeEquals.text ++ ['='] ++ p.afterEquals.text ++ p.body ++ [';'] ++ p.tail

/-- The text that the parts make up. -/
def text (p : Parts) : Text := p.name.text ++ ['('] ++ p.arguments ++ [')'] ++ p.rest

/-- The parts are cut where the reader cuts a line. -/
structure Cut (p : Parts) : Prop where
  noSemicolon : ';' ∉ p.arguments
  /-- No closing parenthesis in the arguments is followed by an equals sign. -/
  first : ∀ a b, p.arguments = a ++ ')' :: b → ¬Text.EqualsFollows (b ++ ')' :: p.rest)
  /-- All blanks behind the equals sign stand in front of the body. -/
  maximal : ∀ c ∈ (p.body ++ ';' :: p.tail).head?, isBlank c = false
  outside : Mode.outside.after p.body = .outside
  unterminated : ';' ∉ Text.shown .outside p.body

/-- What stands behind the closing parenthesis, cut at the equals sign and at the semicolon. -/
theorem rest_eq (p : Parts) :
    p.rest = p.beforeEquals.text ++ '=' :: (p.afterEquals.text ++ (p.body ++ ';' :: p.tail)) := by
  simp [rest]

/-- The text of the parts, cut at the parentheses. -/
theorem text_eq (p : Parts) : p.text = p.name.text ++ '(' :: (p.arguments ++ ')' :: p.rest) := by
  simp [text]

/-- Where the parts are cut does not depend on the tail. -/
theorem cut_iff :
    p.Cut ↔ p.arguments.Unended ∧ (∀ c ∈ p.body.head?, isBlank c = false) ∧
      Mode.outside.after p.body = .outside ∧ ';' ∉ Text.shown .outside p.body := by
  have hmaximal : (∀ c ∈ (p.body ++ ';' :: p.tail).head?, isBlank c = false) ↔
      ∀ c ∈ p.body.head?, isBlank c = false := by
    cases p.body with
    | nil => simp; decide
    | cons c body => simp
  rw [← hmaximal, Text.unended_iff p.rest]
  constructor
  · rintro ⟨hsemicolon, hfirst, hmaximal, houtside, hunterminated⟩
    exact ⟨⟨hsemicolon, hfirst⟩, hmaximal, houtside, hunterminated⟩
  · rintro ⟨⟨hsemicolon, hfirst⟩, hmaximal, houtside, hunterminated⟩
    exact ⟨hsemicolon, hfirst, hmaximal, houtside, hunterminated⟩

/-- Parts stay cut when the tail is replaced. -/
theorem Cut.withTail (h : p.Cut) (tail : Text) : Cut { p with tail := tail } := by
  rw [cut_iff] at h ⊢
  exact h

/-- A line that is made of parts is read as the case with their formal arguments and their body. -/
theorem Cut.parse?_eq (h : p.Cut) {line : Text} (hline : line.trim = p.text) :
    parse? line = (Term.parse? p.body.trim).map fun body ↦ ⟨formals p.arguments, body⟩ := by
  have hafter : afterEquals? p.rest = some (p.afterEquals.text ++ (p.body ++ ';' :: p.tail)) :=
    afterEquals?_eq_some_iff.mpr ⟨p.beforeEquals, p.rest_eq⟩
  have hhead : head? p.text =
      some (p.arguments, p.afterEquals.text ++ (p.body ++ ';' :: p.tail)) := by
    rw [text_eq, head?_append p.name.isName, cutArguments?_append (cut_iff.mp h).1 hafter]
  have hleft : Text.trimLeft (p.afterEquals.text ++ (p.body ++ ';' :: p.tail)) =
      p.body ++ ';' :: p.tail :=
    Text.dropWhile_append_of_head p.afterEquals.blank h.maximal
  rw [parse?, hline, hhead]
  simp only [Option.bind_eq_bind, Option.bind_some, hleft,
    body?_append h.outside h.unterminated]
  cases Term.parse? p.body.trim <;> rfl

/-- A line is made of parts in one way only. -/
theorem Cut.text_inj {q : Parts} (hp : p.Cut) (hq : q.Cut) (h : p.text = q.text) : p = q := by
  have hopen : ∀ t, ∀ c ∈ ('(' :: t).head?, isWord c = false :=
    Text.forall_mem_head?_cons (by decide)
  have hequals : ∀ t, ∀ c ∈ ('=' :: t).head?, isBlank c = false :=
    Text.forall_mem_head?_cons (by decide)
  rw [text_eq, text_eq] at h
  obtain ⟨hname, h⟩ := Text.append_inj_of_head p.name.word q.name.word (hopen _) (hopen _) h
  obtain ⟨harguments, hrest⟩ : p.arguments = q.arguments ∧ p.rest = q.rest := by
    have hcut {r : Parts} (hr : r.Cut) := cutArguments?_append (cut_iff.mp hr).1
      (afterEquals?_eq_some_iff.mpr ⟨r.beforeEquals, r.rest_eq⟩)
    have heq := (hcut hp).symm.trans ((congrArg cutArguments? (List.cons.inj h).2).trans (hcut hq))
    have harguments := (Prod.mk.inj (Option.some.inj heq)).1
    have hclosing := (List.cons.inj h).2
    rw [harguments] at hclosing
    exact ⟨harguments, (List.cons.inj (List.append_cancel_left hclosing)).2⟩
  rw [rest_eq, rest_eq] at hrest
  obtain ⟨hbefore, hrest⟩ := Text.append_inj_of_head p.beforeEquals.blank q.beforeEquals.blank
    (hequals _) (hequals _) hrest
  obtain ⟨hafter, hrest⟩ := Text.append_inj_of_head p.afterEquals.blank q.afterEquals.blank
    hp.maximal hq.maximal (List.cons.inj hrest).2
  have hlength : p.body.length = q.body.length := by
    have hstop := Text.terminator?_append hp.outside hp.unterminated p.tail
    rw [hrest, Text.terminator?_append hq.outside hq.unterminated] at hstop
    exact (Option.some.inj hstop).symm
  obtain ⟨hbody, htail⟩ := List.append_inj hrest hlength
  exact Parts.ext (Name.ext hname) harguments (Blanks.ext hbefore) (Blanks.ext hafter) hbody
    (List.cons.inj htail).2

private theorem exists_trim_text (p : Parts) :
    ∃ tail, p.text.trim = text { p with tail := tail } := by
  have hhead : Text.trimLeft p.text = p.text := by
    rw [text_eq]
    exact Text.trimLeft_eq_self (p.name.not_isBlank_head _)
  let front := p.name.text ++ ['('] ++ p.arguments ++ [')'] ++ p.beforeEquals.text ++ ['=']
    ++ p.afterEquals.text ++ p.body ++ [';']
  have hfront (tail : Text) : text { p with tail := tail } = front ++ tail := by
    simp [text, rest, front]
  have hlast : ∀ c ∈ front.getLast?, isBlank c = false := by
    rw [List.getLast?_concat]
    exact Text.forall_mem_head?_cons (by decide) []
  obtain ⟨tail, htail⟩ := Text.prefix_trimRight ⟨p.tail, (hfront p.tail).symm⟩ hlast
  exact ⟨tail, by rw [Text.trim, hhead, hfront tail, htail]⟩

/-- Another tail changes nothing, whether the line can be read or not. -/
theorem Cut.parse?_withTail (h : p.Cut) {line : Text} (hline : line.trim = p.text)
    (tail : Text) : parse? (text { p with tail := tail }) = parse? line := by
  obtain ⟨shorter, htrim⟩ := exists_trim_text { p with tail := tail }
  rw [(h.withTail shorter).parse?_eq htrim, h.parse?_eq hline]

end Parts

/-- A line that is read as a case is made of parts. -/
theorem exists_parts {line : Text} {c : Case} (h : parse? line = some c) :
    ∃ p : Parts, p.Cut ∧ line.trim = p.text := by
  simp only [parse?, Option.bind_eq_bind, Option.bind_eq_some_iff] at h
  obtain ⟨⟨arguments, rest⟩, hhead, body, hbody, -⟩ := h
  obtain ⟨name, s, htrim, hname, hcut⟩ := exists_of_head? hhead
  obtain ⟨s, rfl, hafter, hunended⟩ := cutArguments?_eq_some_iff.mp hcut
  obtain ⟨w, rfl⟩ := afterEquals?_eq_some_iff.mp hafter
  simp only [body?, Option.bind_eq_bind, Option.bind_eq_some_iff] at hbody
  obtain ⟨stop, hstop, -⟩ := hbody
  obtain ⟨b, t, hb, -, houtside, hunterminated⟩ := Text.exists_of_terminator? hstop
  obtain ⟨w', hw', hrest⟩ := Text.exists_append_trimLeft rest
  refine ⟨⟨⟨name, hname⟩, arguments, w, ⟨w', hw'⟩, b, t⟩, ?_, ?_⟩
  · refine Parts.cut_iff.mpr ⟨hunended, ?_, houtside, hunterminated⟩
    exact Text.head_of_isPrefix ⟨_, hb.symm⟩ (Text.head_trimLeft rest)
  · rw [htrim, Parts.text_eq, Parts.rest_eq, ← hb, ← hrest]

/-- A line that is read as a case is made of parts that give the case. -/
theorem exists_parts_of_parse? {line : Text} {c : Case} (h : parse? line = some c) :
    ∃ p : Parts, p.Cut ∧ line.trim = p.text ∧ Term.parse? p.body.trim = some c.body ∧
      c.arguments = formals p.arguments := by
  obtain ⟨p, hcut, hline⟩ := exists_parts h
  rw [hcut.parse?_eq hline] at h
  obtain ⟨body, hbody, rfl⟩ := Option.map_eq_some_iff.mp h
  exact ⟨p, hcut, hline, hbody, rfl⟩

/-- A line is read as a case exactly when, trimmed, it is made of parts whose body is read as the
body of the case and whose arguments give its formal arguments. Whatever follows the terminator may
be replaced by any other text. -/
theorem read_exactly_when_cut (line : Text) :
    (∀ c, parse? line = some c ↔
        ∃ p : Parts, p.Cut ∧ line.trim = p.text ∧ Term.parse? p.body.trim = some c.body ∧
          c.arguments = if p.arguments.all isBlank then []
            else (Text.pieces ',' p.arguments).map Text.trim) ∧
      ∀ p : Parts, p.Cut → line.trim = p.text →
        ∀ tail, parse? (Parts.text { p with tail := tail }) = parse? line := by
  refine ⟨fun c ↦ ⟨fun hread ↦ ?_, ?_⟩, fun p hcut hline ↦ hcut.parse?_withTail hline⟩
  · obtain ⟨p, hcut, hline, hbody, harguments⟩ := exists_parts_of_parse? hread
    exact ⟨p, hcut, hline, hbody, harguments.trans (formals_eq p.arguments)⟩
  · rintro ⟨p, hcut, hline, hbody, harguments⟩
    rw [hcut.parse?_eq hline, hbody, formals_eq, ← harguments]
    rfl

/-- Parts with a closing parenthesis and a quote among the arguments, a string with a semicolon in
the body, and all of these in the tail. -/
def oddParts : Parts where
  name := ⟨['f'], by decide⟩
  arguments := "a)b , \" ".toList
  beforeEquals := .none
  afterEquals := ⟨['\n', ' '], Text.forall_mem_of_all rfl⟩
  body := 'g' :: "(\";)=\", @) ".toList
  tail := " h() = \"; )= \\".toList

/-- The odd parts behind a tab, and their front with another tail that ends with a blank. -/
theorem read_exactly_when_cut_oddParts :
    oddParts.Cut ∧
      Text.trim "\tf(a)b , \" )=\n g(\";)=\", @) ; h() = \"; )= \\".toList = oddParts.text ∧
      parse? "\tf(a)b , \" )=\n g(\";)=\", @) ; h() = \"; )= \\".toList =
        some ⟨[['a', ')', 'b'], ['"']],
          .call ['g'] [some (.literal ⟨.string, .str [';', ')', '=']⟩), none]⟩ ∧
      parse? "f(a)b , \" )=\n g(\";)=\", @) ;\"\n".toList =
        some ⟨[['a', ')', 'b'], ['"']],
          .call ['g'] [some (.literal ⟨.string, .str [';', ')', '=']⟩), none]⟩ := by
  have hcut : oddParts.Cut := Parts.cut_iff.mpr
    ⟨by decide, Text.forall_mem_head?_cons (by decide) _, by decide,
      by decide⟩
  have hline : Text.trim "\tf(a)b , \" )=\n g(\";)=\", @) ; h() = \"; )= \\".toList =
      oddParts.text := by
    decide
  have htext : Parts.text { oddParts with tail := ['"', '\n'] } =
      "f(a)b , \" )=\n g(\";)=\", @) ;\"\n".toList := by
    decide
  obtain ⟨hiff, htail⟩ :=
    read_exactly_when_cut "\tf(a)b , \" )=\n g(\";)=\", @) ; h() = \"; )= \\".toList
  have hread := (hiff ⟨[['a', ')', 'b'], ['"']],
      .call ['g'] [some (.literal ⟨.string, .str [';', ')', '=']⟩), none]⟩).mpr
    ⟨oddParts, hcut, hline, by decide +kernel, by decide +kernel⟩
  refine ⟨hcut, hline, hread, ?_⟩
  rw [← htext, htail oddParts hcut hline, hread]

end Case

end Lilac
