import Lilac.Yaml.Cursor
import Lilac.Yaml.Scalar

/-!
# YAML tokens

The tokens of a YAML text make its structure explicit: indentation becomes the start and the end of
block collections, and a scalar that turns out to be the key of a mapping gets a key token in front
of it. Which scalar that is shows only at the colon after it, so the last place where a key may have
started is remembered for each nesting level of flow collections.

A text that cannot be scanned to its end still has the tokens in front of the fault, except those
that a colon after the fault might have changed; the fault itself is the last token.
-/

namespace Lilac

namespace Yaml

/-- A token of a YAML text. -/
inductive Token where
  | documentStart
  | documentEnd
  | blockSequenceStart
  | blockMappingStart
  | blockEnd
  | flowSequenceStart
  | flowSequenceEnd
  | flowMappingStart
  | flowMappingEnd
  | blockEntry
  | flowEntry
  | key
  | value
  /-- A scalar; only plain ones can stand for something else than a string. -/
  | scalar (plain : Bool) (text : Text)
  /-- A place where the text cannot be scanned on. -/
  | unreadable (fault : Fault)
  deriving DecidableEq, Repr

/-! ## Scalars -/

/-- Takes the line breaks at the start of a text, with the blanks that `isSpace` admits before
them. A document marker at the start of a line stops at that marker, and then the last result is
`false`. The first argument bounds the number of breaks. -/
def takeBreaks (isSpace : Char → Bool) : Nat → Text → Text × Text × Bool
  | 0, t => ([], t, true)
  | n + 1, t =>
    if startsAnyMarker t then ([], t, false)
    else
      let t := t.dropWhile isSpace
      match takeBreak? t with
      | none => ([], t, true)
      | some (c, rest) =>
        let (breaks, rest, clear) := takeBreaks isSpace n rest
        (c :: breaks, rest, clear)

/-- What a line break inside a scalar becomes, given the further breaks after it: a single line feed
is a blank, and of several the first is dropped. -/
def foldBreak (first : Char) (more : Text) : Text :=
  if first ≠ '\n' then first :: more else if more.isEmpty then [' '] else more

/-- The character a single-letter escape stands for. -/
def escapeValue? : Char → Option Char
  | '0' => some '\x00'
  | 'a' => some '\x07'
  | 'b' => some '\x08'
  | 't' => some '\t'
  | '\t' => some '\t'
  | 'n' => some '\n'
  | 'v' => some '\x0b'
  | 'f' => some '\x0c'
  | 'r' => some '\r'
  | 'e' => some '\x1b'
  | ' ' => some ' '
  | '"' => some '"'
  | '\\' => some '\\'
  | '/' => some '/'
  | 'N' => some '\u0085'
  | '_' => some '\u00a0'
  | 'L' => some '\u2028'
  | 'P' => some '\u2029'
  | _ => none

/-- The number of hexadecimal digits after an escape letter. -/
private def escapeWidth? : Char → Option Nat
  | 'x' => some 2
  | 'u' => some 4
  | 'U' => some 8
  | _ => none

/-- The character with a number. Surrogates are no characters. -/
def codePoint (n : Nat) : Except Fault Char :=
  if n.isValidChar then .ok (Char.ofNat n)
  else if n ≤ 0x10ffff then .error .malformed
  else if n < 0x80000000 then .error (.value .noCodePoint)
  else .error (.value .hugeCode)

/-- Takes an escaped character off a text, after the backslash. A line break is escaped together
with the blanks at the start of the next line, and leaves only the breaks after it. -/
def takeEscape (t : Text) : Except Fault (Text × Text) :=
  match t with
  | [] => .error .malformed
  | c :: rest =>
    match escapeValue? c, escapeWidth? c, takeBreak? t with
    | some v, _, _ => .ok ([v], rest)
    | none, some width, _ =>
      let digits := rest.take width
      if digits.length = width ∧ digits.all Scalar.isHexDigit then do
        let v ← codePoint (Scalar.ofDigits 16 digits)
        .ok ([v], rest.drop width)
      else .error .malformed
    | none, none, some (_, rest) =>
      match takeBreaks (fun c ↦ c = ' ' || c = '\t') rest.length rest with
      | (breaks, rest, true) => .ok (breaks, rest)
      | (_, _, false) => .error .malformed
    | none, none, none => .error .malformed

/-- Takes the rest of a quoted scalar, after its opening quote. The first argument bounds the number
of steps. -/
def takeQuoted (quote : Char) : Nat → Text → Except Fault (Text × Text)
  | 0, _ => .error .malformed
  | n + 1, t =>
    match t with
    | [] => .error .malformed
    | c :: rest =>
      if c = quote then
        if c = '\'' ∧ rest.head? = some '\'' then
          (takeQuoted quote n (rest.drop 1)).map fun (s, rest) ↦ ('\'' :: s, rest)
        else .ok ([], rest)
      else if c = '\\' ∧ quote = '"' then do
        let (escaped, rest) ← takeEscape rest
        let (s, rest) ← takeQuoted quote n rest
        .ok (escaped ++ s, rest)
      else if isSeparator c then
        let spaces := t.takeWhile fun c ↦ c = ' ' || c = '\t'
        let rest := t.dropWhile fun c ↦ c = ' ' || c = '\t'
        match takeBreak? rest with
        | none => (takeQuoted quote n rest).map fun (s, rest) ↦ (spaces ++ s, rest)
        | some (first, rest) =>
          match takeBreaks (fun c ↦ c = ' ' || c = '\t') rest.length rest with
          | (breaks, rest, true) =>
            (takeQuoted quote n rest).map fun (s, rest) ↦ (foldBreak first breaks ++ s, rest)
          | (_, _, false) => .error .malformed
      else (takeQuoted quote n rest).map fun (s, rest) ↦ (c :: s, rest)

private def isFlowIndicator (c : Char) : Bool := c = ',' || c = '[' || c = ']' || c = '{' || c = '}'

/-- Whether a plain scalar ends in front of a text. -/
def endsPlain (inFlow : Bool) : Text → Bool
  | [] => true
  | c :: t =>
    isSeparator c
      || (c = ':' && (endsToken t || (inFlow && t.head?.any isFlowIndicator)))
      || (inFlow && (isFlowIndicator c || c = '?'))

/-- The characters of a plain scalar up to its next blank or its end. -/
def takeChunk (inFlow : Bool) : Text → Text × Text
  | [] => ([], [])
  | c :: t =>
    if endsPlain inFlow (c :: t) then ([], c :: t)
    else
      let (chunk, rest) := takeChunk inFlow t
      (c :: chunk, rest)

/-- What is between two chunks of a plain scalar, as it is kept, and the position after it; also
whether a line break was passed. Nothing is kept in front of a document marker. -/
def takePlainSpaces (c : Cursor) : Text × Cursor × Bool :=
  let spaces := c.rest.takeWhile (· = ' ')
  let c := c.skip spaces.length
  match takeBreak? c.rest with
  | none => (spaces, c, false)
  | some (first, rest) =>
    match takeBreaks (· = ' ') rest.length rest with
    | (breaks, rest, true) => (foldBreak first breaks, c.moveTo rest, true)
    | (_, rest, false) => ([], c.moveTo rest, true)

/-- Takes a plain scalar: its text, the position after it, and whether a line break was passed in
it. Continuation lines must be indented to `indent` at least. The first argument bounds the number
of chunks. -/
def takePlain (inFlow : Bool) (indent : Int) : Nat → Text → Cursor → Bool → Text × Cursor × Bool
  | 0, _, c, broken => ([], c, broken)
  | n + 1, spaces, c, broken =>
    if c.rest.head? = some '#' then ([], c, broken)
    else
      let (chunk, rest) := takeChunk inFlow c.rest
      if chunk.isEmpty then ([], c, broken)
      else
        let (between, after, passed) := takePlainSpaces (c.moveTo rest)
        if between.isEmpty || after.rest.head? = some '#'
            || (!inFlow && (after.column : Int) < indent)
        then (spaces ++ chunk, after, passed)
        else
          let (more, stop, broken) := takePlain inFlow indent n between after passed
          (spaces ++ chunk ++ more, stop, broken)

/-- Whether a plain scalar can start with a text. -/
def startsPlain (inFlow : Bool) : Text → Bool
  | [] => false
  | c :: t =>
    !(isSeparator c || c = '-' || c = '?' || c = ':' || isFlowIndicator c || c = '#' || c = '&'
        || c = '*' || c = '!' || c = '|' || c = '>' || c = '\'' || c = '"' || c = '%' || c = '@'
        || c = '\x60')
      || (!endsToken t && (c = '-' || (!inFlow && (c = '?' || c = ':'))))

/-! ## The scanner -/

/-- A place where the key of a mapping may have started. -/
structure PossibleKey where
  /-- The number of tokens before it. -/
  token : Nat
  /-- Whether nothing but a key can stand there. -/
  required : Bool
  index : Nat
  line : Nat
  column : Nat
  deriving DecidableEq, Repr

/-- The state of the scanner between two tokens. -/
structure Scanner where
  cursor : Cursor
  /-- The tokens so far, the latest first. -/
  tokens : List Token
  /-- How many flow collections are open. -/
  flow : Nat
  /-- The indentation of the innermost block collection, -1 outside all. -/
  indent : Int
  /-- The indentations of the block collections around it. -/
  indents : List Int
  /-- Whether a key may start here. -/
  keyAllowed : Bool
  /-- Where a key may have started, by level of flow collections. -/
  keys : List (Nat × PossibleKey)
  deriving DecidableEq, Repr

namespace Scanner

/-- A result that is absent only because the text is not well formed. -/
private def orMalformed {α : Type} : Option α → Except Fault α
  | some a => .ok a
  | none => .error .malformed

private def start (t : Text) : Scanner := ⟨.start t, [], 0, -1, [], true, []⟩

private def push (token : Token) (s : Scanner) : Scanner := { s with tokens := token :: s.tokens }

private def insert (position : Nat) (token : Token) (s : Scanner) : Scanner :=
  { s with tokens := s.tokens.insertIdx (s.tokens.length - position) token }

private def allowKey (allowed : Bool) (s : Scanner) : Scanner := { s with keyAllowed := allowed }

private def skip (n : Nat) (s : Scanner) : Scanner := { s with cursor := s.cursor.skip n }

/-- The block collections that end in front of a column: the indentation that is left, those around
it, and the number of collections that end. -/
def unwound (column : Int) : Int → List Int → Int × List Int × Nat
  | indent, [] => (indent, [], 0)
  | indent, outer :: rest =>
    if column < indent then
      let (indent, indents, ended) := unwound column outer rest
      (indent, indents, ended + 1)
    else (indent, outer :: rest, 0)

/-- Ends the block collections that are indented deeper than a column; inside a flow collection
indentation has no meaning. -/
def unwind (column : Int) (s : Scanner) : Scanner :=
  if s.flow ≠ 0 then s
  else
    let (indent, indents, ended) := unwound column s.indent s.indents
    { s with indent, indents, tokens := List.replicate ended .blockEnd ++ s.tokens }

/-- Starts a block collection at a column if it is indented deeper than the current one; also tells
whether it is. -/
def openBlock (column : Nat) (s : Scanner) : Bool × Scanner :=
  if s.indent < column then
    (true, { s with indent := column, indents := s.indent :: s.indents })
  else (false, s)

private def currentKey? (s : Scanner) : Option PossibleKey := s.keys.lookup s.flow

/-- Forgets where a key may have started at the current level; fails if one was required. -/
private def dropKey? (s : Scanner) : Option Scanner :=
  match s.currentKey? with
  | some k => if k.required then none else some { s with keys := s.keys.filter (·.1 ≠ s.flow) }
  | none => some s

/-- Remembers that a key may start here. -/
def saveKey? (s : Scanner) : Option Scanner :=
  if s.keyAllowed then do
    let c := s.cursor
    let required := s.flow = 0 ∧ s.indent = c.column
    let s ← s.dropKey?
    some { s with
      keys := (s.flow, ⟨s.tokens.length, required, c.index, c.line, c.column⟩) :: s.keys }
  else some s

private def keyLimit : Nat := 1024

/-- Whether a key that may have started somewhere can no longer end here. -/
private def isStale (c : Cursor) (k : PossibleKey) : Bool :=
  k.line ≠ c.line || keyLimit < c.index - k.index

/-- Forgets keys that can no longer end here; fails if one of them was required. -/
private def dropStaleKeys? (s : Scanner) : Option Scanner :=
  if s.keys.any fun (_, k) ↦ isStale s.cursor k && k.required then none
  else some { s with keys := s.keys.filter fun (_, k) ↦ !isStale s.cursor k }

private def marker? (token : Token) (s : Scanner) : Option Scanner := do
  let s ← (s.unwind (-1)).dropKey?
  some (((s.allowKey false).skip 3).push token)

private def flowStart? (token : Token) (s : Scanner) : Option Scanner := do
  let s ← s.saveKey?
  some ({ s with flow := s.flow + 1, keyAllowed := true }.skip 1 |>.push token)

private def flowEnd? (token : Token) (s : Scanner) : Option Scanner := do
  let s ← s.dropKey?
  some ({ s with flow := s.flow - 1, keyAllowed := false }.skip 1 |>.push token)

private def flowEntry? (s : Scanner) : Option Scanner := do
  let s ← (s.allowKey true).dropKey?
  some ((s.skip 1).push .flowEntry)

/-- Starts a block collection here, if one can start and is indented deeper than the current one. -/
def startBlock? (token : Token) (s : Scanner) : Option Scanner :=
  if s.flow ≠ 0 then some s
  else if s.keyAllowed then
    let (isNew, s) := s.openBlock s.cursor.column
    some (if isNew then s.push token else s)
  else none

private def blockEntry? (s : Scanner) : Option Scanner := do
  let s ← s.startBlock? .blockSequenceStart
  let s ← (s.allowKey true).dropKey?
  some ((s.skip 1).push .blockEntry)

private def key? (s : Scanner) : Option Scanner := do
  let s ← s.startBlock? .blockMappingStart
  let s ← (s.allowKey (s.flow = 0)).dropKey?
  some ((s.skip 1).push .key)

/-- The colon in front of a value: it makes a key of what stands before it, if that can be one. -/
def value? (s : Scanner) : Option Scanner :=
  match s.currentKey? with
  | some k =>
    let s := ({ s with keys := s.keys.filter (·.1 ≠ s.flow) }).insert k.token .key
    let (isNew, s) := if s.flow = 0 then s.openBlock k.column else (false, s)
    let s := if isNew then s.insert k.token .blockMappingStart else s
    some (((s.allowKey false).skip 1).push .value)
  | none => do
    let s ← s.startBlock? .blockMappingStart
    let s ← (s.allowKey (s.flow = 0)).dropKey?
    some ((s.skip 1).push .value)

private def quoted (quote : Char) (s : Scanner) : Except Fault Scanner := do
  let s ← orMalformed s.saveKey?
  let body := s.cursor.rest.drop 1
  let (text, rest) ← takeQuoted quote (body.length + 1) body
  .ok ({ s with cursor := s.cursor.moveTo rest, keyAllowed := false }.push (.scalar false text))

private def plain? (s : Scanner) : Option Scanner := do
  let s ← s.saveKey?
  let (text, cursor, broken) :=
    takePlain (s.flow ≠ 0) (s.indent + 1) (s.cursor.rest.length + 1) [] s.cursor false
  some ({ s with cursor, keyAllowed := broken }.push (.scalar true text))

/-- The token at the cursor, if it is no quoted scalar, given what is left of the text there. -/
def unquoted? (s : Scanner) (c : Char) (rest : Text) : Option Scanner :=
  let t := s.cursor.rest
  if s.cursor.column = 0 ∧ startsMarker '-' t then s.marker? .documentStart
  else if s.cursor.column = 0 ∧ startsMarker '.' t then s.marker? .documentEnd
  else if c = '[' then s.flowStart? .flowSequenceStart
  else if c = '{' then s.flowStart? .flowMappingStart
  else if c = ']' then s.flowEnd? .flowSequenceEnd
  else if c = '}' then s.flowEnd? .flowMappingEnd
  else if c = ',' then s.flowEntry?
  else if c = '-' ∧ endsToken rest then s.blockEntry?
  else if c = '?' ∧ (s.flow ≠ 0 ∨ endsToken rest) then s.key?
  else if c = ':' ∧ (s.flow ≠ 0 ∨ endsToken rest) then s.value?
  else if startsPlain (s.flow ≠ 0) t then s.plain?
  else none

/-- The token at the cursor, given what is left of the text there. -/
def token (s : Scanner) (c : Char) (rest : Text) : Except Fault Scanner :=
  if c = '\'' ∨ c = '"' then s.quoted c else orMalformed (s.unquoted? c rest)

/-- Moves to the next token; a key may start on every new line outside flow collections. -/
def toNextToken? (s : Scanner) : Option Scanner := do
  let c := if s.cursor.index = 0 ∧ s.cursor.rest.head? = some '\ufeff' then s.cursor.next
    else s.cursor
  let (c, broken) := toToken (c.rest.length + 1) c
  let s := { s with cursor := c, keyAllowed := s.keyAllowed || (broken && s.flow = 0) }
  let s ← s.dropStaleKeys?
  some (s.unwind s.cursor.column)

/-- The tokens in front of every place where a key may still have started. -/
private def settled (s : Scanner) : List Token :=
  let keys := s.keys.filter fun (_, k) ↦ !isStale s.cursor k
  s.tokens.reverse.take (keys.foldl (fun n (_, k) ↦ min n k.token) s.tokens.length)

private def cutOff (s : Scanner) (fault : Fault) : List Token := s.settled ++ [.unreadable fault]

/-- Scans up to the end of the text or to a fault. The first argument bounds the number of
tokens. -/
def run : Nat → Scanner → List Token
  | 0, s => s.cutOff .malformed
  | n + 1, s =>
    match s.toNextToken? with
    | none => s.cutOff .malformed
    | some near =>
      match near.cursor.rest with
      | [] =>
        match (near.unwind (-1)).dropKey? with
        | some last => last.tokens.reverse
        | none => s.cutOff .malformed
      | c :: rest =>
        match near.token c rest with
        | .ok next => run n next
        | .error fault => s.cutOff fault

end Scanner

/-- Whether a character may stand in a YAML text at all. -/
def isAdmissible (c : Char) : Bool :=
  let n := c.toNat
  n = 0x09 || n = 0x0a || n = 0x0d || (0x20 ≤ n && n ≤ 0x7e) || n = 0x85
    || (0xa0 ≤ n && n ≤ 0xfffd) || 0x10000 ≤ n

/-- The tokens of a YAML text. -/
def tokens (t : Text) : List Token :=
  if t.all isAdmissible then (Scanner.start t).run (t.length + 1) else [.unreadable .malformed]

end Yaml

end Lilac
