import Lilac.Number.Reader
import Lilac.Text.Quoted

/-!
# Command-line arguments

The first argument that is no option names a command, and the arguments after it are that command's.
Each command has options and one positional parameter. Options may be shortened as long as they stay
unambiguous, and the last occurrence counts. The positional parameter takes what it can from the
first run of arguments that are no options; arguments that nobody takes are complained about once
everything else is in order. Two dashes are never a value: written into an option in the place of
its value they leave it with nothing.
-/

namespace Lilac

namespace Command

/-- What usage and help are about: the program as a whole or one of its commands. -/
inductive Topic where
  | program
  | check
  | dump
  | serve
  deriving DecidableEq, Repr

private def commands : List Topic := [.check, .dump, .serve]

/-- The options of all commands. -/
inductive Flag where
  | help
  | config
  | port
  | host
  deriving DecidableEq, Repr

namespace Flag

private def names : Flag → List Text
  | .help => ["-h".toList, "--help".toList]
  | .config => ["--config".toList]
  | .port => ["--port".toList]
  | .host => ["--host".toList]

private def label (f : Flag) : String := String.ofList (Text.join ['/'] f.names)

end Flag

namespace Topic

private def word : Topic → String
  | .program => ""
  | .check => "check"
  | .dump => "dump"
  | .serve => "serve"

/-- How the program and its commands call themselves. -/
def caller : Topic → String
  | .program => "lilac"
  | topic => "lilac " ++ topic.word

private def flags : Topic → List Flag
  | .program => [.help]
  | .check => [.help, .config]
  | .dump => [.help]
  | .serve => [.help, .port, .host]

/-- The spellings of a command's options, in order. -/
private def spellings (topic : Topic) : List (Text × Flag) :=
  topic.flags.flatMap fun f ↦ f.names.map (·, f)

end Topic

/-- What can be wrong with arguments. -/
inductive Complaint where
  /-- A shortened option has several completions. -/
  | ambiguous (argument : Text) (completions : List Text)
  /-- An option lacks its value. -/
  | noValue (flag : Flag)
  /-- An option that takes no value was given one. -/
  | uselessValue (flag : Flag) (value : Text)
  /-- The port is no integer. -/
  | badPort (value : Text)
  /-- The file to dump is missing. -/
  | noFile
  /-- There is no such command. -/
  | badCommand (word : Text)
  /-- Arguments are left over. -/
  | leftOver (arguments : List Text)
  deriving DecidableEq, Repr

/-- The words for a complaint. -/
def Complaint.message : Complaint → String
  | .ambiguous argument completions =>
    "ambiguous option: " ++ String.ofList argument ++ " could match "
      ++ String.ofList (Text.join [',', ' '] completions)
  | .noValue flag => "argument " ++ flag.label ++ ": expected one argument"
  | .uselessValue flag value =>
    "argument " ++ flag.label ++ ": ignored explicit argument " ++ String.ofList value.quoted
  | .badPort value =>
    "argument " ++ Flag.label .port ++ ": invalid int value: " ++ String.ofList value.quoted
  | .noFile => "the following arguments are required: file"
  | .badCommand word =>
    "argument COMMAND: invalid choice: " ++ String.ofList word.quoted ++ " (choose from "
      ++ ", ".intercalate (commands.map fun c ↦ "'" ++ c.word ++ "'") ++ ")"
  | .leftOver arguments =>
    "unrecognized arguments: " ++ String.ofList (Text.join [' '] arguments)

/-- Why the arguments do not lead to running a command. -/
inductive Stop where
  /-- Help was asked for. -/
  | help (topic : Topic)
  /-- The arguments are not in order. -/
  | misuse (topic : Topic) (complaint : Complaint)
  deriving DecidableEq, Repr

/-! ## One argument -/

/-- How a value is written into the argument of an option. -/
inductive Written where
  /-- Not at all. -/
  | nothing
  /-- After an equals sign that follows a long option. -/
  | afterEquals (value : Text)
  /-- After the letter of a short option, with or without an equals sign between them. -/
  | attached (letters : Text)
  deriving DecidableEq, Repr

/-- An argument by its shape. -/
inductive Item where
  /-- An argument that is no option. -/
  | positional (argument : Text)
  /-- The two dashes after which nothing is an option. -/
  | dashes
  /-- An option, with the value written into it. -/
  | flag (flag : Flag) (written : Written)
  /-- Something like an option that the command does not have. -/
  | unknown (argument : Text)
  deriving DecidableEq, Repr

private def isLong (argument : Text) : Bool := ['-', '-'].isPrefixOf argument

/-- Cuts an argument at its first equals sign. -/
def cutValue (argument : Text) : Text × Written :=
  match argument.dropWhile (· ≠ '=') with
  | [] => (argument, .nothing)
  | _ :: value =>
    (argument.takeWhile (· ≠ '='),
      if isLong argument then .afterEquals value else .attached value)

private def isDigits (t : Text) : Bool := !t.isEmpty && t.all fun c ↦ (digitValue? c).isSome

/-- Whether an argument is a negative number, which is no option. A final line feed does not
count. -/
def isNegativeNumber : Text → Bool
  | '-' :: t =>
    let t := if t.getLast? = some '\n' then t.dropLast else t
    isDigits t ||
      match t.dropWhile fun c ↦ (digitValue? c).isSome with
      | '.' :: fraction => isDigits fraction
      | _ => false
  | _ => false

/-- The options that an argument may stand for in short: a long option by any beginning of it, the
letter of a short option with something after it. -/
def completions (topic : Topic) (argument : Text) : List (Text × Flag × Written) :=
  if isLong argument then
    let (name, written) := cutValue argument
    topic.spellings.filterMap fun (spelling, f) ↦
      if name.isPrefixOf spelling then some (spelling, f, written) else none
  else
    topic.spellings.filterMap fun (spelling, f) ↦
      if spelling = argument.take 2 then some (spelling, f, .attached (argument.drop 2)) else none

/-- What an argument is for a command. -/
def classify (topic : Topic) (argument : Text) : Except Complaint Item :=
  let (name, written) := cutValue argument
  if argument.head? ≠ some '-' ∨ argument = ['-'] then .ok (.positional argument)
  else
    match topic.spellings.lookup name with
    | some f => .ok (.flag f written)
    | none =>
      match completions topic argument with
      | [(_, f, written)] => .ok (.flag f written)
      | [] =>
        if isNegativeNumber argument || ' ' ∈ argument then .ok (.positional argument)
        else .ok (.unknown argument)
      | several => .error (.ambiguous argument (several.map (·.1)))

/-- What the arguments are for a command. After two dashes, everything is positional. -/
def classifyAll (topic : Topic) : List Text → Except Complaint (List Item)
  | [] => .ok []
  | ['-', '-'] :: rest => .ok (.dashes :: rest.map .positional)
  | argument :: rest => do
    let item ← classify topic argument
    let items ← classifyAll topic rest
    .ok (item :: items)

/-! ## The arguments of a command -/

/-- How many arguments the positional parameter of a command takes. -/
inductive Arity where
  /-- Exactly one. -/
  | one
  /-- One or none. -/
  | optional
  /-- Any number. -/
  | any
  deriving DecidableEq, Repr

/-- The arity of a command's positional parameter. -/
def Topic.arity : Topic → Arity
  | .dump => .one
  | .serve => .optional
  | _ => .any

/-- What an option is given. -/
inductive Given (α : Type) where
  /-- A value. -/
  | value (a : α)
  /-- Nothing, because two dashes stand in the place of the value. -/
  | nothing
  deriving DecidableEq, Repr

/-- What an option is given, in writing; a pair of brackets stands for nothing. -/
def Given.text {α : Type} (write : α → Text) : Given α → Text
  | .value a => write a
  | .nothing => ['[', ']']

/-- What is known of the arguments of a command so far. -/
structure Parsed where
  config : Option (Given Text) := none
  host : Given Text := .value "127.0.0.1".toList
  port : Given Int := .value 8050
  /-- What the positional parameter took, once it has taken anything. -/
  taken : Option (List Text) := none
  /-- Arguments that nobody took. -/
  leftOver : List Text := []
  deriving DecidableEq, Repr

private def Item.run? : Item → Option Text
  | .positional argument => some argument
  | .dashes => some ['-', '-']
  | _ => none

/-- How many items of a run the positional parameter takes; `none` if it cannot take any. -/
def Arity.take? : Arity → List Item → Option Nat
  | .any, run => some run.length
  | .one, .dashes :: .positional _ :: _ => some 2
  | .one, .positional _ :: .dashes :: _ => some 2
  | .one, .positional _ :: _ => some 1
  | .one, _ => none
  | .optional, .dashes :: .positional _ :: _ => some 2
  | .optional, .dashes :: _ => some 1
  | .optional, .positional _ :: .dashes :: _ => some 2
  | .optional, .positional _ :: _ => some 1
  | .optional, _ => some 0

/-- Hands a run of arguments that are no options to the positional parameter, or leaves them over if
it has taken something before. -/
def takeRun (arity : Arity) (p : Parsed) (run : List Item) : Parsed :=
  let texts := run.filterMap Item.run?
  match p.taken, arity.take? run with
  | none, some n =>
    { p with
      taken := some ((texts.take n).erase ['-', '-'])
      leftOver := p.leftOver ++ texts.drop n }
  | _, _ => { p with leftOver := p.leftOver ++ texts }

/-- Leaves an option with nothing. -/
def setNothing (flag : Flag) (p : Parsed) : Parsed :=
  match flag with
  | .help => p
  | .config => { p with config := some .nothing }
  | .host => { p with host := .nothing }
  | .port => { p with port := .nothing }

/-- Stores the value of an option. -/
def setValue (topic : Topic) (flag : Flag) (value : Text) (p : Parsed) : Except Stop Parsed :=
  if value = ['-', '-'] then .ok (setNothing flag p)
  else
    match flag with
    | .help => .ok p
    | .config => .ok { p with config := some (.value value) }
    | .host => .ok { p with host := .value value }
    | .port =>
      match readInteger? value with
      | some n => .ok { p with port := .value n }
      | none => .error (.misuse topic (.badPort value))

/-- What letters after the letter of the help option do: more of the same are the same option, and
anything else is a value that the option does not take. -/
def onLetters (topic : Topic) : Text → Stop
  | ['h'] => .help topic
  | 'h' :: letters => onLetters topic letters
  | letters => .misuse topic (.uselessValue .help letters)

/-- What the help option does: it takes no value. -/
private def onHelp (topic : Topic) : Written → Stop
  | .nothing => .help topic
  | .afterEquals value => .misuse topic (.uselessValue .help value)
  | .attached letters => onLetters topic letters

/-- Goes through the arguments of a command. The first argument bounds the number of steps. -/
def parseItems (topic : Topic) : Nat → Parsed → List Item → Except Stop Parsed
  | 0, p, _ => .ok p
  | _ + 1, p, [] => .ok p
  | n + 1, p, .unknown argument :: rest =>
    parseItems topic n { p with leftOver := p.leftOver ++ [argument] } rest
  | n + 1, p, .flag f written :: rest =>
    if f = .help then .error (onHelp topic written)
    else
      match written, rest with
      | .afterEquals v, rest => do parseItems topic n (← setValue topic f v p) rest
      | .nothing, .positional v :: rest => do parseItems topic n (← setValue topic f v p) rest
      | _, _ => .error (.misuse topic (.noValue f))
  | n + 1, p, items =>
    let run := items.takeWhile fun i ↦ i.run?.isSome
    parseItems topic n (takeRun topic.arity p run) (items.drop run.length)

/-- Reads the arguments of a command. -/
def parseCommand (topic : Topic) (arguments : List Text) : Except Stop Parsed := do
  let items ← (classifyAll topic arguments).mapError (.misuse topic)
  let p ← parseItems topic (items.length + 1) {} items
  if topic = .dump ∧ p.taken = none then .error (.misuse topic .noFile) else .ok p

/-! ## All arguments -/

/-- What the arguments ask for. -/
inductive Invocation where
  /-- Check the sources that paths stand for. -/
  | check (config : Option (Given Text)) (paths : List Text)
  /-- Print the functions of a file. -/
  | dump (file : Text)
  /-- Show the page of a directory. -/
  | serve (directory : Text) (host : Given Text) (port : Given Int)
  deriving DecidableEq, Repr

private def commandOf? (word : Text) : Option Topic := commands.find? (·.word.toList = word)

/-- What a command is asked to do. -/
def invocation (topic : Topic) (p : Parsed) : Invocation :=
  let taken := p.taken.getD []
  match topic with
  | .dump => .dump (taken.headD [])
  | .serve => .serve (taken.headD ['.']) p.host p.port
  | _ => .check p.config (if taken = [] then [['.']] else taken)

/-- Runs the command that a word names on the arguments after it; `skipped` were left over before
it. -/
def parseNamed (skipped : List Text) (word : Text) (rest : List Text) : Except Stop Invocation :=
  match commandOf? word with
  | none => .error (.misuse .program (.badCommand word))
  | some topic => do
    let p ← parseCommand topic rest
    let leftOver := skipped ++ p.leftOver
    if leftOver = [] then .ok (invocation topic p)
    else .error (.misuse .program (.leftOver leftOver))

/-- Looks for the command among the arguments; `skipped` were left over before. -/
def parseFrom (skipped : List Text) : List Text → Except Stop Invocation
  | [] =>
    if skipped = [] then .error (.help .program)
    else .error (.misuse .program (.leftOver skipped))
  | argument :: rest =>
    if argument = ['-', '-'] then
      if rest = [] then .error (.misuse .program (.leftOver (skipped ++ [argument])))
      else parseNamed skipped argument rest
    else
      match classify .program argument with
      | .error complaint => .error (.misuse .program complaint)
      | .ok (.flag _ written) => .error (onHelp .program written)
      | .ok (.unknown _) => parseFrom (skipped ++ [argument]) rest
      | .ok _ => parseNamed skipped argument rest

/-- Reads the arguments of the program. -/
def parse (arguments : List Text) : Except Stop Invocation := parseFrom [] arguments

end Command

end Lilac
