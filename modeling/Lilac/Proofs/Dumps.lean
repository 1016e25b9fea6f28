import Lilac.Command.Run
import Lilac.Proofs.Encoding
import Lilac.Proofs.JsonReading
import Lilac.Proofs.Paths

/-!
# What a dump holds

Every function of a source has a JSON text, since reading lets no integer that is too long and no
infinite double into a syntax tree. So the dump of a text never fails, and the functions are read
back from it one by one, every literal with the kind of value it had.

About `_cmd_dump`. Specification: `SPEC_FULL.md`, on the command line.
-/

namespace Lilac

/-! ## Functions that are read have a JSON text -/

open Json (Writable)

namespace Json.Writable

theorem noFields : Writable (.record []) := .record [] (List.forall_mem_nil _)

/-- A field in front of others keeps a record writable. -/
theorem field {name : Text} {d : Data} {fields : List (Text × Data)} (hd : Writable d)
    (hfields : Writable (.record fields)) : Writable (.record ((name, d) :: fields)) := by
  cases hfields with
  | record _ h => exact .record _ (List.forall_mem_cons.mpr ⟨hd, h⟩)

theorem texts (ts : List Text) : Writable (.texts ts) := by
  refine .list _ fun d hd ↦ ?_
  obtain ⟨t, -, rfl⟩ := List.mem_map.mp hd
  exact .str t

end Json.Writable

private theorem Literal.WellFormed.writable {l : Literal} (h : l.WellFormed) :
    Writable l.toData := by
  have hvalue : Writable (.scalar l.value) := by
    cases h with
    | boolean b => exact .bool b
    | integer n h => exact .int n h
    | float negative x => exact .float negative x
    | string s => exact .str s
  exact .field (.str _) (.field (.str _) (.field hvalue .noFields))

private theorem Term.of_mem_argumentsToData {xs : List (Option Term)} {d : Data}
    (h : d ∈ argumentsToData xs) : d = .null ∨ ∃ t, some t ∈ xs ∧ d = t.toData := by
  induction xs with
  | nil => cases h
  | cons x xs ih =>
    cases x with
    | none =>
      rcases List.mem_cons.mp h with rfl | h
      · exact .inl rfl
      · exact (ih h).imp_right fun ⟨t, ht, hd⟩ ↦ ⟨t, List.mem_cons_of_mem _ ht, hd⟩
    | some t =>
      rcases List.mem_cons.mp h with rfl | h
      · exact .inr ⟨t, List.mem_cons_self, rfl⟩
      · exact (ih h).imp_right fun ⟨t, ht, hd⟩ ↦ ⟨t, List.mem_cons_of_mem _ ht, hd⟩

private theorem Term.WellFormed.writable {t : Term} (h : t.WellFormed) : Writable t.toData := by
  induction h with
  | literal l hl => exact hl.writable
  | call name arguments hname _ ih =>
    have harguments : ∀ d ∈ argumentsToData arguments, Writable d := by
      intro d hd
      rcases of_mem_argumentsToData hd with rfl | ⟨t, ht, rfl⟩
      · exact .null
      · exact ih t ht
    rw [toData]
    exact .field (.str _) (.field (.str _) (.field (.list _ harguments) .noFields))

private theorem Header.writable (h : Header) : Writable h.toData :=
  .field (.str _) (.field (.texts _) (.field (.texts _) .noFields))

private theorem Case.WellFormed.writable {c : Case} (h : c.WellFormed) : Writable c.toData :=
  .field (.texts _) (.field h.body.writable .noFields)

private theorem Function.WellFormed.writable {f : Function} (h : f.WellFormed) :
    Writable f.toData := by
  have hcases : ∀ d ∈ f.cases.map Case.toData, Writable d := by
    intro d hd
    obtain ⟨c, hc, rfl⟩ := List.mem_map.mp hd
    exact (h.cases c hc).1.writable
  exact .field f.header.writable (.field (.field (.list _ hcases) .noFields) .noFields)

/-! ## Dumps -/

namespace Command

/-- The JSON text of a source is read as the data of its functions. -/
theorem decode?_functionsJson (source : Text) {blanks : Text}
    (hblanks : ∀ c ∈ blanks, Json.isSpace c = true) :
    Json.decode? (functionsJson (Document.parse source) ++ blanks) =
      some (.list ((Document.parse source).functions.map Function.toData)) := by
  refine Writable.decode?_json (.list _ fun d hd ↦ ?_) 0 hblanks
  obtain ⟨f, hf, rfl⟩ := List.mem_map.mp hd
  exact (Document.wellFormed_of_mem_functions f hf).writable

/-- Functions are read back from their data one by one. -/
theorem mapM_ofData_map_toData (fs : List Function) :
    (fs.map Function.toData).mapM Function.ofData = .ok fs := by
  induction fs with
  | nil => rfl
  | cons f fs ih =>
    rw [List.map_cons, List.mapM_cons, f.ofData_toData, ih]
    rfl

/-- The text of a file that a path leads to is what its bytes stand for. -/
theorem readText_of_lookup {tree : FileTree} {here : Location} {p : Path} {bytes : List UInt8}
    {x : Text} (hfile : tree.lookup here p = .ok (some (.file bytes)))
    (hdecode : Utf8.decode bytes = .ok x) :
    p.hasNull = false ∧ tree.readText here p = .ok x.unifyNewlines := by
  obtain ⟨hnull, l, hlocate, hentry⟩ := FileTree.of_lookup hfile
  refine ⟨hnull, ?_⟩
  rw [FileTree.readText, FileTree.readBytes, hlocate]
  dsimp only
  rw [hentry]
  dsimp only
  rw [hdecode]

/-- A dump of a file that is a text exits with 0. What it prints is JSON, from which the functions
of the text are read back one by one, and the error stream gets one line for each fault, in
order. -/
theorem dump_loses_nothing (platform : Platform) (tree : FileTree) (here : Location)
    (arguments : List Text) (file : Text) (bytes : List UInt8) (x : Text)
    (harguments : parse arguments = .ok (.dump file))
    (hfile : tree.lookup here (.ofText file) = .ok (some (.file bytes)))
    (hdecode : Utf8.decode bytes = .ok x) :
    (run platform tree here arguments).ending = .exit 0 ∧
      (∃ ds,
        Json.decode? (linesText (run platform tree here arguments).out).toList =
          some (.list ds) ∧
        ds.mapM Function.ofData = .ok (Document.parse x.unifyNewlines).functions) ∧
      (run platform tree here arguments).err =
        (Document.parse x.unifyNewlines).issues.map (issueLine (.ofText file)) := by
  obtain ⟨hnull, hread⟩ := readText_of_lookup hfile hdecode
  have hrun : run platform tree here arguments =
      { ending := .exit 0,
        out := [String.ofList (functionsJson (Document.parse x.unifyNewlines))],
        err := (Document.parse x.unifyNewlines).issues.map (issueLine (.ofText file)) } := by
    rw [run, harguments]
    dsimp only [runInvocation]
    rw [runDump, hnull, hread]
    rfl
  have hout : (linesText [String.ofList (functionsJson (Document.parse x.unifyNewlines))]).toList =
      functionsJson (Document.parse x.unifyNewlines) ++ ['\n'] := by
    simp [linesText, String.join]
  rw [hrun]
  refine ⟨rfl, ⟨_, ?_, mapM_ofData_map_toData _⟩, rfl⟩
  rw [hout, decode?_functionsJson _ (Text.forall_mem_of_all rfl)]

/-- A source with literals of all kinds, a hole and a brace that closes nothing. -/
def mixedSource : Text := "func f a -> b\nf(a) = g(2.0, 1, true, \"\\\"\x7f\", ?);\n\x7d".toList

/-- A file with the mixed source, which has only ASCII characters. -/
def mixedTree : FileTree :=
  ⟨[(["f.lilac".toList], .file (mixedSource.map fun c ↦ UInt8.ofNat c.toNat))]⟩

theorem mixedTree_dump :
    (run .standard mixedTree [] ["dump".toList, "f.lilac".toList]).ending = .exit 0 ∧
      (∃ ds, Json.decode?
          (linesText (run .standard mixedTree [] ["dump".toList, "f.lilac".toList]).out).toList =
            some (.list ds) ∧
        ds.mapM Function.ofData = .ok [⟨⟨['f'], [['a']], [['b']]⟩, [⟨[['a']], .call ['g']
          [some (.literal ⟨.float, .float (.ofDecimal false ⟨2, 0⟩)⟩),
            some (.literal ⟨.integer, .int 1⟩), some (.literal ⟨.boolean, .bool true⟩),
            some (.literal ⟨.string, .str ['"', '\x7f']⟩), none]⟩]⟩]) ∧
      (run .standard mixedTree [] ["dump".toList, "f.lilac".toList]).err =
        ["f.lilac:3:1: Unmatched '\x7d'"] := by
  have harguments : parse ["dump".toList, "f.lilac".toList] = .ok (.dump "f.lilac".toList) := rfl
  have hfile : mixedTree.lookup [] (.ofText "f.lilac".toList) =
      .ok (some (.file (mixedSource.map fun c ↦ UInt8.ofNat c.toNat))) := rfl
  have hdecode : Utf8.decode (mixedSource.map fun c ↦ UInt8.ofNat c.toNat) = .ok mixedSource := rfl
  have hunified : mixedSource.unifyNewlines = mixedSource := by decide
  have hissues : (Document.parse mixedSource).issues = [⟨.unmatchedClosing, ⟨3, 1, 2⟩⟩] := by
    decide +kernel
  obtain ⟨hending, ⟨ds, hds, hfunctions⟩, herr⟩ :=
    dump_loses_nothing .standard mixedTree [] _ _ _ _ harguments hfile hdecode
  rw [hunified] at hfunctions herr
  refine ⟨hending, ⟨ds, hds, ?_⟩, ?_⟩
  · rw [hfunctions]
    exact congrArg Except.ok (by decide +kernel)
  · rw [herr, hissues]
    decide

end Command

end Lilac
