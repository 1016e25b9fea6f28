import Lilac.Command.Run
import Lilac.Proofs.Listings
import Lilac.Proofs.Paths
import Mathlib.Data.List.Forall2

/-!
# What a check ends with

A check looks at the settings, then at the paths, then at the sources, and stops at the first of
these stages that fails. Whatever stage it stops at, its exit code says whether it wrote to the
error stream. If it gets to the sources, it writes one line for each source that cannot be read and
one for each problem of the others, so it ends well exactly if there is nothing to write. A limit on
the number of problems does not hide that there are any, unless it is zero.

About `_cmd_check`. Specification: `SPEC_FULL.md`, on the command line.
-/

namespace Lilac

namespace Document

private theorem check_eq_takeLimit (source : Text) (limit : Int) :
    (parse source).check limit =
      takeLimit limit ((parse source).findings.mergeSort Diagnostic.notAfter) := by
  rw [check, check?_eq (d := parse source) fun _ ↦ aligned_of_mem_assembleFrom, Option.getD_some]

/-- Every problem of a source text is found in it, whatever the limit. -/
theorem mem_findings_of_mem_check {source : Text} {limit : Int} {x : Diagnostic}
    (h : x ∈ (parse source).check limit) : x ∈ (parse source).findings := by
  rw [check_eq_takeLimit] at h
  exact List.mem_mergeSort.mp ((takeLimit_sublist limit _).subset h)

/-- A limit that is not zero leaves something of what is found. -/
theorem check_eq_nil_iff {source : Text} {limit : Int} (hlimit : 1 ≤ limit) :
    (parse source).check limit = [] ↔ (parse source).findings = [] := by
  have hpos : limit.toNat ≠ 0 := by omega
  rw [check_eq_take source (by omega), List.take_eq_nil_iff, or_iff_right hpos]
  constructor
  · intro h
    exact (h ▸ List.mergeSort_perm (parse source).findings Diagnostic.notAfter).symm.eq_nil
  · intro h
    rw [h, List.mergeSort_nil]

end Document

namespace Command

variable {depth : Nat} {tree : FileTree} {here : Location}

/-! ## Reports -/

/-- The lines about a source: that it cannot be read, or one for each of its problems. -/
def linesAbout (tree : FileTree) (here : Location) (settings : Settings) (p : Path) :
    List String :=
  match tree.readText here p with
  | .error fault => [unreadableLine p fault]
  | .ok t => ((Document.parse t).check settings.limit).map (diagnosticLine p)

private theorem errorLines_report (settings : Settings) (p : Path) :
    errorLines (Source.report tree here settings p) = linesAbout tree here settings p := by
  unfold errorLines linesAbout Source.report
  cases tree.readText here p with
  | error fault => rfl
  | ok t =>
    have hall : ((Document.parse t).check settings.limit).filter (·.severity = .error) =
        (Document.parse t).check settings.limit := by
      apply List.filter_eq_self.mpr
      intro x hx
      exact decide_eq_true
        (Document.severity_of_mem_findings (Document.mem_findings_of_mem_check hx))
    exact congrArg (List.map (diagnosticLine p)) hall

/-- There is nothing to say about a source exactly if it can be read and has no problems. -/
theorem linesAbout_eq_nil_iff {settings : Settings} {p : Path} :
    linesAbout tree here settings p = [] ↔
      ∃ t, tree.readText here p = .ok t ∧ (Document.parse t).check settings.limit = [] := by
  unfold linesAbout
  cases tree.readText here p with
  | error fault => simp
  | ok t => simp

private theorem linesAbout_eq_nil_congr {settings settings' : Settings} (h : 1 ≤ settings.limit)
    (h' : 1 ≤ settings'.limit) (p : Path) :
    linesAbout tree here settings p = [] ↔ linesAbout tree here settings' p = [] := by
  simp only [linesAbout_eq_nil_iff, Document.check_eq_nil_iff h, Document.check_eq_nil_iff h']

/-- The exit code for some lines on the error stream. -/
def codeFor (err : List String) : Nat := if err = [] then 0 else 1

/-- Checking sources ends as what is written to the error stream demands. -/
theorem checkReports_spec (reports : List Source.Report) :
    (checkReports reports).err = reports.flatMap errorLines ∧
      (checkReports reports).ending = .exit (codeFor (reports.flatMap errorLines)) := by
  unfold checkReports codeFor
  by_cases hnone : reports = []
  · subst hnone
    exact ⟨rfl, rfl⟩
  · simp only [if_neg hnone]
    by_cases herrors : reports.flatMap errorLines = []
    · simp [herrors]
    · simp [herrors]

/-! ## Paths -/

/-- A path leads somewhere, and these are the sources it stands for. -/
structure StandsFor (depth : Nat) (tree : FileTree) (here : Location) (exclude : List Text)
    (p : Path) (found : List Path) : Prop where
  exists_at : tree.has here p = .ok true
  find_eq : Source.find depth tree here exclude p = .ok found

/-- How a check can end before it gets to the sources. -/
inductive Stopped : Outcome → Prop
  /-- With one line on the error stream. -/
  | failure (line : String) : Stopped (.failure 1 [line])
  /-- With a crash. -/
  | crash (cause : Crash) : Stopped (.ofCrash cause)

/-- The sources of paths are found exactly if those of each path are, and are these one after the
other. -/
theorem findAll_eq_ok_iff {exclude : List Text} {ps sources : List Path} :
    findAll depth tree here exclude ps = .ok sources ↔
      ∃ founds, List.Forall₂ (StandsFor depth tree here exclude) ps founds ∧
        sources = founds.flatten := by
  induction ps generalizing sources with
  | nil =>
    constructor
    · intro h
      exact ⟨[], .nil, (Except.ok.inj h).symm⟩
    · rintro ⟨founds, hfounds, rfl⟩
      cases hfounds
      rfl
  | cons p ps ih =>
    rw [findAll]
    constructor
    · intro h
      split at h
      · cases h
      · cases h
      · next hhas =>
        split at h
        · cases h
        · next found hfind =>
          cases hrest : findAll depth tree here exclude ps with
          | error o =>
            rw [hrest] at h
            cases h
          | ok rest =>
            rw [hrest] at h
            obtain ⟨founds, hfounds, rfl⟩ := ih.mp hrest
            exact ⟨found :: founds, .cons ⟨hhas, hfind⟩ hfounds, (Except.ok.inj h).symm⟩
    · rintro ⟨founds, hfounds, rfl⟩
      cases hfounds with
      | cons hfound hrest =>
        rw [hfound.exists_at, hfound.find_eq]
        dsimp only
        rw [ih.mpr ⟨_, hrest, rfl⟩]
        rfl

/-- If the sources of paths are not found, the check stops. -/
theorem stopped_of_findAll {exclude : List Text} {ps : List Path} {o : Outcome}
    (h : findAll depth tree here exclude ps = .error o) : Stopped o := by
  induction ps generalizing o with
  | nil => cases h
  | cons p ps ih =>
    rw [findAll] at h
    split at h
    · next fault _ => exact Except.error.inj h ▸ .crash (.file fault)
    · exact Except.error.inj h ▸ .failure _
    · split at h
      · next cause _ => exact Except.error.inj h ▸ .crash cause
      · cases hrest : findAll depth tree here exclude ps with
        | error o' =>
          rw [hrest] at h
          exact Except.error.inj h ▸ ih hrest
        | ok rest =>
          rw [hrest] at h
          cases h

private theorem forall_standsFor_iff {exclude : List Text} {P : Path → Prop} {paths : List Text} :
    (∀ path ∈ paths, ∃ found, StandsFor depth tree here exclude (.ofText path) found ∧
        ∀ p ∈ found, P p) ↔
      ∃ founds, List.Forall₂ (StandsFor depth tree here exclude) (paths.map .ofText) founds ∧
        ∀ p ∈ founds.flatten, P p := by
  induction paths with
  | nil => exact ⟨fun _ ↦ ⟨[], .nil, List.forall_mem_nil _⟩, fun _ ↦ List.forall_mem_nil _⟩
  | cons path paths ih =>
    rw [List.forall_mem_cons, ih]
    constructor
    · rintro ⟨⟨found, hfound, hP⟩, founds, hfounds, hrest⟩
      exact ⟨found :: founds, .cons hfound hfounds, List.forall_mem_append.mpr ⟨hP, hrest⟩⟩
    · rintro ⟨_, _ | ⟨hfound, hfounds⟩, hall⟩
      obtain ⟨hP, hrest⟩ := List.forall_mem_append.mp hall
      exact ⟨⟨_, hfound, hP⟩, _, hfounds, hrest⟩

/-! ## Runs -/

/-- A check without given settings has those of the working directory, wherever it is looked at
from. -/
theorem checkSettings_none {read : Yaml.Reader} {l : Location}
    (h : tree.entry? l = some .directory) (here : Location) :
    checkSettings read tree l none =
      Settings.loadIfPresent read tree here
        ((Path.ofLocation l).join (.ofText Settings.fileName)) := by
  have hresolve : tree.resolve l ⟨.here, []⟩ = .ok l := by
    rw [FileTree.resolve, h]
    rfl
  rw [checkSettings, hresolve]
  rfl

/-- A check whose settings can be loaded goes on to its paths. -/
theorem runCheck_of_settings {platform : Platform} {config : Option (Given Text)}
    {settings : Settings} (h : checkSettings platform.readYaml tree here config = .ok settings)
    (paths : List Text) :
    runCheck platform tree here config paths =
      checkPaths platform.searchDepth tree here settings paths := by
  rw [runCheck, h]

/-- A check that gets to its sources writes the lines about them and ends as these demand. -/
theorem checkPaths_of_standsFor {settings : Settings} {paths : List Text}
    {founds : List (List Path)}
    (h : List.Forall₂ (StandsFor depth tree here settings.exclude) (paths.map .ofText) founds) :
    (checkPaths depth tree here settings paths).err =
        founds.flatten.flatMap (linesAbout tree here settings) ∧
      (checkPaths depth tree here settings paths).ending =
        .exit (codeFor (founds.flatten.flatMap (linesAbout tree here settings))) := by
  have hlines : (founds.flatten.map (Source.report tree here settings)).flatMap errorLines =
      founds.flatten.flatMap (linesAbout tree here settings) := by
    rw [List.flatMap_map]
    simp only [errorLines_report]
  rw [checkPaths, findAll_eq_ok_iff.mpr ⟨founds, h, rfl⟩, ← hlines]
  exact checkReports_spec _

/-- A check that does not get to its sources stops. -/
theorem stopped_checkPaths {settings : Settings} {paths : List Text}
    (h : ∀ founds,
      ¬List.Forall₂ (StandsFor depth tree here settings.exclude) (paths.map .ofText) founds) :
    Stopped (checkPaths depth tree here settings paths) := by
  unfold checkPaths
  cases hfind : findAll depth tree here settings.exclude (paths.map .ofText) with
  | error o => exact stopped_of_findAll hfind
  | ok sources =>
    obtain ⟨founds, hfounds, -⟩ := findAll_eq_ok_iff.mp hfind
    exact absurd hfounds (h founds)

/-- A check that stops exits with 1 exactly if it writes to the error stream, and never with 0. -/
theorem Stopped.exit_iff {o : Outcome} (h : Stopped o) :
    (o.ending = .exit 1 ↔ o.err ≠ []) ∧ o.ending ≠ .exit 0 := by
  cases h with
  | failure line => exact ⟨⟨fun _ ↦ List.cons_ne_nil _ _, fun _ ↦ rfl⟩, nofun⟩
  | crash cause => exact ⟨⟨nofun, fun h ↦ absurd rfl h⟩, nofun⟩

/-- The exit code that lines demand is 1 exactly if there are lines, and else 0. -/
theorem codeFor_iff (err : List String) :
    (codeFor err = 1 ↔ err ≠ []) ∧ (codeFor err = 0 ↔ err = []) := by
  by_cases h : err = []
  · simp [codeFor, h]
  · simp [codeFor, h]

/-- A check under settings exits with 1 exactly if it writes to the error stream. -/
theorem checkPaths_exit_one_iff (settings : Settings) (paths : List Text) :
    (checkPaths depth tree here settings paths).ending = .exit 1 ↔
      (checkPaths depth tree here settings paths).err ≠ [] := by
  by_cases hfound : ∃ founds,
      List.Forall₂ (StandsFor depth tree here settings.exclude) (paths.map .ofText) founds
  · obtain ⟨founds, hfounds⟩ := hfound
    obtain ⟨herr, hending⟩ := checkPaths_of_standsFor hfounds
    rw [herr, hending, Ending.exit.injEq]
    exact (codeFor_iff _).1
  · exact (stopped_checkPaths (not_exists.mp hfound)).exit_iff.1

/-- A check under settings exits with 0 exactly if all its paths lead somewhere, and all the sources
they stand for can be read and have no problems. -/
theorem checkPaths_exit_zero_iff (settings : Settings) (paths : List Text) :
    (checkPaths depth tree here settings paths).ending = .exit 0 ↔
      ∀ path ∈ paths, ∃ found, StandsFor depth tree here settings.exclude (.ofText path) found ∧
        ∀ p ∈ found, linesAbout tree here settings p = [] := by
  rw [forall_standsFor_iff]
  constructor
  · intro hzero
    by_cases hfound : ∃ founds,
        List.Forall₂ (StandsFor depth tree here settings.exclude) (paths.map .ofText) founds
    · obtain ⟨founds, hfounds⟩ := hfound
      refine ⟨founds, hfounds, ?_⟩
      rwa [(checkPaths_of_standsFor hfounds).2, Ending.exit.injEq, (codeFor_iff _).2,
        List.flatMap_eq_nil_iff] at hzero
    · exact absurd hzero (stopped_checkPaths (not_exists.mp hfound)).exit_iff.2
  · rintro ⟨founds, hfounds, hnone⟩
    rwa [(checkPaths_of_standsFor hfounds).2, Ending.exit.injEq, (codeFor_iff _).2,
      List.flatMap_eq_nil_iff]

/-- Two limits that are not zero lead to the same ending. -/
theorem checkPaths_ending_congr {settings settings' : Settings}
    (hexclude : settings.exclude = settings'.exclude) (h : 1 ≤ settings.limit)
    (h' : 1 ≤ settings'.limit) (paths : List Text) :
    (checkPaths depth tree here settings paths).ending =
      (checkPaths depth tree here settings' paths).ending := by
  by_cases hfound : ∃ founds,
      List.Forall₂ (StandsFor depth tree here settings.exclude) (paths.map .ofText) founds
  · obtain ⟨founds, hfounds⟩ := hfound
    have hlines : founds.flatten.flatMap (linesAbout tree here settings) = [] ↔
        founds.flatten.flatMap (linesAbout tree here settings') = [] := by
      simp only [List.flatMap_eq_nil_iff, linesAbout_eq_nil_congr h h']
    rw [(checkPaths_of_standsFor hfounds).2, (checkPaths_of_standsFor (hexclude ▸ hfounds)).2,
      codeFor, codeFor]
    simp only [hlines]
  · cases hfind : findAll depth tree here settings.exclude (paths.map .ofText) with
    | error o => rw [checkPaths, hfind, checkPaths, ← hexclude, hfind]
    | ok sources =>
      obtain ⟨founds, hfounds, -⟩ := findAll_eq_ok_iff.mp hfind
      exact absurd ⟨founds, hfounds⟩ hfound

/-- The exit code of a check tells the truth. It is 1 exactly if something was written to the error
stream. It is 0 exactly if the settings can be loaded, every path leads somewhere, and every source
that a path stands for can be read and has no problems. Once the sources are looked at, the error
stream gets one line for each that cannot be read and one for each problem of the others, in the
order of the sources and of their problems. Two limits that are not zero lead to the same code. -/
theorem check_exit_honest (platform : Platform) (tree : FileTree) (here : Location)
    (config : Option (Given Text)) (paths : List Text) :
    ((runCheck platform tree here config paths).ending = .exit 1 ↔
        (runCheck platform tree here config paths).err ≠ []) ∧
      ((runCheck platform tree here config paths).ending = .exit 0 ↔
        ∃ settings, checkSettings platform.readYaml tree here config = .ok settings ∧
          ∀ path ∈ paths, tree.has here (.ofText path) = .ok true ∧
            ∃ found,
              Source.find platform.searchDepth tree here settings.exclude (.ofText path) =
                .ok found ∧
              ∀ p ∈ found, ∃ t, tree.readText here p = .ok t ∧
                (Document.parse t).check settings.limit = []) ∧
      (∀ settings founds, checkSettings platform.readYaml tree here config = .ok settings →
        List.Forall₂ (StandsFor platform.searchDepth tree here settings.exclude)
          (paths.map .ofText) founds →
        (runCheck platform tree here config paths).err =
          founds.flatten.flatMap (linesAbout tree here settings)) ∧
      ∀ settings settings' : Settings, settings.exclude = settings'.exclude →
        1 ≤ settings.limit → 1 ≤ settings'.limit →
        (checkPaths platform.searchDepth tree here settings paths).ending =
          (checkPaths platform.searchDepth tree here settings' paths).ending := by
  have hload : ∀ fault, Stopped (.ofLoadFault fault) := by
    intro fault
    cases fault with
    | settings fault => exact .failure _
    | crash cause => exact .crash cause
  refine ⟨?_, ?_, ?_, fun settings settings' hexclude h h' ↦
    checkPaths_ending_congr hexclude h h' paths⟩
  · unfold runCheck
    cases checkSettings platform.readYaml tree here config with
    | error fault => exact (hload fault).exit_iff.1
    | ok settings => exact checkPaths_exit_one_iff settings paths
  · unfold runCheck
    cases checkSettings platform.readYaml tree here config with
    | error fault => simpa using (hload fault).exit_iff.2
    | ok settings =>
      simp only [checkPaths_exit_zero_iff, linesAbout_eq_nil_iff]
      constructor
      · intro hclean
        refine ⟨settings, rfl, fun path hpath ↦ ?_⟩
        obtain ⟨found, hstands, hfound⟩ := hclean path hpath
        exact ⟨hstands.exists_at, found, hstands.find_eq, hfound⟩
      · rintro ⟨_, ⟨⟩, hclean⟩ path hpath
        obtain ⟨hexists, found, hfind, hfound⟩ := hclean path hpath
        exact ⟨found, ⟨hexists, hfind⟩, hfound⟩
  · intro settings founds hsettings hfounds
    rw [runCheck_of_settings hsettings]
    exact (checkPaths_of_standsFor hfounds).1

/-- A directory with settings that allow one problem, a source that is no text, and a source with
two problems. -/
def faultyWorkspace : FileTree :=
  ⟨[(["w".toList], .directory),
    (["w".toList, ".lilac.yaml".toList], .file "max-number-of-problems: 1".toUTF8.toList),
    (["w".toList, "a.lilac".toList], .file [0xff]),
    (["w".toList, "b.lilac".toList], .file "\x7d\n\x7d".toUTF8.toList)]⟩

theorem faultyWorkspace_exit :
    checkSettings Yaml.read faultyWorkspace ["w".toList] none = .ok ⟨1, []⟩ ∧
      StandsFor 987 faultyWorkspace ["w".toList] [] (.ofText ['.'])
        [⟨.here, ["a.lilac".toList]⟩, ⟨.here, ["b.lilac".toList]⟩] ∧
      (runCheck .standard faultyWorkspace ["w".toList] none [['.']]).err =
        ["Error: cannot read 'a.lilac': 'utf-8' codec can't decode byte 0xff in position 0: " ++
            "invalid start byte",
          "\x1b[31mb.lilac:1:1: error: Unmatched '\x7d'\x1b[39m"] ∧
      (runCheck .standard faultyWorkspace ["w".toList] none [['.']]).ending = .exit 1 ∧
      (checkPaths 987 faultyWorkspace ["w".toList] ⟨1, []⟩ [['.']]).ending =
        (checkPaths 987 faultyWorkspace ["w".toList] ⟨2, []⟩ [['.']]).ending := by
  have hsettings : checkSettings Yaml.read faultyWorkspace ["w".toList] none = .ok ⟨1, []⟩ := by
    decide +kernel
  have hstands : StandsFor 987 faultyWorkspace ["w".toList] [] (.ofText ['.'])
      [⟨.here, ["a.lilac".toList]⟩, ⟨.here, ["b.lilac".toList]⟩] := by
    have hnamed : (Source.below faultyWorkspace ["w".toList]).filter Source.isNamed =
        [["a.lilac".toList], ["b.lilac".toList]] := by decide
    refine ⟨by decide, ?_⟩
    rw [Source.find_nil (by decide) (by decide)]
    change Except.ok ((Source.namedBelow faultyWorkspace ["w".toList]).map (Path.mk .here)) = _
    rw [Source.namedBelow, hnamed, List.mergeSort_of_pairwise (by decide)]
    rfl
  have hlines : [⟨.here, ["a.lilac".toList]⟩, ⟨.here, ["b.lilac".toList]⟩].flatMap
      (linesAbout faultyWorkspace ["w".toList] ⟨1, []⟩) =
        ["Error: cannot read 'a.lilac': 'utf-8' codec can't decode byte 0xff in position 0: " ++
            "invalid start byte",
          "\x1b[31mb.lilac:1:1: error: Unmatched '\x7d'\x1b[39m"] := by
    have hread : faultyWorkspace.readText ["w".toList] ⟨.here, ["b.lilac".toList]⟩ =
        .ok "\x7d\n\x7d".toList := by decide +kernel
    have hcheck : (Document.parse "\x7d\n\x7d".toList).check 1 =
        [Issue.finding ⟨.unmatchedClosing, ⟨1, 1, 2⟩⟩] := by
      have hfindings : (Document.parse "\x7d\n\x7d".toList).findings =
          [Issue.finding ⟨.unmatchedClosing, ⟨1, 1, 2⟩⟩,
            Issue.finding ⟨.unmatchedClosing, ⟨2, 1, 2⟩⟩] := by decide
      rw [Document.check_eq_take _ (by decide), hfindings]
      simp [Diagnostic.mergeSort_cons, Diagnostic.notAfter, Diagnostic.position, Issue.finding]
    rw [List.flatMap_cons, List.flatMap_cons, linesAbout, linesAbout, hread]
    dsimp only
    rw [hcheck]
    decide
  obtain ⟨hone, -, herr, hending⟩ :=
    check_exit_honest .standard faultyWorkspace ["w".toList] none [['.']]
  have hwritten := (herr _ _ hsettings (.cons hstands .nil)).trans hlines
  exact ⟨hsettings, hstands, hwritten, hone.mpr (hwritten ▸ List.cons_ne_nil _ _),
    hending ⟨1, []⟩ ⟨2, []⟩ rfl (by decide) (by decide)⟩

end Command

end Lilac
