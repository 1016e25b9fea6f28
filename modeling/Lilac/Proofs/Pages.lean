import Lilac.Proofs.Verdicts

/-!
# What a page shows

The page of a directory and a check in that directory go their own ways: the one names the
directory, the other works in it. Still they find the same settings and the same sources, and the
page shows of every source what the check says about it. They only part where the absolute path of a
source or of a directory is too long to be followed: the page cannot read such a source or look into
such a directory, and the check can.

About `create_app` and `_cmd_check`. Specification: `SPEC_FULL.md`, on the web viewer.
-/

namespace Lilac

namespace Element

/-- The elements in an element. -/
def children : Element → List Element
  | .group _ _ _ elements => elements
  | _ => []

/-- The text of an element of a certain type. -/
def textOf? (type : String) : Element → Option String
  | .text type' _ content => if type' = type then some content else none
  | _ => none

/-- The texts of a certain type in an element. -/
def texts (type : String) (e : Element) : List String := e.children.filterMap (textOf? type)

/-- The items of the lists in an element. -/
def items (e : Element) : List String := e.children.flatMap (texts "Li")

/-- Whether an element is the section of a source. -/
def isSection : Element → Bool
  | .group _ className _ _ => className = some "lilac-source"
  | _ => false

/-- The sections of sources in an element. -/
def sections (e : Element) : List Element := e.children.filter isSection

end Element

namespace Page

/-- A page has one section for each report. -/
theorem sections_render (directory : Path) (rs : List Source.Report) :
    (render directory rs).sections = rs.map (sourceSection directory) := by
  have hall : (rs.map (sourceSection directory)).filter Element.isSection =
      rs.map (sourceSection directory) := by
    apply List.filter_eq_self.mpr
    intro e he
    obtain ⟨r, -, rfl⟩ := List.mem_map.mp he
    rfl
  by_cases hnone : rs = []
  · subst hnone
    rfl
  · rw [render, if_neg hnone]
    exact hall

/-- A problem as it is shown in a list: its line and what it says. -/
def itemText (d : Diagnostic) : String :=
  "line " ++ integerString d.position.1 ++ ": " ++ d.message

private theorem textOf?_diagnosticItem {source : Text} {limit : Int} {d : Diagnostic}
    (h : d ∈ (Document.parse source).check limit) :
    (diagnosticItem d).textOf? "Li" = some (itemText d) := by
  obtain ⟨s, -, hs⟩ :=
    Document.exists_place_of_mem_findings (Document.mem_findings_of_mem_check h)
  simp [diagnosticItem, Element.textOf?, itemText, Diagnostic.position, hs]

variable {tree : FileTree} {here : Location} {p : Path} (settings : Settings) (directory : Path)

private theorem heading_sourceSection (r : Source.Report) :
    (sourceSection directory r).texts "H2" =
      [String.ofList (directory.relativeTo r.path).text] := by
  obtain ⟨path, _ | shown⟩ := r
  · rfl
  · rw [sourceSection, body]
    dsimp only
    rw [problems]
    split
    · rfl
    · rfl

/-- What the section of a source says if the source cannot be read. -/
theorem texts_of_error {fault : ReadFault}
    (h : tree.readText here p = .error fault) :
    (sourceSection directory (Source.report tree here settings p)).texts "P" =
      ["Cannot read file: " ++ fault.message] := by
  rw [Source.report, h]
  rfl

private theorem texts_of_ok {t : Text} (h : tree.readText here p = .ok t) :
    (sourceSection directory (Source.report tree here settings p)).texts "P" =
      if (Document.parse t).check settings.limit = [] then ["No issues found."] else [] := by
  rw [Source.report, h, sourceSection, body]
  dsimp only [Except.map]
  rw [problems]
  split
  · rfl
  · rfl

private theorem items_of_ok {t : Text} (h : tree.readText here p = .ok t) :
    (sourceSection directory (Source.report tree here settings p)).items =
      ((Document.parse t).check settings.limit).map itemText := by
  have hitems : (((Document.parse t).check settings.limit).map diagnosticItem).filterMap
      (Element.textOf? "Li") = ((Document.parse t).check settings.limit).map itemText := by
    rw [List.filterMap_map, ← List.filterMap_eq_map]
    apply List.filterMap_congr
    intro d hd
    exact textOf?_diagnosticItem hd
  rw [Source.report, h, sourceSection, body, ← hitems]
  dsimp only [Except.map]
  rw [problems]
  split
  · next hnone =>
    rw [hnone]
    rfl
  · exact List.append_nil _

end Page

namespace Command

variable {platform : Platform} {tree : FileTree} {l : Location}

/-- A section shows what a check in a directory says about a source: it stands under the path of the
source, says that the source cannot be read exactly if it cannot, lists the problems of a source
that can be read, each with its line, and says that there are none exactly if the check says
nothing. -/
structure Shows (tree : FileTree) (here : Location) (settings : Settings) (p : Path)
    (s : Element) : Prop where
  heading : s.texts "H2" = [String.ofList p.text]
  unreadable : (∃ reason, "Cannot read file: " ++ reason ∈ s.texts "P") ↔
    ∃ fault, tree.readText here p = .error fault
  problems : ∀ t, tree.readText here p = .ok t →
    s.items = ((Document.parse t).check settings.limit).map Page.itemText
  clean : "No issues found." ∈ s.texts "P" ↔ linesAbout tree here settings p = []

/-- The page of a directory, made anywhere, agrees with a check without arguments in the directory:
either both fail in the same way, or both have the same settings, and the page has one section for
each source that is checked, in the same order, which shows what the check says about the source. -/
structure PageAgrees (platform : Platform) (tree : FileTree) (here l : Location) : Prop where
  failure : ∀ fault,
    Page.ofDirectory platform.readYaml platform.searchDepth tree here (.ofLocation l) =
        .error fault →
      run platform tree l ["check".toList] = .ofLoadFault fault
  success : ∀ page,
    Page.ofDirectory platform.readYaml platform.searchDepth tree here (.ofLocation l) = .ok page →
      ∃ settings found, checkSettings platform.readYaml tree l none = .ok settings ∧
        StandsFor platform.searchDepth tree l settings.exclude (.ofText ['.']) found ∧
        (run platform tree l ["check".toList]).err = found.flatMap (linesAbout tree l settings) ∧
        List.Forall₂ (Shows tree l settings) found page.sections

theorem PageAgrees.of_error {here : Location} {fault : LoadFault}
    (hpage : Page.ofDirectory platform.readYaml platform.searchDepth tree here (.ofLocation l) =
      .error fault)
    (hrun : run platform tree l ["check".toList] = .ofLoadFault fault) :
    PageAgrees platform tree here l := by
  refine ⟨?_, ?_⟩
  · intro fault' hfault
    exact Except.error.inj (hpage.symm.trans hfault) ▸ hrun
  · intro page hok
    cases hpage.symm.trans hok

theorem PageAgrees.of_ok {here : Location} {page : Element} {settings : Settings}
    {found : List Path}
    (hpage : Page.ofDirectory platform.readYaml platform.searchDepth tree here (.ofLocation l) =
      .ok page)
    (hload : checkSettings platform.readYaml tree l none = .ok settings)
    (hstands : StandsFor platform.searchDepth tree l settings.exclude (.ofText ['.']) found)
    (hrun : (run platform tree l ["check".toList]).err = found.flatMap (linesAbout tree l settings))
    (hshows : List.Forall₂ (Shows tree l settings) found page.sections) :
    PageAgrees platform tree here l := by
  refine ⟨?_, ?_⟩
  · intro fault hfault
    cases hpage.symm.trans hfault
  · intro page' hok
    exact ⟨settings, found, hload, hstands, hrun, Except.ok.inj (hpage.symm.trans hok) ▸ hshows⟩

/-- A check without arguments is one of the working directory. -/
theorem run_check (platform : Platform) (tree : FileTree) (here : Location) :
    run platform tree here ["check".toList] = runCheck platform tree here none [['.']] := by
  have hparse : parse ["check".toList] = .ok (.check none [['.']]) := by decide
  rw [run, hparse]
  rfl

private theorem cannotRead_ne_noIssues (reason : String) :
    "Cannot read file: " ++ reason ≠ "No issues found." := by
  intro h
  have hhead := congrArg (·.toList.head?) h
  simp at hhead

/-- A source that is not too deep is shown as the check finds it. -/
theorem shows_sourceSection (h : tree.HasDirectory l) (here : Location) (settings : Settings)
    {parts : List Text}
    (hshort : (Path.ofLocation (l ++ parts)).text.byteLength ≤ FileTree.pathLimit) :
    Shows tree l settings ⟨.here, parts⟩ (Page.sourceSection (.ofLocation l)
      (Source.report tree here settings ((Path.ofLocation l).join ⟨.here, parts⟩))) := by
  change Shows tree l settings ⟨.here, parts⟩ (Page.sourceSection (.ofLocation l)
    (Source.report tree here settings (.ofLocation (l ++ parts))))
  have hread := h.readText_append_eq_ok_iff here hshort
  have hheading : (Page.sourceSection (.ofLocation l) (Source.report tree here settings
      (.ofLocation (l ++ parts)))).texts "H2" = [String.ofList (Path.mk .here parts).text] := by
    rw [Page.heading_sourceSection]
    simp [Source.report, Path.relativeTo, Path.ofLocation]
  cases habsolute : tree.readText here (.ofLocation (l ++ parts)) with
  | error fault' =>
    cases hrelative : tree.readText l ⟨.here, parts⟩ with
    | ok t => cases habsolute.symm.trans ((hread t).mpr hrelative)
    | error fault =>
      have htexts := Page.texts_of_error settings (.ofLocation l) habsolute
      refine ⟨hheading, ?_, ?_, ?_⟩
      · rw [htexts]
        exact ⟨fun _ ↦ ⟨fault, hrelative⟩, fun _ ↦ ⟨_, List.mem_singleton_self _⟩⟩
      · intro t ht
        cases hrelative.symm.trans ht
      · simp [htexts, linesAbout, hrelative, (cannotRead_ne_noIssues _).symm]
  | ok t =>
    have hrelative := (hread t).mp habsolute
    have htexts := Page.texts_of_ok settings (.ofLocation l) habsolute
    refine ⟨hheading, ?_, ?_, ?_⟩
    · by_cases hnone : (Document.parse t).check settings.limit = []
      · simp [htexts, hnone, hrelative, cannotRead_ne_noIssues]
      · simp [htexts, hnone, hrelative]
    · intro t' ht
      cases hrelative.symm.trans ht
      exact Page.items_of_ok settings _ habsolute
    · simp [htexts, linesAbout, hrelative]

/-- The page of a directory is made of what a check in the directory finds, unless something is in
the way of only one of them. -/
theorem ofDirectory_eq (platform : Platform) (h : tree.HasDirectory l) (here : Location)
    (hsame : Source.obstacle? platform.searchDepth tree here (.ofLocation l) =
      Source.obstacle? platform.searchDepth tree l ⟨.here, []⟩) :
    Page.ofDirectory platform.readYaml platform.searchDepth tree here (.ofLocation l) =
      (checkSettings platform.readYaml tree l none).bind fun settings ↦
        ((Source.find platform.searchDepth tree l settings.exclude ⟨.here, []⟩).mapError
          .crash).map fun found ↦ Page.render (.ofLocation l) (found.map fun p ↦
            Source.report tree here settings ((Path.ofLocation l).join p)) := by
  rw [Page.ofDirectory, Page.reports, checkSettings_none h.entry_eq here]
  cases Settings.loadIfPresent platform.readYaml tree here
      ((Path.ofLocation l).join (.ofText Settings.fileName)) with
  | error fault => rfl
  | ok settings =>
    dsimp only [bind, Except.bind]
    rw [Source.find_ofLocation h here settings.exclude hsame]
    cases Source.find platform.searchDepth tree l settings.exclude ⟨.here, []⟩ with
    | error cause => rfl
    | ok found =>
      dsimp only [Except.map, Except.mapError]
      rw [List.map_map]
      rfl

/-- As long as no directory and no source below a directory has an absolute path that is too long,
the page of the directory shows what a check in the directory says. -/
theorem page_agrees_with_check (platform : Platform) (tree : FileTree) (here l : Location)
    (hup : Path.up ∉ l) (hdirectory : tree.isDirectory here (.ofLocation l) = .ok true)
    (hdirectories : ∀ parts ∈ Source.below tree.directories l,
      (Path.ofLocation (l ++ parts)).text.byteLength ≤ FileTree.pathLimit)
    (hsources : ∀ parts ∈ Source.below tree l, Source.isNamed parts →
      (Path.ofLocation (l ++ parts)).text.byteLength ≤ FileTree.pathLimit) :
    PageAgrees platform tree here l := by
  have h := FileTree.hasDirectory_of_isDirectory hup hdirectory
  have hdot : Path.ofText ['.'] = ⟨.here, []⟩ := rfl
  have hhas : tree.has l ⟨.here, []⟩ = .ok true := by
    rw [FileTree.has, h.lookup_here]
    rfl
  have hrun := run_check platform tree l
  have hpage := ofDirectory_eq platform h here (Source.obstacle?_ofLocation h here hdirectories)
  rw [runCheck] at hrun
  cases hload : checkSettings platform.readYaml tree l none with
  | error fault =>
    rw [hload] at hrun hpage
    exact .of_error hpage hrun
  | ok settings =>
    rw [hload] at hrun hpage
    dsimp only [Except.bind] at hrun hpage
    cases hfind : Source.find platform.searchDepth tree l settings.exclude ⟨.here, []⟩ with
    | error cause =>
      rw [hfind] at hpage
      refine .of_error hpage ?_
      rw [hrun, checkPaths, List.map_singleton, hdot, findAll, hhas, hfind]
      rfl
    | ok found =>
      rw [hfind] at hpage
      have hstands : StandsFor platform.searchDepth tree l settings.exclude (.ofText ['.']) found :=
        ⟨hhas, hfind⟩
      have hpaths : List.Forall₂ (StandsFor platform.searchDepth tree l settings.exclude)
          ([['.']].map .ofText) [found] := .cons hstands .nil
      refine .of_ok hpage hload hstands ?_ ?_
      · rw [hrun, (checkPaths_of_standsFor hpaths).1, List.flatten_singleton]
      · rw [Page.sections_render, List.map_map, List.forall₂_map_right_iff, List.forall₂_same]
        intro p hp
        obtain ⟨parts, hparts, hnamed, rfl⟩ := Source.exists_parts_of_mem_find h hfind hp
        exact shows_sourceSection h here settings (hsources parts hparts hnamed)

theorem faultyWorkspace_page_agrees :
    faultyWorkspace.isDirectory [] (.ofLocation ["w".toList]) = .ok true ∧
      PageAgrees .standard faultyWorkspace [] ["w".toList] :=
  ⟨by decide,
    page_agrees_with_check .standard faultyWorkspace [] ["w".toList] (by decide) (by decide)
      (by decide) (by decide)⟩

/-- A directory sixteen levels deep, with long names on the way. -/
def deepDirectory : Location := List.replicate 16 (List.replicate 250 'd')

/-- The name of a source whose absolute path in the deep directory is too long. -/
def deepName : Text := List.replicate 100 's' ++ Source.suffix

/-- The deep directory, with an empty source in it. -/
def deepTree : FileTree :=
  ⟨(List.range 16).map (fun n ↦ (deepDirectory.take (n + 1), .directory)) ++
    [(deepDirectory ++ [deepName], .file [])]⟩

/-- The deep directory, with an empty directory in it whose absolute path is too long. -/
def deeperTree : FileTree :=
  ⟨(List.range 16).map (fun n ↦ (deepDirectory.take (n + 1), .directory)) ++
    [(deepDirectory ++ [List.replicate 100 'd'], .directory)]⟩

theorem deeperTree_page_disagrees : ¬PageAgrees .standard deeperTree [] deepDirectory := by
  have hload : checkSettings Platform.standard.readYaml deeperTree deepDirectory none = .ok {} := by
    decide +kernel
  have hfind : Source.find 987 deeperTree deepDirectory [] ⟨.here, []⟩ = .ok [] := by
    have hnamed : (Source.below deeperTree deepDirectory).filter Source.isNamed = [] := by
      decide +kernel
    rw [Source.find_nil (by decide +kernel) (by decide +kernel), Source.allBelow_here,
      Source.namedBelow, hnamed, List.mergeSort_nil]
    rfl
  have hstands : List.Forall₂ (StandsFor 987 deeperTree deepDirectory ({} : Settings).exclude)
      ([['.']].map .ofText) [[]] := .cons ⟨by decide, hfind⟩ .nil
  have hending : (run .standard deeperTree deepDirectory ["check".toList]).ending = .exit 0 := by
    rw [run_check, runCheck_of_settings hload]
    exact (checkPaths_of_standsFor hstands).2
  have hpage : Page.ofDirectory Yaml.read 987 deeperTree [] (.ofLocation deepDirectory) =
      .error (.crash (.file ⟨.nameTooLong,
        .ofLocation (deepDirectory ++ [List.replicate 100 'd'])⟩)) := by
    have hsettings : Settings.loadIfPresent Yaml.read deeperTree []
        ((Path.ofLocation deepDirectory).join (.ofText Settings.fileName)) = .ok {} := by
      decide +kernel
    have hsearch : Source.find 987 deeperTree [] [] (.ofLocation deepDirectory) =
        .error (.file ⟨.nameTooLong,
          .ofLocation (deepDirectory ++ [List.replicate 100 'd'])⟩) := by decide +kernel
    rw [Page.ofDirectory, Page.reports, hsettings]
    dsimp only [bind, Except.bind]
    rw [hsearch]
    rfl
  intro hagrees
  rw [hagrees.failure _ hpage] at hending
  cases hending

/-- The page cannot read a source whose absolute path is too long, and the check can. Nor is there a
page where the absolute path of a directory is too long. -/
theorem deepTree_page_disagrees :
    Path.up ∉ deepDirectory ∧
      deepTree.isDirectory [] (.ofLocation deepDirectory) = .ok true ∧
      checkSettings Yaml.read deepTree deepDirectory none = .ok {} ∧
      deepTree.readText deepDirectory ⟨.here, [deepName]⟩ = .ok [] ∧
      ¬PageAgrees .standard deepTree [] deepDirectory ∧
      deeperTree.isDirectory [] (.ofLocation deepDirectory) = .ok true ∧
      ¬PageAgrees .standard deeperTree [] deepDirectory := by
  have hup : Path.up ∉ deepDirectory := by decide
  have hdirectory : deepTree.isDirectory [] (.ofLocation deepDirectory) = .ok true := by
    decide +kernel
  have hload : checkSettings Yaml.read deepTree deepDirectory none = .ok {} := by decide +kernel
  have hread : deepTree.readText deepDirectory ⟨.here, [deepName]⟩ = .ok [] := by decide +kernel
  refine ⟨hup, hdirectory, hload, hread, ?_, by decide +kernel, deeperTree_page_disagrees⟩
  have h := FileTree.hasDirectory_of_isDirectory hup hdirectory
  have hclear : Source.obstacle? 987 deepTree [] (.ofLocation deepDirectory) = none ∧
      Source.obstacle? 987 deepTree deepDirectory ⟨.here, []⟩ = none := by decide +kernel
  have hfind : Source.find 987 deepTree deepDirectory [] ⟨.here, []⟩ =
      .ok [⟨.here, [deepName]⟩] := by
    have hnamed : (Source.below deepTree deepDirectory).filter Source.isNamed = [[deepName]] := by
      decide +kernel
    rw [Source.find_nil h.lookup_here hclear.2, Source.allBelow_here, Source.namedBelow, hnamed,
      List.mergeSort_singleton]
    rfl
  have hlong : deepTree.readText [] (.ofLocation (deepDirectory ++ [deepName])) =
      .error (.file ⟨.nameTooLong, .ofLocation (deepDirectory ++ [deepName])⟩) := by
    decide +kernel
  have hpage : Page.ofDirectory Yaml.read 987 deepTree [] (.ofLocation deepDirectory) =
      ((checkSettings Yaml.read deepTree deepDirectory none).bind fun settings ↦
        ((Source.find 987 deepTree deepDirectory settings.exclude ⟨.here, []⟩).mapError
          .crash).map fun found ↦ Page.render (.ofLocation deepDirectory) (found.map fun p ↦
            Source.report deepTree [] settings ((Path.ofLocation deepDirectory).join p))) :=
    ofDirectory_eq .standard h [] (hclear.1.trans hclear.2.symm)
  rw [hload] at hpage
  dsimp only [Except.bind] at hpage
  rw [hfind] at hpage
  intro hagrees
  obtain ⟨settings, found, hsettings, hstands, -, hshows⟩ := hagrees.success _ hpage
  obtain rfl := Except.ok.inj (hload.symm.trans hsettings)
  obtain rfl := Except.ok.inj (hfind.symm.trans hstands.find_eq)
  rw [Page.sections_render] at hshows
  obtain ⟨hshown, -⟩ := List.forall₂_cons.mp hshows
  have hsays := Page.texts_of_error {} (.ofLocation deepDirectory) hlong
  obtain ⟨fault, hfault⟩ := hshown.unreadable.mp ⟨_, hsays ▸ List.mem_singleton_self _⟩
  cases hread.symm.trans hfault

end Command

end Lilac
