import Lilac.Proofs.Exclusions
import Lilac.Proofs.Verdicts

/-!
# Checks of workspaces

The exclusions of a workspace are relative to whatever directory is named in a check, not to the
workspace. So a check of one of its directories looks at the sources there that a check of the
workspace looks at exactly if, for each of them, the two readings of the exclusions come to the
same.

A search goes by names alone. So it finds nothing but files exactly if no directory is called like a
source, and only then does a check of clean files end well.

About `find_sources` and `_cmd_check`. Specification: `SPEC_FULL.md`, on configuration.
-/

namespace Lilac

namespace Source

open FileTree

variable {depth : Nat} {tree : FileTree} {here l : Location} {p : Path}

/-! ## Directories in a workspace -/

private theorem Enterable.map_resolve_find (h : Enterable tree here p) {exclude : List Text}
    {found : List Path} (hfound : find depth tree here exclude p = .ok found) :
    found.map (·.resolve here) =
      ((namedBelow tree (p.resolve here)).map (p.resolve here ++ ·)).filter fun m ↦
        ¬IsExcluded (p.resolve here) exclude m := by
  have hall : (allBelow tree here p).map (·.resolve here) =
      (namedBelow tree (p.resolve here)).map (p.resolve here ++ ·) := by
    rw [h.allBelow_eq, List.map_map]
    refine List.map_congr_left fun parts hparts ↦ ?_
    exact h.resolve_append ((mem_namedBelow_iff h.wellFormed).mp hparts).2.1
  rw [h.eq_of_find hfound, ← hall, List.filter_map]
  rfl

private theorem isNamed_append {a b : List Text} (hb : b ≠ []) : isNamed (a ++ b) = isNamed b := by
  rw [isNamed, isNamed, List.getLast?_append_of_ne_nil a hb]

/-- The sources below a directory in a workspace are those of the workspace below it, in the same
order. -/
theorem filter_namedBelow (h : tree.WellFormed) (l d : Location) :
    ((namedBelow tree l).map (l ++ ·)).filter (fun m ↦ l ++ d <+: m ∧ l ++ d ≠ m) =
      (namedBelow tree (l ++ d)).map (l ++ d ++ ·) := by
  have hordered : ∀ l, ((namedBelow tree l).map (l ++ ·)).Pairwise Location.Before := by
    intro l
    rw [List.pairwise_map]
    exact (pairwise_namedBelow h l).imp fun hbefore ↦ hbefore.append_left l
  refine Location.eq_of_pairwise_before ((hordered l).filter _) (hordered (l ++ d)) fun m ↦ ?_
  simp only [List.mem_filter, List.mem_map, mem_namedBelow_iff h, decide_eq_true_eq]
  constructor
  · rintro ⟨⟨parts, ⟨-, hentry, hnamed⟩, rfl⟩, ⟨rest, hrest⟩, hne⟩
    have hparts : parts = d ++ rest := by
      rw [List.append_assoc] at hrest
      exact (List.append_cancel_left hrest).symm
    have hmore : rest ≠ [] := by
      rintro rfl
      exact hne (by rw [hparts, List.append_nil])
    rw [← hrest] at hentry
    rw [hparts, isNamed_append hmore] at hnamed
    exact ⟨rest, ⟨hmore, hentry, hnamed⟩, hrest⟩
  · rintro ⟨rest, ⟨hrest, hentry, hnamed⟩, rfl⟩
    refine ⟨⟨d ++ rest, ⟨by simp [hrest], ?_, ?_⟩, by rw [List.append_assoc]⟩, ?_, by simp [hrest]⟩
    · rwa [← List.append_assoc]
    · rwa [isNamed_append hrest]
    · exact List.prefix_append _ _

end Source

namespace Command

open Source

variable {platform : Platform} {tree : FileTree} {here l : Location}

/-- A check looks at files, in this order, and reports on them. -/
def LooksAt (platform : Platform) (tree : FileTree) (here : Location)
    (config : Option (Given Text)) (paths : List Text) (files : List Location) : Prop :=
  ∃ settings sources, checkSettings platform.readYaml tree here config = .ok settings ∧
    findAll platform.searchDepth tree here settings.exclude (paths.map .ofText) = .ok sources ∧
    runCheck platform tree here config paths =
      checkReports (sources.map (report tree here settings)) ∧
    files = sources.map (·.resolve here)

/-- What a check of one directory looks at. -/
theorem exists_looksAt (platform : Platform) {config : Option (Given Text)} {settings : Settings}
    {path : Text} (h : Searchable platform.searchDepth tree here (.ofText path))
    (hsettings : checkSettings platform.readYaml tree here config = .ok settings)
    (hnull : ∀ name ∈ settings.exclude, '\x00' ∉ name) :
    LooksAt platform tree here config [path]
      (((namedBelow tree ((Path.ofText path).resolve here)).map
        ((Path.ofText path).resolve here ++ ·)).filter fun m ↦
          ¬IsExcluded ((Path.ofText path).resolve here) settings.exclude m) := by
  have hfind := h.find_eq_ok h.reachable hnull
  have hall := findAll_eq_ok_iff.mpr
    ⟨[_], .cons ⟨h.has_eq, hfind⟩ .nil, List.flatten_singleton.symm⟩
  refine ⟨settings, _, hsettings, hall, ?_, (h.map_resolve_find hfind).symm⟩
  rw [runCheck_of_settings hsettings, checkPaths, List.map_singleton, hall]

/-- A check of a directory in a workspace looks at those files in it that a check of the workspace
looks at exactly if the exclusions leave out the same sources of the directory, whether they are
relative to the directory or to the workspace. -/
theorem directory_check_agrees_iff (platform : Platform) (tree : FileTree) (l d : Location)
    (path : Text) (settings : Settings)
    (hworkspace : Searchable platform.searchDepth tree l (.ofText ['.']))
    (hdirectory : Searchable platform.searchDepth tree l (.ofText path))
    (hpath : (Path.ofText path).resolve l = l ++ d)
    (hsettings : checkSettings platform.readYaml tree l none = .ok settings)
    (hnull : ∀ name ∈ settings.exclude, '\x00' ∉ name) :
    ∃ files inside, LooksAt platform tree l none [['.']] files ∧
      LooksAt platform tree l none [path] inside ∧
      (inside = files.filter (fun m ↦ l ++ d <+: m ∧ l ++ d ≠ m) ↔
        ∀ rest ∈ namedBelow tree (l ++ d),
          (IsExcluded (l ++ d) settings.exclude (l ++ d ++ rest) ↔
            IsExcluded l settings.exclude (l ++ d ++ rest))) := by
  have hfiles := exists_looksAt platform hworkspace hsettings hnull
  have hinside := exists_looksAt platform hdirectory hsettings hnull
  have hdot : (Path.ofText ['.']).resolve l = l := rfl
  rw [hdot] at hfiles
  rw [hpath] at hinside
  refine ⟨_, _, hfiles, hinside, ?_⟩
  rw [List.filter_comm, filter_namedBelow hworkspace.wellFormed]
  constructor
  · intro heq rest hrest
    have hmem := congrArg (l ++ d ++ rest ∈ ·) heq
    simpa [List.mem_filter, hrest, not_iff_not] using hmem
  · intro hsame
    refine List.filter_congr fun m hm ↦ ?_
    obtain ⟨rest, hrest, rfl⟩ := List.mem_map.mp hm
    rw [Bool.eq_iff_iff, decide_eq_true_eq, decide_eq_true_eq, hsame rest hrest]

/-- A workspace that excludes a directory by its absolute path, with a source in there and one next
to it. -/
def anchoredWorkspace : FileTree :=
  ⟨[(["w".toList], .directory),
    (["w".toList, ".lilac.yaml".toList], .file "exclude: [/w/sub/gen]".toUTF8.toList),
    (["w".toList, "sub".toList], .directory),
    (["w".toList, "sub".toList, "y.lilac".toList], .file []),
    (["w".toList, "sub".toList, "gen".toList], .directory),
    (["w".toList, "sub".toList, "gen".toList, "x.lilac".toList], .file [])]⟩

theorem anchoredWorkspace_checks_agree :
    Searchable 987 anchoredWorkspace ["w".toList] (.ofText "sub/gen/..".toList) ∧
      ∃ files inside, LooksAt .standard anchoredWorkspace ["w".toList] none [['.']] files ∧
        LooksAt .standard anchoredWorkspace ["w".toList] none ["sub/gen/..".toList] inside ∧
        inside = files.filter fun m ↦
          ["w".toList, "sub".toList] <+: m ∧ ["w".toList, "sub".toList] ≠ m := by
  have hdirectory : Searchable 987 anchoredWorkspace ["w".toList] (.ofText "sub/gen/..".toList) :=
    ⟨⟨by decide, by decide, by decide⟩, by decide⟩
  refine ⟨hdirectory, ?_⟩
  obtain ⟨files, inside, hfiles, hinside, hagree⟩ :=
    directory_check_agrees_iff .standard anchoredWorkspace ["w".toList] ["sub".toList]
      "sub/gen/..".toList ⟨1000, ["/w/sub/gen".toList]⟩
      ⟨⟨by decide, by decide, by decide⟩, by decide⟩ hdirectory
      (by decide +kernel) (by decide +kernel) (by decide)
  refine ⟨files, inside, hfiles, hinside, hagree.mpr fun rest hrest ↦ ?_⟩
  rw [namedBelow, List.mem_mergeSort] at hrest
  have hall : ∀ rest ∈ (below anchoredWorkspace ["w".toList, "sub".toList]).filter isNamed,
      (IsExcluded ["w".toList, "sub".toList] ["/w/sub/gen".toList]
          (["w".toList, "sub".toList] ++ rest) ↔
        IsExcluded ["w".toList] ["/w/sub/gen".toList] (["w".toList, "sub".toList] ++ rest)) := by
    decide
  exact hall rest hrest

/-- A workspace that excludes the directory `gen` of its directory `sub`, with a source in there. -/
def nestedWorkspace : FileTree :=
  ⟨[(["w".toList], .directory),
    (["w".toList, ".lilac.yaml".toList], .file "exclude: [sub/gen]".toUTF8.toList),
    (["w".toList, "sub".toList], .directory),
    (["w".toList, "sub".toList, "gen".toList], .directory),
    (["w".toList, "sub".toList, "gen".toList, "x.lilac".toList], .file [])]⟩

/-- A check of the workspace looks at nothing, and a check of its directory `sub` at the source that
is excluded. -/
theorem nestedWorkspace_checks :
    LooksAt .standard nestedWorkspace ["w".toList] none [['.']] [] ∧
      LooksAt .standard nestedWorkspace ["w".toList] none ["sub".toList]
        [["w".toList, "sub".toList, "gen".toList, "x.lilac".toList]] := by
  have hworkspace : Searchable 987 nestedWorkspace ["w".toList] (.ofText ['.']) :=
    ⟨⟨by decide, by decide, by decide⟩, by decide⟩
  have hdirectory : Searchable 987 nestedWorkspace ["w".toList] (.ofText "sub".toList) :=
    ⟨⟨by decide, by decide, by decide⟩, by decide⟩
  have hsettings : checkSettings Yaml.read nestedWorkspace ["w".toList] none =
      .ok ⟨1000, ["sub/gen".toList]⟩ := by decide +kernel
  have hnull : ∀ name ∈ ["sub/gen".toList], '\x00' ∉ name := by decide
  have hnamed : (below nestedWorkspace ["w".toList]).filter isNamed =
      [["sub".toList, "gen".toList, "x.lilac".toList]] := by decide
  have hnamed' : (below nestedWorkspace ["w".toList, "sub".toList]).filter isNamed =
      [["gen".toList, "x.lilac".toList]] := by decide
  constructor
  · have hfiles := exists_looksAt .standard hworkspace hsettings hnull
    change LooksAt _ _ _ _ _ (((namedBelow nestedWorkspace ["w".toList]).map
      (["w".toList] ++ ·)).filter _) at hfiles
    rw [namedBelow, hnamed, List.mergeSort_singleton] at hfiles
    exact hfiles
  · have hinside := exists_looksAt .standard hdirectory hsettings hnull
    change LooksAt _ _ _ _ _ (((namedBelow nestedWorkspace ["w".toList, "sub".toList]).map
      (["w".toList, "sub".toList] ++ ·)).filter _) at hinside
    rw [namedBelow, hnamed', List.mergeSort_singleton] at hinside
    exact hinside

end Command

/-! ## Directories called like sources -/

namespace Source

open FileTree

variable {depth : Nat} {tree : FileTree} {here : Location} {p : Path} {exclude : List Text}

/-- A directory is found by a search, because it is called like a source. -/
def IsMisnamed (tree : FileTree) (l : Location) (exclude : List Text) (m : Location) : Prop :=
  ∃ parts ≠ [], m = l ++ parts ∧ isNamed parts ∧ tree.entry? m = some .directory ∧
    ¬IsExcluded l exclude m

namespace Enterable

/-- What is below the directory is at the end of its path, unless that is too long. -/
theorem locate_append (h : Enterable tree here p) {parts : List Text}
    (hparts : (tree.entry? (p.resolve here ++ parts)).isSome)
    (hshort : (Path.mk p.anchor (p.parts ++ parts)).text.byteLength ≤ pathLimit) :
    tree.locate here ⟨p.anchor, p.parts ++ parts⟩ = .ok (p.resolve here ++ parts) := by
  rw [locate, if_neg (Nat.not_lt.mpr hshort)]
  change tree.walk (p.start here) (p.parts ++ parts) = _
  rw [walk_append, (of_locate h.locate_eq).2]
  exact h.wellFormed.walk_eq hparts

/-- A path below the directory leads to a file exactly if there is one. -/
theorem isFile_append (h : Enterable tree here p) {parts : List Text} {e : Entry}
    (hparts : tree.entry? (p.resolve here ++ parts) = some e)
    (hshort : (Path.mk p.anchor (p.parts ++ parts)).text.byteLength ≤ pathLimit) :
    tree.isFile here ⟨p.anchor, p.parts ++ parts⟩ = .ok (decide (e ≠ .directory)) := by
  have hlocate := h.locate_append (hparts ▸ rfl) hshort
  rw [isFile, lookup, h.wellFormed.hasNull_of_locate hlocate, hlocate]
  simp only [Bool.false_eq_true, if_false, entryAt, hparts, Option.getD_some]
  cases e with
  | directory => rfl
  | file bytes => rfl

private theorem readText_append (h : Enterable tree here p) {parts : List Text} {e : Entry}
    (hparts : tree.entry? (p.resolve here ++ parts) = some e)
    (hshort : (Path.mk p.anchor (p.parts ++ parts)).text.byteLength ≤ pathLimit) (t : Text) :
    tree.readText here ⟨p.anchor, p.parts ++ parts⟩ = .ok t ↔
      ∃ bytes x, e = .file bytes ∧ Utf8.decode bytes = .ok x ∧ t = x.unifyNewlines := by
  have hsome : (tree.entry? (p.resolve here ++ parts)).isSome := hparts ▸ rfl
  rw [readText, readBytes, h.locate_append hsome hshort]
  simp only [entryAt, hparts, Option.getD_some]
  cases e with
  | directory => simp
  | file bytes =>
    dsimp only
    cases hdecode : Utf8.decode bytes with
    | error fault => simp [hdecode]
    | ok x => simp [hdecode, eq_comm]

/-- What a search finds, by what is there. -/
theorem mem_found_iff (h : Enterable tree here p) {found : List Path}
    (hfound : find depth tree here exclude p = .ok found) {q : Path} :
    q ∈ found ↔ ∃ parts ≠ [], q = ⟨p.anchor, p.parts ++ parts⟩ ∧
      (tree.entry? (p.resolve here ++ parts)).isSome ∧ isNamed parts ∧
      ¬IsExcluded (p.resolve here) exclude (p.resolve here ++ parts) := by
  rw [h.eq_of_find hfound, List.mem_filter, h.mem_allBelow_iff, decide_eq_true_eq]
  constructor
  · rintro ⟨⟨parts, hparts, rfl, hentry, hnamed⟩, hkept⟩
    rw [h.resolve_append hentry] at hkept
    exact ⟨parts, hparts, rfl, hentry, hnamed, hkept⟩
  · rintro ⟨parts, hparts, rfl, hentry, hnamed, hkept⟩
    rw [h.resolve_append hentry]
    exact ⟨⟨parts, hparts, rfl, hentry, hnamed⟩, hkept⟩

/-- A search finds nothing but files exactly if it finds no directory. -/
theorem forall_isFile_iff (h : Enterable tree here p)
    (hshort : ∀ parts ∈ below tree (p.resolve here),
      (Path.mk p.anchor (p.parts ++ parts)).text.byteLength ≤ pathLimit)
    {found : List Path} (hfound : find depth tree here exclude p = .ok found) :
    (∀ q ∈ found, tree.isFile here q = .ok true) ↔
      ∀ m, ¬IsMisnamed tree (p.resolve here) exclude m := by
  constructor
  · rintro hfiles m ⟨parts, hparts, rfl, hnamed, hentry, hkept⟩
    have hsome : (tree.entry? (p.resolve here ++ parts)).isSome := hentry ▸ rfl
    have hfile := hfiles _ ((h.mem_found_iff hfound).mpr ⟨parts, hparts, rfl, hsome, hnamed, hkept⟩)
    rw [h.isFile_append hentry (hshort parts ((mem_below_iff h.wellFormed).mpr ⟨hparts, hsome⟩))]
      at hfile
    exact absurd hfile (by decide)
  · intro hnone q hq
    obtain ⟨parts, hparts, rfl, hsome, hnamed, hkept⟩ := (h.mem_found_iff hfound).mp hq
    obtain ⟨e, he⟩ := Option.isSome_iff_exists.mp hsome
    have hfile : e ≠ .directory := by
      rintro rfl
      exact hnone _ ⟨parts, hparts, rfl, hnamed, he, hkept⟩
    rw [h.isFile_append he (hshort parts ((mem_below_iff h.wellFormed).mpr ⟨hparts, hsome⟩))]
    simp [hfile]

end Enterable

end Source

namespace Command

open Source FileTree

variable {platform : Platform} {tree : FileTree} {here : Location}

/-- The sources below a directory that are files, and not excluded, are texts without problems. -/
def IsClean (tree : FileTree) (l : Location) (settings : Settings) : Prop :=
  ∀ parts bytes, tree.entry? (l ++ parts) = some (.file bytes) → isNamed parts →
    ¬IsExcluded l settings.exclude (l ++ parts) →
    ∃ x, Utf8.decode bytes = .ok x ∧
      (Document.parse x.unifyNewlines).check settings.limit = []

/-- A check of a directory with clean files ends well exactly if it finds no directory. -/
theorem runCheck_exit_zero_iff {config : Option (Given Text)} {settings : Settings} {path : Text}
    (h : Searchable platform.searchDepth tree here (.ofText path))
    (hshort : ∀ parts ∈ below tree ((Path.ofText path).resolve here),
      (Path.mk (Path.ofText path).anchor ((Path.ofText path).parts ++ parts)).text.byteLength ≤
        pathLimit)
    (hsettings : checkSettings platform.readYaml tree here config = .ok settings)
    {found : List Path}
    (hfound : find platform.searchDepth tree here settings.exclude (.ofText path) = .ok found)
    (hclean : IsClean tree ((Path.ofText path).resolve here) settings) :
    (runCheck platform tree here config [path]).ending = .exit 0 ↔
      ∀ m, ¬IsMisnamed tree ((Path.ofText path).resolve here) settings.exclude m := by
  have hlines : (runCheck platform tree here config [path]).ending = .exit 0 ↔
      ∀ q ∈ found, ∃ t, tree.readText here q = .ok t ∧
        (Document.parse t).check settings.limit = [] := by
    rw [runCheck_of_settings hsettings]
    simp only [checkPaths_exit_zero_iff, linesAbout_eq_nil_iff, List.forall_mem_singleton]
    constructor
    · rintro ⟨found', hstands, hall⟩
      obtain rfl := Except.ok.inj (hfound.symm.trans hstands.find_eq)
      exact hall
    · exact fun hall ↦ ⟨found, ⟨h.has_eq, hfound⟩, hall⟩
  rw [hlines, ← h.forall_isFile_iff hshort hfound]
  refine forall₂_congr fun q hq ↦ ?_
  obtain ⟨parts, hparts, rfl, hsome, hnamed, hkept⟩ := (h.mem_found_iff hfound).mp hq
  obtain ⟨e, he⟩ := Option.isSome_iff_exists.mp hsome
  have hlength := hshort parts ((mem_below_iff h.wellFormed).mpr ⟨hparts, hsome⟩)
  simp only [h.readText_append he hlength, h.isFile_append he hlength]
  cases e with
  | directory => simp
  | file bytes =>
    obtain ⟨x, hdecode, hcheck⟩ := hclean parts bytes he hnamed hkept
    exact ⟨fun _ ↦ rfl, fun _ ↦ ⟨_, ⟨bytes, x, rfl, hdecode, rfl⟩, hcheck⟩⟩

/-- A search of a directory finds what is called like a source. It finds nothing but files exactly
if no directory that is not excluded is called so, and exactly then does a check of clean files end
well. -/
theorem search_finds_files_iff (platform : Platform) (tree : FileTree) (here : Location)
    (path : Text) (exclude : List Text)
    (h : Searchable platform.searchDepth tree here (.ofText path))
    (hshort : ∀ parts ∈ below tree ((Path.ofText path).resolve here),
      (Path.mk (Path.ofText path).anchor ((Path.ofText path).parts ++ parts)).text.byteLength ≤
        pathLimit)
    (hnull : ∀ name ∈ exclude, '\x00' ∉ name) :
    ∃ found, find platform.searchDepth tree here exclude (.ofText path) = .ok found ∧
      (∀ q ∈ found, ∃ name ∈ q.parts.getLast?, suffix <:+ name) ∧
      ((∀ q ∈ found, tree.isFile here q = .ok true) ↔
        ∀ m, ¬IsMisnamed tree ((Path.ofText path).resolve here) exclude m) ∧
      ∀ config settings, checkSettings platform.readYaml tree here config = .ok settings →
        settings.exclude = exclude → IsClean tree ((Path.ofText path).resolve here) settings →
        ((runCheck platform tree here config [path]).ending = .exit 0 ↔
          ∀ m, ¬IsMisnamed tree ((Path.ofText path).resolve here) exclude m) := by
  have hfound := h.find_eq_ok h.reachable hnull
  refine ⟨_, hfound, ?_, h.forall_isFile_iff hshort hfound, ?_⟩
  · intro q hq
    obtain ⟨parts, hparts, rfl, -, hnamed, -⟩ := (h.mem_found_iff hfound).mp hq
    rw [isNamed, Option.any_eq_true] at hnamed
    obtain ⟨name, hlast, hsuffix⟩ := hnamed
    rw [List.getLast?_append_of_ne_nil _ hparts]
    exact ⟨name, hlast, List.isSuffixOf_iff_suffix.mp hsuffix⟩
  · rintro config settings hsettings rfl hclean
    exact runCheck_exit_zero_iff h hshort hsettings hfound hclean

/-- A workspace with a directory that is called like a source, in a directory that is excluded. -/
def hiddenWorkspace : FileTree :=
  ⟨[(["w".toList], .directory),
    (["w".toList, ".lilac.yaml".toList], .file "exclude: [old]".toUTF8.toList),
    (["w".toList, "a.lilac".toList], .file []),
    (["w".toList, "old".toList], .directory),
    (["w".toList, "old".toList, "d.lilac".toList], .directory)]⟩

theorem hiddenWorkspace_search :
    Searchable 987 hiddenWorkspace ["w".toList] (.ofText ['.']) ∧
      ∃ found, find 987 hiddenWorkspace ["w".toList] ["old".toList] (.ofText ['.']) = .ok found ∧
        (∀ q ∈ found, hiddenWorkspace.isFile ["w".toList] q = .ok true) ∧
        (runCheck .standard hiddenWorkspace ["w".toList] none [['.']]).ending = .exit 0 := by
  have h : Searchable 987 hiddenWorkspace ["w".toList] (.ofText ['.']) :=
    ⟨⟨by decide, by decide, by decide⟩, by decide⟩
  have hsettings : checkSettings Yaml.read hiddenWorkspace ["w".toList] none =
      .ok ⟨1000, ["old".toList]⟩ := by decide +kernel
  have hnone : ∀ m, ¬IsMisnamed hiddenWorkspace ["w".toList] ["old".toList] m := by
    have hall : ∀ x ∈ hiddenWorkspace.entries, isNamed (x.1.drop 1) → x.2 = .directory →
        IsExcluded ["w".toList] ["old".toList] x.1 := by decide
    rintro m ⟨parts, -, rfl, hnamed, hentry, hkept⟩
    exact hkept (hall _ (mem_of_entry_eq (List.cons_ne_nil _ _) hentry) hnamed rfl)
  have hclean : IsClean hiddenWorkspace ["w".toList] ⟨1000, ["old".toList]⟩ := by
    have hall : ∀ x ∈ hiddenWorkspace.entries, isNamed (x.1.drop 1) →
        x.2 = .directory ∨ x.2 = .file [] := by decide
    intro parts bytes hentry hnamed _
    rcases hall _ (mem_of_entry_eq (List.cons_ne_nil _ _) hentry) hnamed with hdir | hfile
    · cases hdir
    · cases hfile
      exact ⟨[], rfl, (Document.check_eq_nil_iff (by decide)).mpr (by decide)⟩
  refine ⟨h, ?_⟩
  obtain ⟨found, hfound, -, hfiles, hexit⟩ :=
    search_finds_files_iff .standard hiddenWorkspace ["w".toList] ['.'] ["old".toList] h
      (by decide) (by decide)
  exact ⟨found, hfound, hfiles.mpr hnone, (hexit none _ hsettings rfl hclean).mpr hnone⟩

/-- A workspace with nothing but a directory that is called like a source. -/
def misnamedWorkspace : FileTree :=
  ⟨[(["w".toList], .directory), (["w".toList, "d.lilac".toList], .directory)]⟩

/-- A search finds the directory, and a check cannot read it. -/
theorem misnamedWorkspace_search :
    misnamedWorkspace.WellFormed ∧
      find 987 misnamedWorkspace ["w".toList] [] (.ofText ['.']) =
        .ok [⟨.here, ["d.lilac".toList]⟩] ∧
      misnamedWorkspace.isFile ["w".toList] ⟨.here, ["d.lilac".toList]⟩ = .ok false ∧
      (runCheck .standard misnamedWorkspace ["w".toList] none [['.']]).err =
        ["Error: cannot read 'd.lilac': [Errno 21] Is a directory: 'd.lilac'"] ∧
      (runCheck .standard misnamedWorkspace ["w".toList] none [['.']]).ending = .exit 1 := by
  have hfind : find 987 misnamedWorkspace ["w".toList] [] (.ofText ['.']) =
      .ok [⟨.here, ["d.lilac".toList]⟩] := by
    have hnamed : (below misnamedWorkspace ["w".toList]).filter isNamed =
        [["d.lilac".toList]] := by decide
    rw [find_nil (by decide) (by decide)]
    change Except.ok ((namedBelow misnamedWorkspace ["w".toList]).map (Path.mk .here)) = _
    rw [namedBelow, hnamed, List.mergeSort_singleton]
    rfl
  have hsettings : checkSettings Yaml.read misnamedWorkspace ["w".toList] none = .ok {} := by
    decide
  have hstands : StandsFor 987 misnamedWorkspace ["w".toList] [] (.ofText ['.'])
      [⟨.here, ["d.lilac".toList]⟩] := ⟨by decide, hfind⟩
  have hpaths : List.Forall₂ (StandsFor 987 misnamedWorkspace ["w".toList] ({} : Settings).exclude)
      ([['.']].map .ofText) [[⟨.here, ["d.lilac".toList]⟩]] := .cons hstands .nil
  obtain ⟨herr, hending⟩ := checkPaths_of_standsFor hpaths
  have hrun : runCheck .standard misnamedWorkspace ["w".toList] none [['.']] =
      checkPaths 987 misnamedWorkspace ["w".toList] {} [['.']] := runCheck_of_settings hsettings _
  rw [hrun, herr, hending]
  exact ⟨by decide, hfind, by decide, by decide, by decide⟩

end Command

end Lilac
