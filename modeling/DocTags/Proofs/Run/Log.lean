import DocTags.Proofs.PathGroup.Duplicates
import DocTags.Proofs.Run.Outcome

/-!
The log of a run. While the directories are searched, the search tells of those that it leaves out.
After that there is one entry for each diagnostic, in the order of the stages and whichever way the
run ends. The models that a document loses come last, and only where there is a document.

A source file that can not be read has its entry among the diagnostics; the line that is printed
when the attempt to read it fails is no part of the log.
-/

namespace DocTags.Run

/-- The ways in which a run that has found a source can end. -/
inductive Ending where
  | nothingParsed
  | strict
  /-- The document is made, be it that it can not be written. -/
  | documentMade
  deriving DecidableEq

/-- What a run tells that ends in this way. -/
def Ending.Tells : Ending → Option RunFault → Prop
  | nothingParsed, fault => fault = some .nothingParsed
  | strict, fault => ∃ n, fault = some (.strict n)
  | documentMade, fault => fault = none ∨
      ∃ path, fault = some (.directoryNotMade path) ∨ fault = some (.fileNotWritten path)

/-- What is told of a source file: the problems of its text, or that it can not be read. -/
def sourceDiagnostics (g : Grammar) (t : FileTree) (path : Text) : List Diagnostic :=
  match t.readText path with
  | .ok source => (Docs.ofSource g path source).diagnostics
  | .error fault => [⟨path, .unreadable path fault⟩]

theorem diagnostics_ofFile (g : Grammar) (t : FileTree) (path : Text) :
    (Docs.ofFile g t path).diagnostics = sourceDiagnostics g t path := by
  unfold Docs.ofFile sourceDiagnostics
  cases t.readText path <;> rfl

variable {a : Arguments} {t : FileTree} {g : Grammar} {s : Sources}

/-! ### A run that finds a source -/

theorem of_sources_eq_ok (h : sources a t = .ok s) :
    a.directories.findSome? (scanFault? a t) = none ∧ files a t ≠ [] ∧
      s = ⟨files a t, scanned a t⟩ := by
  rw [sources_eq] at h
  cases hscan : a.directories.findSome? (scanFault? a t) with
  | some fault => simp [hscan] at h
  | none =>
      rw [hscan] at h
      dsimp only at h
      split_ifs at h with hfiles
      exact ⟨rfl, hfiles, (Except.ok.inj h).symm⟩

theorem sourceFault?_of_sources (hg : grammar a t = .ok g) (hs : sources a t = .ok s) :
    sourceFault? a t = none := by
  obtain ⟨hscan, hfiles, -⟩ := of_sources_eq_ok hs
  simp [sourceFault?, hg, hscan, hfiles]

theorem parsed_of_sources (hg : grammar a t = .ok g) (hs : sources a t = .ok s) :
    parsed a t =
      ⟨s.files.flatMap fun p => (Docs.ofFile g t p).endpoints,
        s.files.flatMap fun p => (Docs.ofFile g t p).models,
        s.files.flatMap (sourceDiagnostics g t)⟩ := by
  obtain ⟨-, -, rfl⟩ := of_sources_eq_ok hs
  simp [parsed, hg, Docs.ofFiles, Docs.concat_eq, List.flatMap_map, diagnostics_ofFile]

/-- The search of directories that can all be searched tells of those below them that can not. -/
theorem searchLog_eq {dirs : List Text} (h : dirs.findSome? (scanFault? a t) = none) :
    searchLog a t dirs = dirs.flatMap fun dir => (found a t dir).unlisted.map .ofUnlisted := by
  induction dirs with
  | nil => rfl
  | cons dir dirs ih =>
      rw [List.findSome?_eq_none_iff, List.forall_mem_cons] at h
      rw [searchLog, List.flatMap_cons, ih (List.findSome?_eq_none_iff.2 h.2)]
      have hdir := h.1
      unfold scanFault? at hdir
      unfold found
      cases hsearch : search a t dir with
      | ok f => rfl
      | error fault => simp [hsearch] at hdir

theorem earlyLog_of_sources (hg : grammar a t = .ok g) (hs : sources a t = .ok s) :
    earlyLog a t =
      a.directories.flatMap fun dir => (found a t dir).unlisted.map .ofUnlisted := by
  rw [earlyLog, hg]
  exact searchLog_eq (of_sources_eq_ok hs).1

/-! ### The ways to end -/

/-- Where nothing is parsed, no operation is documented twice. -/
theorem diagnostics_of_isEmpty (h : (parsed a t).isEmpty = true) :
    (collected a t).diagnostics = diagnostics a t := by
  have hendpoints : (parsed a t).endpoints = [] := by
    simp only [Docs.isEmpty, Bool.and_eq_true, List.isEmpty_iff] at h
    exact h.1
  simp [collected, diagnostics, hendpoints, PathGroup.ofEndpoints, groupDiagnostics,
    PathGroup.duplicates, OrderedMap.values]

theorem tells_documentMade (log : List LogEntry) :
    Ending.documentMade.Tells (deliver a t log (content a t)).fault := by
  rcases deliver_cases a t log with ⟨-, hfault, -⟩ | ⟨-, ⟨fault, hfault, path, -, hunwritten⟩, -⟩
  · exact .inl hfault
  · cases hunwritten with
    | @directory parent => exact .inr ⟨parent, .inl hfault⟩
    | file => exact .inr ⟨path, .inr hfault⟩

/-- Every diagnostic is logged on each of the ways to end, and nothing but the models that are lost
comes after them. -/
theorem exists_ending (h : sourceFault? a t = none) :
    ∃ ending : Ending, ending.Tells (run a t).fault ∧
      (ending = .nothingParsed ↔ (parsed a t).isEmpty = true) ∧
      (run a t).log = earlyLog a t ++ (diagnostics a t).map .ofDiagnostic ++
        if ending = .documentMade then
          (OpenApi.Document.repeatedModels [] (parsed a t).models).map .ofRepeatedModel
        else [] := by
  have hrun : run a t = finish a t (earlyLog a t) (collected a t) := by
    rw [run, docs_eq, h]
  rw [hrun, finish_collected]
  split_ifs with hempty hstrict
  · refine ⟨.nothingParsed, rfl, iff_of_true rfl hempty, ?_⟩
    rw [if_neg (by decide), List.append_nil, diagnostics_of_isEmpty hempty]
  · refine ⟨.strict, ⟨_, rfl⟩, iff_of_false (by decide) hempty, ?_⟩
    rw [if_neg (by decide), List.append_nil]
  · refine ⟨.documentMade, tells_documentMade _, iff_of_false (by decide) hempty, ?_⟩
    rw [log_deliver, if_pos rfl]

/-- A run that has found a source logs every diagnostic once. The entries of the search come first,
one for each directory that it leaves out. The diagnostics follow, those of the search in the order
of the directories, those of the sources in the order of the files, and one for each operation that
is documented more than once, of which there is none where nothing is parsed. Models that are lost
come last, where the document is made. -/
theorem diagnostics_logged_once (hg : grammar a t = .ok g) (hs : sources a t = .ok s) :
    let endpoints := s.files.flatMap fun p => (Docs.ofFile g t p).endpoints
    let models := s.files.flatMap fun p => (Docs.ofFile g t p).models
    let searched : List Diagnostic := a.directories.flatMap fun dir =>
      (found a t dir).unlisted.map fun u => ⟨dir, .unlisted u.path u.fault⟩
    ∃ (ending : Ending) (places : List (Text × Verb)),
      ending.Tells (run a t).fault ∧
      (ending = .nothingParsed ↔ endpoints = [] ∧ models = []) ∧
      places.Nodup ∧ (∀ q, q ∈ places ↔ 2 ≤ endpoints.countP fun e => e.place = q) ∧
      let repeated : List Diagnostic := places.map fun q => ⟨[], .duplicateOperation q.1 q.2.name⟩
      (run a t).log =
        (a.directories.flatMap fun dir => (found a t dir).unlisted.map .ofUnlisted) ++
        (searched ++ s.files.flatMap (sourceDiagnostics g t) ++ repeated).map
          (fun d => ⟨if d.isWarning then .warning else .error, d.message⟩) ++
        if ending = .documentMade then
          (OpenApi.Document.repeatedModels [] models).map .ofRepeatedModel
        else [] := by
  intro endpoints models searched
  have hparsed := parsed_of_sources hg hs
  obtain ⟨ending, htells, hempty, hlog⟩ := exists_ending (sourceFault?_of_sources hg hs)
  have hduplicates : groupDiagnostics (PathGroup.ofEndpoints endpoints) =
      (PathGroup.duplicatePlaces (PathGroup.ofEndpoints endpoints)).map fun q =>
        ⟨[], .duplicateOperation q.1 q.2.name⟩ := by
    rw [groupDiagnostics, PathGroup.duplicates_eq_map, List.map_map]
    rfl
  refine ⟨ending, PathGroup.duplicatePlaces (PathGroup.ofEndpoints endpoints), htells, ?_,
    PathGroup.nodup_duplicatePlaces endpoints, PathGroup.mem_duplicatePlaces_iff endpoints, ?_⟩
  · rw [hempty, hparsed, Docs.isEmpty, Bool.and_eq_true, List.isEmpty_iff, List.isEmpty_iff]
  · rw [hlog, earlyLog_of_sources hg hs, diagnostics, hparsed, hduplicates]
    rfl

/-! ### A run that can use nothing -/

def lonely : Text :=
  "##\n# @path [GET] /widgets\n".toList

/-- A directory with a file that is no text, a directory that may not be entered, and an endpoint
without a resource. -/
def brokenEntries : List (Text × Entry) :=
  [("bytes.rb".toList, .file ⟨#[0xFF]⟩), ("locked".toList, .sealed),
    ("lonely.rb".toList, .file (String.ofList lonely).toUTF8)]

def brokenTree : FileTree where
  root := .directory [("app".toList, .directory brokenEntries)]
  working := []

def brokenArguments : Arguments :=
  { Arguments.standard with controllers := ["app".toList], recursive := true }

def brokenSources : Sources where
  files := ["app/bytes.rb".toList, "app/lonely.rb".toList]
  diagnostics := [⟨"app".toList, .unlisted "app/locked".toList .denied⟩]

theorem search_brokenTree :
    search brokenArguments brokenTree "app".toList =
      .ok ⟨brokenSources.files, [⟨"app/locked".toList, .denied⟩]⟩ := by
  have hfind : brokenTree.find "app".toList = .ok (.directory brokenEntries) := rfl
  have hvisit : Scan.visitAll
      (.ofExtensions brokenArguments.sourceExtensions brokenArguments.recursive)
      "app".toList brokenEntries = ⟨brokenSources.files, [⟨"app/locked".toList, .denied⟩]⟩ := by
    decide
  have hfiles : brokenSources.files.mergeSort Path.le = brokenSources.files :=
    List.mergeSort_of_pairwise (by decide)
  rw [search, Scan.run, hfind]
  simp only [hvisit, Scan.Found.sort, hfiles, List.mergeSort_singleton]

theorem sources_brokenTree : sources brokenArguments brokenTree = .ok brokenSources := by
  have hdirectories : brokenArguments.directories = ["app".toList] := rfl
  rw [sources, hdirectories, List.mapM_cons, List.mapM_nil, sourcesIn, search_brokenTree]
  rfl

/-- Nothing can be parsed. The reasons are told once each: the directory, which the search has told
of before, the file that is no text, and the endpoint. -/
theorem diagnostics_logged_once_brokenTree :
    grammar brokenArguments brokenTree = .ok .standard ∧
      sources brokenArguments brokenTree = .ok brokenSources ∧
      (run brokenArguments brokenTree).fault = some .nothingParsed ∧
      (run brokenArguments brokenTree).log =
        LogEntry.ofUnlisted ⟨"app/locked".toList, .denied⟩ ::
          [⟨"app".toList, .unlisted "app/locked".toList .denied⟩,
            ⟨"app/bytes.rb".toList, .unreadable "app/bytes.rb".toList .notText⟩,
            ⟨"app/lonely.rb".toList, .missingResource 1⟩].map LogEntry.ofDiagnostic ∧
      (run brokenArguments brokenTree).log.map (·.level) =
        [.warning, .error, .error, .warning] := by
  have hgrammar : grammar brokenArguments brokenTree = .ok .standard := rfl
  have hbytes : brokenTree.readText "app/bytes.rb".toList = .error .notText := by decide
  have hlonely : brokenTree.readText "app/lonely.rb".toList = .ok lonely :=
    FileTree.readText_of_find rfl
  have hsource : Docs.ofSource .standard "app/lonely.rb".toList lonely =
      ⟨[], [], [⟨"app/lonely.rb".toList, .missingResource 1⟩]⟩ := by decide
  obtain ⟨ending, places, htells, hending, -, hplaces, hlog⟩ :=
    diagnostics_logged_once hgrammar sources_brokenTree
  have hdirectories : brokenArguments.directories = ["app".toList] := rfl
  simp only [brokenSources, hdirectories, List.flatMap_cons, List.flatMap_nil, Docs.ofFile,
    sourceDiagnostics, found, search_brokenTree, hbytes, hlonely, hsource] at hending hplaces hlog
  obtain rfl : ending = .nothingParsed := hending.2 (by decide)
  obtain rfl : places = [] := by
    refine List.eq_nil_iff_forall_not_mem.2 fun q hq => absurd ((hplaces q).1 hq) ?_
    simp [Docs.ofUnreadable, Docs.empty]
  refine ⟨hgrammar, sources_brokenTree, htells, hlog, ?_⟩
  rw [hlog]
  rfl

end DocTags.Run
