import DocTags.Proofs.Run.Write

/-!
The stages of a run, each as a function of the arguments and the tree alone: what the search finds,
what the sources say, and what is wrong with them. A run is put together from them.
-/

namespace DocTags

theorem Docs.concat_eq (ds : List Docs) :
    concat ds = ⟨ds.flatMap (·.endpoints), ds.flatMap (·.models), ds.flatMap (·.diagnostics)⟩ := by
  induction ds with
  | nil => rfl
  | cons d ds ih => exact congrArg d.append ih

namespace Run

variable (a : Arguments) (t : FileTree)

/-! ### The search -/

def scanFault? (dir : Text) : Option ScanFault :=
  match search a t dir with
  | .ok _ => none
  | .error fault => some fault

/-- What there is to find in a directory; nothing where it can not be searched. -/
def found (dir : Text) : Scan.Found :=
  match search a t dir with
  | .ok found => found
  | .error _ => .empty

/-- The source files of a run, each once. -/
def files : List Text :=
  distinct [] (a.directories.flatMap fun dir => (found a t dir).files)

/-- What the search tells of the directories that it leaves out. -/
def scanned : List Diagnostic :=
  a.directories.flatMap fun dir => scanDiagnostics dir (found a t dir)

theorem sourcesIn_eq (dir : Text) :
    sourcesIn a t dir =
      match scanFault? a t dir with
      | some fault => .error (.scan fault)
      | none => .ok ⟨(found a t dir).files, scanDiagnostics dir (found a t dir)⟩ := by
  unfold sourcesIn scanFault? found
  cases search a t dir <;> rfl

/-- The search of several directories ends at the first one that can not be searched. -/
theorem mapM_sourcesIn (dirs : List Text) :
    dirs.mapM (sourcesIn a t) =
      match dirs.findSome? (scanFault? a t) with
      | some fault => .error (.scan fault)
      | none => .ok (dirs.map fun dir =>
          ⟨(found a t dir).files, scanDiagnostics dir (found a t dir)⟩) := by
  induction dirs with
  | nil => rfl
  | cons dir dirs ih =>
      rw [List.mapM_cons, ih, List.findSome?_cons, sourcesIn_eq]
      cases scanFault? a t dir with
      | some fault => rfl
      | none => cases dirs.findSome? (scanFault? a t) <;> rfl

theorem distinct_nil_eq_nil_iff (ps : List Text) : distinct [] ps = [] ↔ ps = [] := by
  cases ps <;> simp [distinct]

theorem files_eq_nil_iff :
    files a t = [] ↔ ∀ dir ∈ a.directories, (found a t dir).files = [] := by
  rw [files, distinct_nil_eq_nil_iff, List.flatMap_eq_nil_iff]

theorem sources_eq :
    sources a t =
      match a.directories.findSome? (scanFault? a t) with
      | some fault => .error (.scan fault)
      | none => if files a t = [] then .error .noSources else .ok ⟨files a t, scanned a t⟩ := by
  rw [sources, mapM_sourcesIn]
  cases a.directories.findSome? (scanFault? a t) with
  | some fault => rfl
  | none =>
      simp only [bind, Except.bind, List.flatMap_map, List.isEmpty_iff]
      rfl

/-! ### The sources -/

/-- What keeps a run from reading sources. -/
def sourceFault? : Option RunFault :=
  match grammar a t with
  | .error fault => some fault
  | .ok _ =>
    match a.directories.findSome? (scanFault? a t) with
    | some fault => some (.scan fault)
    | none => if files a t = [] then some .noSources else none

/-- What the sources say, and what is wrong with them. -/
def parsed : Docs :=
  match grammar a t with
  | .ok g => Docs.ofFiles g t (files a t)
  | .error _ => .empty

/-- What the sources say, behind what the search tells. -/
def collected : Docs :=
  { parsed a t with diagnostics := scanned a t ++ (parsed a t).diagnostics }

theorem docs_eq :
    docs a t =
      match sourceFault? a t with
      | some fault => .error fault
      | none => .ok (collected a t) := by
  unfold docs collected parsed sourceFault?
  rw [sources_eq]
  cases grammar a t with
  | error fault => rfl
  | ok g =>
      cases a.directories.findSome? (scanFault? a t) with
      | some fault => rfl
      | none =>
          simp only [bind, Except.bind]
          split_ifs <;> rfl

/-! ### The document -/

/-- All that a run has to tell: of the search, of the sources, and of operations that hide others. -/
def diagnostics : List Diagnostic :=
  scanned a t ++ (parsed a t).diagnostics ++
    groupDiagnostics (PathGroup.ofEndpoints (parsed a t).endpoints)

theorem diagnostics_eq_nil_iff :
    diagnostics a t = [] ↔ scanned a t = [] ∧ (parsed a t).diagnostics = [] ∧
      PathGroup.duplicates (PathGroup.ofEndpoints (parsed a t).endpoints) = [] := by
  simp [diagnostics, groupDiagnostics]

def document : OpenApi.Document :=
  .build ⟨a.title, a.description, a.apiVersion⟩ a.servers
    (PathGroup.ofEndpoints (parsed a t).endpoints) (parsed a t).models

/-- The text of the document. -/
def content : Text :=
  (document a t).text a.format

/-- The log of a run that makes a document. -/
def fullLog : List LogEntry :=
  earlyLog a t ++ (diagnostics a t).map .ofDiagnostic ++
    (OpenApi.Document.repeatedModels [] (parsed a t).models).map .ofRepeatedModel

/-- What keeps a run from making a document. -/
def fault? : Option RunFault :=
  match sourceFault? a t with
  | some fault => some fault
  | none =>
    if (parsed a t).isEmpty then some .nothingParsed
    else if a.strict ∧ diagnostics a t ≠ [] then some (.strict (diagnostics a t).length)
    else none

theorem finish_collected (log : List LogEntry) :
    finish a t log (collected a t) =
      if (parsed a t).isEmpty then
        ⟨some .nothingParsed, log ++ (collected a t).diagnostics.map .ofDiagnostic, [], t⟩
      else if a.strict ∧ diagnostics a t ≠ [] then
        ⟨some (.strict (diagnostics a t).length), log ++ (diagnostics a t).map .ofDiagnostic, [], t⟩
      else
        deliver a t (log ++ (diagnostics a t).map .ofDiagnostic ++
          (OpenApi.Document.repeatedModels [] (parsed a t).models).map .ofRepeatedModel)
          (content a t) := by
  have hstrict : (a.strict && !(diagnostics a t).isEmpty) = true ↔
      a.strict ∧ diagnostics a t ≠ [] := by simp
  rw [← if_congr hstrict rfl rfl]
  rfl

variable {a t}

/-- A run that makes no document leaves everything as it was. -/
theorem run_of_fault?_eq_some {fault : RunFault} (h : fault? a t = some fault) :
    (run a t).fault = some fault ∧ (run a t).printed = [] ∧ (run a t).tree = t := by
  unfold fault? at h
  rw [run, docs_eq]
  cases hsources : sourceFault? a t with
  | some f =>
      rw [hsources] at h
      cases h
      exact ⟨rfl, rfl, rfl⟩
  | none =>
      rw [hsources] at h
      simp only [finish_collected]
      split_ifs at h with hempty hstrict
      · cases h
        rw [if_pos hempty]
        exact ⟨rfl, rfl, rfl⟩
      · cases h
        rw [if_neg hempty, if_pos hstrict]
        exact ⟨rfl, rfl, rfl⟩

theorem run_of_fault?_eq_none (h : fault? a t = none) :
    run a t = deliver a t (fullLog a t) (content a t) := by
  unfold fault? at h
  rw [run, docs_eq]
  cases hsources : sourceFault? a t with
  | some f =>
      rw [hsources] at h
      cases h
  | none =>
      rw [hsources] at h
      simp only [finish_collected]
      split_ifs at h with hempty hstrict
      rw [if_neg hempty, if_neg hstrict]
      rfl

/-- A run that succeeds has made a document. -/
theorem fault?_eq_none_of_fault (h : (run a t).fault = none) : fault? a t = none := by
  rw [Option.eq_none_iff_forall_ne_some]
  intro fault hfault
  rw [(run_of_fault?_eq_some hfault).1] at h
  cases h

theorem log_deliver (log : List LogEntry) (content : Text) :
    (deliver a t log content).log = log := by
  unfold deliver
  cases a.output <;> rfl

end Run
end DocTags
