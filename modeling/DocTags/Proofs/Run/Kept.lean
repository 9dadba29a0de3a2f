import DocTags.Proofs.OpenApi.Kept
import DocTags.Proofs.Run.Strict

/-!
What a strict run keeps of what it has parsed: every operation, and of the models with one name the
last. A model that is replaced is no diagnostic; strict mode does not stop it, the log tells of it.
-/

namespace DocTags.Run

open OpenApi

variable {a : Arguments} {t : FileTree}

theorem searchLog_eq_nil {dirs : List Text} (h : ∀ dir ∈ dirs, (found a t dir).unlisted = []) :
    searchLog a t dirs = [] := by
  induction dirs with
  | nil => rfl
  | cons dir dirs ih =>
      rw [List.forall_mem_cons] at h
      have hdir := h.1
      unfold found at hdir
      rw [searchLog, ih h.2]
      cases hsearch : search a t dir with
      | error fault => rfl
      | ok f =>
          rw [hsearch] at hdir
          simp [hdir]

theorem earlyLog_eq_nil (h : scanned a t = []) : earlyLog a t = [] := by
  have hunlisted : ∀ dir ∈ a.directories, (found a t dir).unlisted = [] := by
    simpa [scanned, scanDiagnostics] using h
  unfold earlyLog
  rw [searchLog_eq_nil hunlisted]
  cases grammar a t <;> rfl

theorem diagnostics_eq_nil (hstrict : a.strict = true) (h : (run a t).fault = none) :
    diagnostics a t = [] :=
  fault_eq_none_iff.1 h .problemsAllowed hstrict

/-- The log of a strict run that succeeds tells of nothing but models that are replaced. -/
theorem log_run (hstrict : a.strict = true) (h : (run a t).fault = none) :
    (run a t).log =
      (Document.repeatedModels [] (parsed a t).models).map .ofRepeatedModel := by
  have hnone := diagnostics_eq_nil hstrict h
  rw [run_of_fault?_eq_none (fault?_eq_none_of_fault h), log_deliver, fullLog, hnone,
    earlyLog_eq_nil ((diagnostics_eq_nil_iff a t).1 hnone).1]
  rfl

/-- A strict run that succeeds keeps every operation, and for each model that it does not keep there
is an entry in its log. -/
theorem strict_keeps (hstrict : a.strict = true) (h : (run a t).fault = none) :
    Delivered a t (run a t) ∧
      (∀ e ∈ (parsed a t).endpoints,
        (document a t).operation? e.documentPath e.operation.verb =
          some (Operation.ofEndpoint e.documentPath e)) ∧
      (document a t).operationCount = (parsed a t).endpoints.length ∧
      (∀ name, (document a t).schemas.get? name =
        ((parsed a t).models.findRev? fun m => m.name = name).map Schema.ofModelRecord) ∧
      ∃ replaced : List Text,
        (run a t).log = replaced.map .ofRepeatedModel ∧
        (∀ name, name ∈ replaced ↔ 2 ≤ (parsed a t).models.countP fun m => m.name = name) ∧
        (∀ m ∈ (parsed a t).models, m.name ∉ replaced →
          (document a t).schemas.get? m.name = some (Schema.ofModelRecord m)) ∧
        (parsed a t).models.length = (document a t).schemas.length + replaced.length := by
  obtain ⟨-, -, hnone⟩ := (diagnostics_eq_nil_iff a t).1 (diagnostics_eq_nil hstrict h)
  have hschema := Document.get?_modelSchemas (parsed a t).models
  have hreplaced := Document.mem_repeatedModels_iff (parsed a t).models
  refine ⟨(run_of_forall_holds (fault_eq_none_iff.1 h)).2, fun e he => ?_, ?_, hschema, _,
    log_run hstrict h, hreplaced, fun m hm honce => ?_,
    Document.length_eq_length_modelSchemas_add _⟩
  · have hlast := findRev?_of_countP_le_one (Document.countP_place_le_one hnone e.place) he (by simp)
    rw [document, Document.operation?_build]
    change ((parsed a t).endpoints.findRev? fun e' => e'.place = e.place).map _ = _
    rw [hlast, Option.map_some]
  · rw [document, Document.operationCount_build,
      eraseDups_of_nodup (Document.nodup_place_of_duplicates hnone), List.length_map]
  · have hcount := mt (hreplaced m.name).2 honce
    have hlast : ((parsed a t).models.findRev? fun m' => m'.name = m.name) = some m :=
      findRev?_of_countP_le_one (by omega) hm (by simp)
    exact (hschema m.name).trans (by rw [hlast, Option.map_some])

/-! ### Two models of one name -/

/-- A model with one property and no other words. -/
def modelOf (name property datatype : Text) : Model :=
  ⟨name, [], none, none, [⟨property, datatype, [], none, none, none⟩]⟩

def twoPets : Text :=
  "##\n# @model Pet\n# @property name [string]\n\n##\n# @model Pet\n# @property age [integer]\n".toList

def petTree : FileTree where
  root := .directory
    [("m".toList, .directory [("pets.rb".toList, .file (String.ofList twoPets).toUTF8)])]
  working := []

def petArguments : Arguments :=
  { Arguments.standard with models := ["m".toList], strict := true }

theorem search_petTree :
    search petArguments petTree "m".toList = .ok ⟨["m/pets.rb".toList], []⟩ := by
  have hfind : petTree.find "m".toList =
      .ok (.directory [("pets.rb".toList, .file (String.ofList twoPets).toUTF8)]) := rfl
  have hvisit : Scan.visitAll (.ofExtensions petArguments.sourceExtensions petArguments.recursive)
      "m".toList [("pets.rb".toList, .file (String.ofList twoPets).toUTF8)] =
        ⟨["m/pets.rb".toList], []⟩ := by decide
  rw [search, Scan.run, hfind]
  simp only [hvisit, Scan.Found.sort, List.mergeSort_singleton, List.mergeSort_nil]

theorem parsed_petTree :
    parsed petArguments petTree =
      ⟨[], [modelOf "Pet".toList "name".toList "string".toList,
        modelOf "Pet".toList "age".toList "integer".toList], []⟩ := by
  have hfiles : files petArguments petTree = ["m/pets.rb".toList] := by
    change distinct [] (["m".toList].flatMap fun dir => (found petArguments petTree dir).files) = _
    simp only [found, search_petTree, List.flatMap_cons, List.flatMap_nil, List.append_nil]
    rfl
  have hread : petTree.readText "m/pets.rb".toList = .ok twoPets := FileTree.readText_of_find rfl
  have hsource : Docs.ofSource .standard "m/pets.rb".toList twoPets =
      ⟨[], [modelOf "Pet".toList "name".toList "string".toList,
        modelOf "Pet".toList "age".toList "integer".toList], []⟩ := by decide
  change Docs.ofFiles .standard petTree (files petArguments petTree) = _
  rw [hfiles, Docs.ofFiles, List.map_cons, Docs.ofFile, hread]
  simp only [hsource]
  rfl

theorem fault_petTree : (run petArguments petTree).fault = none := by
  have hscanned : scanned petArguments petTree = [] := by
    change ["m".toList].flatMap _ = _
    simp only [scanDiagnostics, found, search_petTree, List.flatMap_cons, List.flatMap_nil]
    rfl
  rw [fault_eq_none_iff]
  intro c
  cases c with
  | grammarLoads | outputWritable => intro path h; cases h
  | directoriesScan =>
      change ∀ dir ∈ ["m".toList], _
      decide
  | sourceFound => exact ⟨"m".toList, by decide, by simp only [found, search_petTree]; decide⟩
  | somethingParsed => exact .inr (by rw [parsed_petTree]; decide)
  | problemsAllowed =>
      intro _
      rw [diagnostics, hscanned, parsed_petTree]
      rfl

/-- The log has the one entry that tells of the model that is lost. -/
theorem strict_keeps_petTree :
    ∃ replaced : List Text, (run petArguments petTree).log = replaced.map .ofRepeatedModel ∧
      "Pet".toList ∈ replaced := by
  obtain ⟨-, -, -, -, replaced, hlog, hmem, -⟩ := strict_keeps rfl fault_petTree
  refine ⟨replaced, hlog, (hmem "Pet".toList).2 ?_⟩
  rw [parsed_petTree]
  decide

/-- Of two models with one name a strict run that succeeds loses the first. -/
theorem strict_loses_model :
    ¬∀ (a : Arguments) (t : FileTree), a.strict = true → (run a t).fault = none →
      (∀ e ∈ (parsed a t).endpoints,
        (document a t).operation? e.documentPath e.operation.verb =
          some (Operation.ofEndpoint e.documentPath e)) ∧
      (∀ m ∈ (parsed a t).models,
        (document a t).schemas.get? m.name = some (Schema.ofModelRecord m)) ∧
      (document a t).operationCount = (parsed a t).endpoints.length ∧
      (document a t).schemas.length = (parsed a t).models.length := by
  intro hkept
  obtain ⟨-, -, -, hlength⟩ := hkept petArguments petTree rfl fault_petTree
  have hschemas : (document petArguments petTree).schemas =
      Document.modelSchemas (parsed petArguments petTree).models := rfl
  rw [hschemas, parsed_petTree] at hlength
  revert hlength
  decide

end DocTags.Run
