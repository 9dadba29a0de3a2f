import DocTags.Proofs.Run.Stages

/-!
The outcome of a run. It succeeds if six conditions hold, and otherwise the first one that does not
hold is told. The document is put into one place, or nowhere.
-/

namespace DocTags.Run

open FileTree

/-- What a run needs, in the order in which it is looked at. -/
inductive Condition where
  | grammarLoads
  | directoriesScan
  | sourceFound
  | somethingParsed
  | problemsAllowed
  | outputWritable
  deriving DecidableEq

namespace Condition

def rank : Condition → Nat
  | grammarLoads => 0
  | directoriesScan => 1
  | sourceFound => 2
  | somethingParsed => 3
  | problemsAllowed => 4
  | outputWritable => 5

variable (a : Arguments) (t : FileTree)

def Holds : Condition → Prop
  | grammarLoads => ∀ path, a.grammar = some path →
      ∃ text g, t.readText path = .ok text ∧ Grammar.ofFile? text = some g
  | directoriesScan => ∀ dir ∈ a.directories, t.isDirectory dir = true
  | sourceFound => ∃ dir ∈ a.directories, (found a t dir).files ≠ []
  | somethingParsed => (parsed a t).endpoints ≠ [] ∨ (parsed a t).models ≠ []
  | problemsAllowed => a.strict = true → diagnostics a t = []
  | outputWritable => ∀ path, a.output = some path → t.Writable path

/-- What is told when a condition does not hold. -/
def Tells : Condition → RunFault → Prop
  | grammarLoads, fault => ∃ path, a.grammar = some path ∧
      fault = if (t.readText path).isOk then .invalidGrammar path else .unreadableGrammar path
  | directoriesScan, fault => ∃ before dir after, a.directories = before ++ dir :: after ∧
      (∀ d ∈ before, t.isDirectory d = true) ∧ t.isDirectory dir = false ∧
      fault = .scan (if t.has dir then .notDirectory dir else .notFound dir)
  | sourceFound, fault => fault = .noSources
  | somethingParsed, fault => fault = .nothingParsed
  | problemsAllowed, fault => fault = .strict (diagnostics a t).length
  | outputWritable, fault => ∃ path, a.output = some path ∧ Unwritten t path fault

/-- A condition that does not hold, with all those before it holding. -/
def IsFirst (c : Condition) : Prop :=
  ¬c.Holds a t ∧ ∀ c' : Condition, c'.rank < c.rank → c'.Holds a t

variable {a t}

theorem exists_isFirst {c : Condition} (h : ¬c.Holds a t) : ∃ c : Condition, c.IsFirst a t := by
  induction hrank : c.rank using Nat.strong_induction_on generalizing c with
  | _ n ih =>
      by_cases hbefore : ∀ c' : Condition, c'.rank < c.rank → c'.Holds a t
      · exact ⟨c, h, hbefore⟩
      · obtain ⟨c', hlt, hc'⟩ : ∃ c' : Condition, c'.rank < c.rank ∧ ¬c'.Holds a t := by
          simpa using hbefore
        exact ih c'.rank (hrank ▸ hlt) hc' rfl

theorem forall_holds_or_isFirst (a : Arguments) (t : FileTree) :
    (∀ c : Condition, c.Holds a t) ∨ ∃ c : Condition, c.IsFirst a t := by
  by_cases h : ∀ c : Condition, c.Holds a t
  · exact .inl h
  · obtain ⟨c, hc⟩ := not_forall.1 h
    exact .inr (exists_isFirst hc)

/-! ### The conditions as the stages see them -/

theorem holds_grammarLoads_iff : grammarLoads.Holds a t ↔ ∃ g, grammar a t = .ok g := by
  unfold Holds grammar Grammar.load
  cases a.grammar with
  | none => simp
  | some path =>
      cases hread : t.readText path with
      | error fault => simp [hread]
      | ok text => cases hg : Grammar.ofFile? text <;> simp [hread, hg]

theorem tells_of_grammar_eq_error {fault : RunFault} (h : grammar a t = .error fault) :
    grammarLoads.Tells a t fault := by
  unfold grammar Grammar.load at h
  cases hpath : a.grammar with
  | none => simp [hpath] at h
  | some path =>
      refine ⟨path, hpath, ?_⟩
      cases hread : t.readText path with
      | error f => simpa [hpath, hread, Except.isOk, Except.toBool] using h.symm
      | ok text =>
          cases hg : Grammar.ofFile? text with
          | none => simpa [hpath, hread, hg, Except.isOk, Except.toBool] using h.symm
          | some g => simp [hpath, hread, hg] at h

/-- A directory can be searched if it is one; what can not be listed is left out. -/
theorem scanFault?_eq (dir : Text) :
    scanFault? a t dir =
      if t.isDirectory dir then none
      else some (if t.has dir then .notDirectory dir else .notFound dir) := by
  unfold scanFault? search Scan.run isDirectory has
  cases t.find dir with
  | error fault => rfl
  | ok e => cases e <;> rfl

theorem holds_directoriesScan_iff :
    directoriesScan.Holds a t ↔ a.directories.findSome? (scanFault? a t) = none := by
  simp [Holds, scanFault?_eq]

theorem tells_of_findSome? {fault : ScanFault}
    (h : a.directories.findSome? (scanFault? a t) = some fault) :
    directoriesScan.Tells a t (.scan fault) := by
  obtain ⟨before, dir, after, hdirs, hfault, hbefore⟩ := List.findSome?_eq_some_iff.1 h
  rw [scanFault?_eq, Option.ite_none_left_eq_some, Option.some_inj] at hfault
  obtain ⟨hdir, rfl⟩ := hfault
  refine ⟨before, dir, after, hdirs, fun d hd => ?_, Bool.eq_false_iff.2 hdir, rfl⟩
  simpa [scanFault?_eq] using hbefore d hd

theorem holds_sourceFound_iff : sourceFound.Holds a t ↔ files a t ≠ [] := by
  rw [ne_eq, files_eq_nil_iff]
  simp [Holds]

theorem holds_somethingParsed_iff : somethingParsed.Holds a t ↔ (parsed a t).isEmpty = false := by
  simp [Holds, Docs.isEmpty, or_iff_not_imp_left]

theorem holds_problemsAllowed_iff :
    problemsAllowed.Holds a t ↔ ¬(a.strict = true ∧ diagnostics a t ≠ []) := by
  simp [Holds]

/-! ### The first condition that does not hold -/

theorem sourceFault?_eq_none
    (h : ∀ c : Condition, c.rank < somethingParsed.rank → c.Holds a t) :
    sourceFault? a t = none := by
  obtain ⟨g, hg⟩ := holds_grammarLoads_iff.1 (h grammarLoads (by decide))
  have hscan := holds_directoriesScan_iff.1 (h directoriesScan (by decide))
  have hfound := holds_sourceFound_iff.1 (h sourceFound (by decide))
  simp [sourceFault?, hg, hscan, hfound]

/-- If all goes well up to the output, a document is made. -/
theorem fault?_eq_none (h : ∀ c : Condition, c.rank < outputWritable.rank → c.Holds a t) :
    fault? a t = none := by
  have hsources := sourceFault?_eq_none fun c hc => h c (hc.trans (by decide))
  have hparsed := holds_somethingParsed_iff.1 (h somethingParsed (by decide))
  have hproblems := holds_problemsAllowed_iff.1 (h problemsAllowed (by decide))
  simp [fault?, hsources, hparsed, hproblems]

/-- The first condition that does not hold keeps a run from making a document. -/
theorem IsFirst.fault? {c : Condition} (h : c.IsFirst a t) (hc : c ≠ outputWritable) :
    ∃ fault, fault? a t = some fault ∧ c.Tells a t fault := by
  obtain ⟨hno, hbefore⟩ := h
  unfold Run.fault?
  cases c with
  | grammarLoads =>
      cases hg : grammar a t with
      | error fault => exact ⟨fault, by simp [sourceFault?, hg], tells_of_grammar_eq_error hg⟩
      | ok g => exact absurd (holds_grammarLoads_iff.2 ⟨g, hg⟩) hno
  | directoriesScan =>
      obtain ⟨g, hg⟩ := holds_grammarLoads_iff.1 (hbefore grammarLoads (by decide))
      rw [holds_directoriesScan_iff, ← ne_eq, Option.ne_none_iff_exists'] at hno
      obtain ⟨fault, hfault⟩ := hno
      exact ⟨.scan fault, by simp [sourceFault?, hg, hfault], tells_of_findSome? hfault⟩
  | sourceFound =>
      obtain ⟨g, hg⟩ := holds_grammarLoads_iff.1 (hbefore grammarLoads (by decide))
      have hscan := holds_directoriesScan_iff.1 (hbefore directoriesScan (by decide))
      rw [holds_sourceFound_iff, not_not] at hno
      exact ⟨.noSources, by simp [sourceFault?, hg, hscan, hno], rfl⟩
  | somethingParsed =>
      have hsources := sourceFault?_eq_none hbefore
      rw [holds_somethingParsed_iff, Bool.not_eq_false] at hno
      exact ⟨.nothingParsed, by simp [hsources, hno], rfl⟩
  | problemsAllowed =>
      have hsources := sourceFault?_eq_none fun c hc => hbefore c (hc.trans (by decide))
      have hparsed := holds_somethingParsed_iff.1 (hbefore somethingParsed (by decide))
      rw [holds_problemsAllowed_iff, not_not] at hno
      exact ⟨.strict _, by simp [hsources, hparsed, hno], rfl⟩
  | outputWritable => exact absurd rfl hc

end Condition

/-! ### What becomes of the document -/

/-- The document has been put into its place, and nothing else has changed. -/
def Delivered (a : Arguments) (t : FileTree) (o : Outcome) : Prop :=
  match a.output with
  | none => o.printed = content a t ++ ['\n'] ∧ o.tree = t
  | some path => o.printed = [] ∧ t.Stores path (String.ofList (content a t)).toUTF8 o.tree

/-- There is no document, and the files are what they were. -/
structure Undelivered (a : Arguments) (t : FileTree) (o : Outcome) : Prop where
  printed : o.printed = []
  files : ∀ place content, o.tree.view place = some (.file content) ↔
    t.view place = some (.file content)
  /-- Directories may have been made for a file that could not be written. -/
  tree : o.tree = t ∨ ∃ path, a.output = some path ∧ Condition.outputWritable.IsFirst a t ∧
    Grows (t.OnWay path) t o.tree

/-- A document that has been made is delivered if its file can be written. -/
theorem deliver_cases (a : Arguments) (t : FileTree) (log : List LogEntry) :
    (Condition.outputWritable.Holds a t ∧ (deliver a t log (content a t)).fault = none ∧
        Delivered a t (deliver a t log (content a t))) ∨
      (¬Condition.outputWritable.Holds a t ∧
        (∃ fault, (deliver a t log (content a t)).fault = some fault ∧
          Condition.outputWritable.Tells a t fault) ∧
        (deliver a t log (content a t)).printed = [] ∧
        ∃ path, a.output = some path ∧
          Grows (t.OnWay path) t (deliver a t log (content a t)).tree) := by
  unfold Condition.Holds Condition.Tells Delivered deliver
  cases a.output with
  | none => exact .inl ⟨by simp, rfl, rfl, rfl⟩
  | some path =>
      rcases write_cases t path (content a t) with
        ⟨hwritable, hfault, hstores⟩ | ⟨hwritable, ⟨fault, hfault, hunwritten⟩, hgrows⟩
      · exact .inl ⟨by simpa using hwritable, hfault, rfl, hstores⟩
      · exact .inr ⟨by simpa using hwritable, ⟨fault, hfault, path, rfl, hunwritten⟩, rfl,
          path, rfl, hgrows⟩

variable {a : Arguments} {t : FileTree}

theorem run_of_forall_holds (h : ∀ c : Condition, c.Holds a t) :
    (run a t).fault = none ∧ Delivered a t (run a t) := by
  rw [run_of_fault?_eq_none (Condition.fault?_eq_none fun c _ => h c)]
  rcases deliver_cases a t (fullLog a t) with ⟨-, hdelivered⟩ | ⟨hno, -⟩
  · exact hdelivered
  · exact absurd (h .outputWritable) hno

theorem run_of_isFirst {c : Condition} (h : c.IsFirst a t) :
    (∃ fault, (run a t).fault = some fault ∧ c.Tells a t fault) ∧ Undelivered a t (run a t) := by
  by_cases hc : c = .outputWritable
  · subst hc
    rw [run_of_fault?_eq_none (Condition.fault?_eq_none h.2)]
    rcases deliver_cases a t (fullLog a t) with
      ⟨hwritable, -⟩ | ⟨-, htells, hprinted, path, hpath, hgrows⟩
    · exact absurd hwritable h.1
    · exact ⟨htells, hprinted, hgrows.view_eq_file_iff, .inr ⟨path, hpath, h, hgrows⟩⟩
  · obtain ⟨fault, hfault, htells⟩ := h.fault? hc
    obtain ⟨hrun, hprinted, htree⟩ := run_of_fault?_eq_some hfault
    exact ⟨⟨fault, hrun, htells⟩, hprinted, by simp [htree], .inl htree⟩

theorem fault_eq_none_iff : (run a t).fault = none ↔ ∀ c : Condition, c.Holds a t := by
  rcases Condition.forall_holds_or_isFirst a t with h | ⟨c, hc⟩
  · exact ⟨fun _ => h, fun _ => (run_of_forall_holds h).1⟩
  · obtain ⟨⟨fault, hfault, -⟩, -⟩ := run_of_isFirst hc
    rw [hfault]
    exact ⟨fun h => absurd h (Option.some_ne_none fault), fun h => absurd (h c) hc.1⟩

theorem undelivered_of_fault {fault : RunFault} (h : (run a t).fault = some fault) :
    Undelivered a t (run a t) := by
  rcases Condition.forall_holds_or_isFirst a t with hall | ⟨c, hc⟩
  · rw [(run_of_forall_holds hall).1] at h
    cases h
  · exact (run_of_isFirst hc).2

/-- A run succeeds if all conditions hold, and the first one that does not hold decides what is told.
The document of a run that succeeds is in one place; a run that fails leaves none. -/
theorem outcome_run (a : Arguments) (t : FileTree) :
    ((run a t).fault = none ↔ ∀ c : Condition, c.Holds a t) ∧
      (∀ c : Condition, c.IsFirst a t →
        ∃ fault, (run a t).fault = some fault ∧ c.Tells a t fault) ∧
      ((run a t).fault = none → Delivered a t (run a t)) ∧
      (∀ fault, (run a t).fault = some fault → Undelivered a t (run a t)) := by
  refine ⟨fault_eq_none_iff, fun c h => (run_of_isFirst h).1, fun h => ?_, fun _ => ?_⟩
  · exact (run_of_forall_holds (fault_eq_none_iff.1 h)).2
  · exact undelivered_of_fault

end DocTags.Run
