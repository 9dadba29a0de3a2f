import DocTags.Proofs.Run.Outcome

/-!
Strict mode. It changes nothing about how a document is made; it only keeps a run from making one
when there is anything to tell.
-/

namespace DocTags

/-- The same arguments with strict mode on or off. -/
def Arguments.withStrict (a : Arguments) (strict : Bool) : Arguments :=
  { a with strict }

namespace Run

variable (a : Arguments) (t : FileTree) (strict : Bool)

theorem sourceFault?_withStrict : sourceFault? (a.withStrict strict) t = sourceFault? a t := rfl

theorem parsed_withStrict : parsed (a.withStrict strict) t = parsed a t := rfl

theorem diagnostics_withStrict : diagnostics (a.withStrict strict) t = diagnostics a t := rfl

theorem content_withStrict : content (a.withStrict strict) t = content a t := rfl

theorem earlyLog_withStrict : earlyLog (a.withStrict strict) t = earlyLog a t := by
  have hsearch : ∀ dirs, searchLog (a.withStrict strict) t dirs = searchLog a t dirs := by
    intro dirs
    induction dirs with
    | nil => rfl
    | cons dir dirs ih =>
        rw [searchLog, searchLog, ih]
        rfl
  have hgrammar : grammar (a.withStrict strict) t = grammar a t := rfl
  rw [earlyLog, earlyLog, hgrammar, hsearch]
  rfl

theorem fullLog_withStrict : fullLog (a.withStrict strict) t = fullLog a t := by
  rw [fullLog, earlyLog_withStrict, diagnostics_withStrict, parsed_withStrict, fullLog]

theorem deliver_withStrict : deliver (a.withStrict strict) t = deliver a t := rfl

/-- What strict mode adds to what keeps a run from making a document. -/
theorem fault?_withStrict :
    fault? (a.withStrict true) t =
      (fault? (a.withStrict false) t).or
        (if diagnostics a t = [] then none else some (.strict (diagnostics a t).length)) := by
  unfold fault?
  simp only [sourceFault?_withStrict, parsed_withStrict, diagnostics_withStrict]
  cases sourceFault? a t with
  | some fault => rfl
  | none =>
      by_cases hempty : (parsed a t).isEmpty = true
      · simp [hempty]
      · by_cases hnone : diagnostics a t = [] <;> simp [hempty, hnone, Arguments.withStrict]

variable {a t}

/-- Runs in both modes that make a document have the same outcome. -/
theorem run_withStrict_eq (h : fault? (a.withStrict true) t = none) :
    run (a.withStrict true) t = run (a.withStrict false) t := by
  have hlenient : fault? (a.withStrict false) t = none := by
    rw [fault?_withStrict, Option.or_eq_none_iff] at h
    exact h.1
  rw [run_of_fault?_eq_none h, run_of_fault?_eq_none hlenient]
  simp only [deliver_withStrict, fullLog_withStrict, content_withStrict]

variable (a t)

/-- Strict mode only filters: it lets through the runs that have nothing to tell, as they are, and
stops the others before they leave anything behind. -/
theorem strict_only_filters :
    ((run (a.withStrict true) t).fault = none →
        run (a.withStrict false) t = run (a.withStrict true) t) ∧
      ((run (a.withStrict false) t).fault = none → diagnostics (a.withStrict false) t = [] →
        run (a.withStrict true) t = run (a.withStrict false) t) ∧
      ((run (a.withStrict false) t).fault = none ∧ diagnostics (a.withStrict false) t ≠ [] ∨
          (run (a.withStrict false) t).fault ≠ none →
        (run (a.withStrict true) t).fault ≠ none ∧
          Undelivered (a.withStrict true) t (run (a.withStrict true) t)) := by
  rw [diagnostics_withStrict]
  have hfails : (run (a.withStrict true) t).fault ≠ none →
      (run (a.withStrict true) t).fault ≠ none ∧
        Undelivered (a.withStrict true) t (run (a.withStrict true) t) := by
    intro h
    obtain ⟨fault, hfault⟩ := Option.ne_none_iff_exists'.1 h
    exact ⟨h, undelivered_of_fault hfault⟩
  refine ⟨fun h => ?_, fun h hnone => ?_, fun h => hfails fun hstrict => ?_⟩
  · exact (run_withStrict_eq (fault?_eq_none_of_fault h)).symm
  · apply run_withStrict_eq
    rw [fault?_withStrict, fault?_eq_none_of_fault h, hnone]
    rfl
  · have hmade := fault?_eq_none_of_fault hstrict
    rw [run_withStrict_eq hmade] at hstrict
    rcases h with ⟨-, hsome⟩ | hfault
    · rw [fault?_withStrict, Option.or_eq_none_iff, if_neg hsome] at hmade
      cases hmade.2
    · exact hfault hstrict

end Run
end DocTags
