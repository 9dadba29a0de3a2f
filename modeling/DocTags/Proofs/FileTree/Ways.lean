import DocTags.Proofs.FileTree.View

/-!
Ways through a file tree. The steps of a path are followed with the directories above at hand, so
that a step upwards can be taken; seen from outside, steps lead from place to place, and following
them succeeds if each one starts at a directory.
-/

namespace DocTags

namespace Path

/-- The place that a step leads to. -/
def enter (place : List Text) (step : Text) : List Text :=
  if isIdle step then place
  else if step = ['.', '.'] then place.dropLast
  else place ++ [step]

/-- Every step starts at a place of a kind, and none is too long for a name. -/
def Way (start : List Text → Prop) : List Text → List Text → Prop
  | _, [] => True
  | place, step :: steps =>
    start place ∧ isLongName step = false ∧ Way start (enter place step) steps

variable {start start' : List Text → Prop} {place steps more : List Text}

theorem way_append :
    Way start place (steps ++ more) ↔
      Way start place steps ∧ Way start (steps.foldl enter place) more := by
  induction steps generalizing place with
  | nil => simp [Way]
  | cons step steps ih => simp [Way, ih, and_assoc]

theorem Way.mono (h : ∀ p, start p → start' p) (hway : Way start place steps) :
    Way start' place steps := by
  induction steps generalizing place with
  | nil => trivial
  | cons step steps ih => exact ⟨h _ hway.1, hway.2.1, ih hway.2.2⟩

theorem Way.isLongName_eq_false (h : Way start place steps) {step : Text} (hstep : step ∈ steps) :
    isLongName step = false := by
  induction steps generalizing place with
  | nil => cases hstep
  | cons s steps ih =>
      rcases List.mem_cons.1 hstep with rfl | hstep
      · exact h.2.1
      · exact ih h.2.2 hstep

theorem isLongName_eq_false_of_isIdle {step : Text} (h : isIdle step = true) :
    isLongName step = false := by
  rcases (by simpa [isIdle] using h : step = [] ∨ step = ['.']) with rfl | rfl <;> decide

theorem enter_of_isLongName {step : Text} (h : isLongName step = true) (place : List Text) :
    enter place step = place ++ [step] := by
  have hidle : isIdle step = false := by
    rw [Bool.eq_false_iff]
    intro hidle
    rw [isLongName_eq_false_of_isIdle hidle] at h
    cases h
  have hup : step ≠ ['.', '.'] := by
    rintro rfl
    exact absurd h (by decide)
  simp [enter, hidle, hup]

/-- Where a step is taken, it starts. -/
theorem Way.of_append_cons {step : Text} (h : Way start place (steps ++ step :: more)) :
    start (steps.foldl enter place) :=
  (way_append.1 h).2.1

theorem foldl_enter_of_isIdle (h : ∀ step ∈ steps, isIdle step = true) :
    steps.foldl enter place = place := by
  induction steps with
  | nil => rfl
  | cons step steps ih =>
      rw [List.forall_mem_cons] at h
      simp [enter, h.1, ih h.2]

/-- Steps that stay at a place can be taken wherever one can start. -/
theorem way_of_isIdle (hplace : start place) (h : ∀ step ∈ steps, isIdle step = true) :
    Way start place steps := by
  induction steps with
  | nil => trivial
  | cons step steps ih =>
      rw [List.forall_mem_cons] at h
      refine ⟨hplace, isLongName_eq_false_of_isIdle h.1, ?_⟩
      simpa [enter, h.1] using ih h.2

/-- The names of a place are among the steps that lead to it. -/
theorem mem_of_mem_foldl_enter {name : Text} (h : name ∈ steps.foldl enter place) :
    name ∈ place ∨ name ∈ steps := by
  induction steps generalizing place with
  | nil => exact .inl h
  | cons step steps ih =>
      rcases ih h with h | h
      · unfold enter at h
        split_ifs at h with hidle hup
        · exact .inl h
        · exact .inl (List.dropLast_subset place h)
        · rcases List.mem_append.1 h with h | h
          · exact .inl h
          · exact .inr (by simp [List.mem_singleton.1 h])
      · exact .inr (List.mem_cons_of_mem step h)

end Path

namespace Entry

/-- An entry with the directories above it, as they are met on a way from the root. -/
inductive Stands (root : Entry) : List Text → List Entry → Entry → Prop
  | start : Stands root [] [] root
  | down {place : List Text} {above : List Entry} {entries : List (Text × Entry)} {name : Text}
      {e : Entry} (h : Stands root place above (.directory entries))
      (hchild : child? name entries = some e) :
      Stands root (place ++ [name]) (.directory entries :: above) e

theorem Stands.at? {root : Entry} {place : List Text} {above : List Entry} {e : Entry}
    (h : Stands root place above e) : root.at? place = some e := by
  induction h with
  | start => rfl
  | down _ hchild ih => simp [at?_append, ih, Entry.at?, hchild]

theorem Stands.walk_eq_ok_iff {root : Entry} {place : List Text} {above : List Entry} {e e' : Entry}
    (h : Stands root place above e) {steps : List Text} :
    walk above e steps = .ok e' ↔
      Path.Way (fun p => ∃ entries, root.at? p = some (.directory entries)) place steps ∧
        root.at? (steps.foldl Path.enter place) = some e' := by
  induction steps generalizing place above e with
  | nil => simp [walk, Path.Way, h.at?]
  | cons step steps ih =>
      cases e with
      | file _ | sealed => simp [walk, Path.Way, h.at?]
      | directory entries =>
          simp only [walk, Path.Way, h.at?, List.foldl_cons, Path.enter]
          split_ifs with hidle hup hlong
          · simp [Path.isLongName_eq_false_of_isIdle hidle, ih h]
          · subst hup
            have hshort : Path.isLongName ['.', '.'] = false := by decide
            -- at the root a step upwards stays where it is
            cases h with
            | start => simpa [hshort] using ih .start
            | down h' hchild => simpa [hshort] using ih h'
          · simp [hlong]
          · cases hchild : child? step entries with
            | none =>
                have hnone : root.at? (place ++ [step]) = none := by
                  simp [at?_append, h.at?, Entry.at?, hchild]
                cases steps <;> simp [Path.Way, hnone]
            | some next => simp [hlong, ih (h.down hchild)]

end Entry

namespace FileTree

open DocTags.Path

/-- A place where there is a directory that can be entered. -/
def HasDirectory (t : FileTree) (place : List Text) : Prop :=
  t.view place = some .directory

theorem HasDirectory.ne_none {t : FileTree} {place : List Text} (h : t.HasDirectory place) :
    t.view place ≠ none := by
  rw [h]
  exact Option.some_ne_none _

theorem namesOf_eq_foldl_enter (steps : List Text) : namesOf steps = steps.foldl enter [] := rfl

theorem namesOf_append (steps more : List Text) :
    namesOf (steps ++ more) = more.foldl enter (namesOf steps) :=
  List.foldl_append

theorem namesOf_concat (steps : List Text) (step : Text) :
    namesOf (steps ++ [step]) = enter (namesOf steps) step :=
  namesOf_append steps [step]

theorem walk_eq_ok_iff {t : FileTree} {steps : List Text} {e : Entry} :
    t.root.walk [] steps = .ok e ↔
      Way t.HasDirectory [] steps ∧ t.root.at? (namesOf steps) = some e := by
  have hdirectory : t.HasDirectory = fun p =>
      ∃ entries, t.root.at? p = some (.directory entries) :=
    funext fun p => propext view_eq_directory_iff
  rw [Entry.Stands.start.walk_eq_ok_iff, hdirectory, namesOf_eq_foldl_enter]

end FileTree
end DocTags
