import DocTags.Proofs.FileTree.Directories
import DocTags.Proofs.FileTree.Parent

/-!
Writing a file. It changes what there is at the place of its path and nothing else, and the path
leads to the new content afterwards.
-/

namespace DocTags

namespace Path

/-- A step to an entry of the directory where it starts. -/
def IsName (step : Text) : Prop :=
  isIdle step = false ∧ step ≠ ['.', '.']

instance (step : Text) : Decidable (IsName step) :=
  inferInstanceAs (Decidable (isIdle step = false ∧ step ≠ ['.', '.']))

theorem IsName.enter {step : Text} (h : IsName step) (place : List Text) :
    enter place step = place ++ [step] := by
  simp [Path.enter, h.1, h.2]

end Path

namespace FileTree

open DocTags.Path

/-- A place where a file can be put, for want of anything else there. -/
def IsFree (t : FileTree) (place : List Text) : Prop :=
  t.view place = none ∨ t.HasFile place

/-- The steps of a path to the directory of its last step. -/
def way (t : FileTree) (path : Text) : List Text :=
  (t.steps path).dropLast

def lastStep (t : FileTree) (path : Text) : Text :=
  (t.steps path).getLastD []

/-- The place that a path leads to. -/
def place (t : FileTree) (path : Text) : List Text :=
  namesOf (t.steps path)

theorem steps_eq_concat (t : FileTree) (path : Text) :
    t.steps path = t.way path ++ [t.lastStep path] := by
  rw [way, lastStep, List.getLastD_eq_getLast?, List.getLast?_eq_some_getLast (t.steps_ne_nil path)]
  exact (List.dropLast_concat_getLast (t.steps_ne_nil path)).symm

theorem lastStep_mem_steps (t : FileTree) (path : Text) : t.lastStep path ∈ t.steps path := by
  rw [steps_eq_concat]
  simp

theorem place_eq_concat {t : FileTree} {path : Text} (h : IsName (t.lastStep path)) :
    t.place path = namesOf (t.way path) ++ [t.lastStep path] := by
  rw [place, steps_eq_concat, namesOf_concat, h.enter]

theorem getLast?_steps (t : FileTree) (path : Text) :
    (t.steps path).getLast? = some (t.lastStep path) := by
  rw [steps_eq_concat, List.getLast?_concat]

theorem exists_parent_of_isName {t : FileTree} {path : Text} (h : '/' ∈ path)
    (hname : IsName (t.lastStep path)) : ∃ parent, parent? path = some parent ∧ parent ≠ [] := by
  have hpieces : (t.steps path).getLast? = (Text.pieces '/' path).getLast? := by
    unfold steps
    split_ifs
    · rfl
    · rw [List.getLast?_append_of_ne_nil _ (Text.pieces_ne_nil '/' path)]
  refine exists_parent h ?_
  rw [← hpieces, getLast?_steps]
  rintro _ ⟨⟩
  exact hname.1

/-- The way to a named last step leads through the directory of the path. -/
theorem way_of_isParent {t : FileTree} {path parent : Text} (h : IsParent path parent)
    (hname : IsName (t.lastStep path)) :
    ∃ above idle between, t.steps parent = above ++ idle ∧ t.way path = above ++ between ∧
      (∀ step ∈ idle, isIdle step = true) ∧ (∀ step ∈ between, isIdle step = true) := by
  obtain ⟨above, idle, between, last, after, hparent, hpath, hidle, -⟩ := h.steps t
  simp only [List.mem_append, or_imp, forall_and] at hidle
  obtain ⟨⟨hidle, hbetween⟩, hafter⟩ := hidle
  refine ⟨above, idle, between, hparent, ?_, hidle, hbetween⟩
  rcases List.eq_nil_or_concat' after with rfl | ⟨after, step, rfl⟩
  · rw [way, hpath, List.dropLast_concat]
  · have hlast := t.getLast?_steps path
    rw [hpath, ← List.cons_append, ← List.append_assoc, List.getLast?_concat, Option.some_inj]
      at hlast
    have hstep := hafter step (by simp)
    rw [hlast, hname.1] at hstep
    cases hstep

/-- The last step of a path starts at a directory, and so do the others. -/
theorem way_steps_iff {t : FileTree} {path : Text} {start : List Text → Prop} :
    Way start [] (t.steps path) ↔ Way start [] (t.way path) ∧ start (namesOf (t.way path)) ∧
      isLongName (t.lastStep path) = false := by
  rw [steps_eq_concat, way_append, ← namesOf_eq_foldl_enter]
  simp [Way]

theorem IsFree.not_hasDirectory {t : FileTree} {place : List Text} (h : t.IsFree place) :
    ¬t.HasDirectory place := by
  rw [HasDirectory]
  rcases h with h | ⟨content, h⟩ <;> simp [h]

theorem isFree_iff {t : FileTree} {place : List Text} :
    t.IsFree place ↔ t.root.at? place = none ∨ ∃ content, t.root.at? place = some (.file content) := by
  rw [IsFree, hasFile_iff, view, Option.map_eq_none_iff]

/-- A file can be written if its path is a path, the steps start at directories, and nothing but a
file is where they lead. -/
theorem isSome_writeFile_iff {t : FileTree} {path : Text} {content : ByteArray} :
    (t.writeFile path content).isSome ↔ hasZero path = false ∧ isLong path = false ∧
      IsName (t.lastStep path) ∧ Way t.HasDirectory [] (t.steps path) ∧ t.IsFree (t.place path) := by
  simp only [writeFile, getLast?_steps]
  split_ifs with hname hpath
  · refine ⟨fun h => absurd h (by simp), ?_⟩
    rintro ⟨-, -, hn, hway, -⟩
    have hshort := hway.isLongName_eq_false (t.lastStep_mem_steps path)
    simp [hn.1, hn.2, hshort] at hname
  · refine ⟨fun h => absurd h (by simp), ?_⟩
    rintro ⟨hzero, hlong, -⟩
    simp [hzero, hlong] at hpath
  · obtain ⟨⟨hidle, hup⟩, hshort⟩ : (isIdle (t.lastStep path) = false ∧
        t.lastStep path ≠ ['.', '.']) ∧ isLongName (t.lastStep path) = false := by
      simpa using hname
    obtain ⟨hzero, hlong⟩ : hasZero path = false ∧ isLong path = false := by simpa using hpath
    have hplace : namesOf (t.steps path) = namesOf (t.way path) ++ [t.lastStep path] :=
      place_eq_concat ⟨hidle, hup⟩
    have hwalk : (∃ entries, t.root.walk [] (t.way path) = .ok (.directory entries)) ↔
        Way t.HasDirectory [] (t.way path) ∧ t.HasDirectory (namesOf (t.way path)) := by
      simp only [walk_eq_ok_iff, HasDirectory, view_eq_directory_iff, exists_and_left]
    rw [way_steps_iff, isFree_iff, ← and_assoc (a := Way _ _ _), ← hwalk, place, hplace]
    simp only [hzero, hlong, hshort, true_and, and_true, IsName, hidle, ne_eq, hup,
      not_false_eq_true]
    split
    · next entries hentries =>
        have hparent := (walk_eq_ok_iff.1 hentries).2
        rw [Option.isSome_map, Entry.isSome_alter, way, hentries]
        rcases t.root.at? (namesOf (t.steps path).dropLast ++ [t.lastStep path]) with
          _ | (_ | _ | _) <;> simp [hparent]
    · next hother =>
        refine ⟨fun h => absurd h (by simp), ?_⟩
        rintro ⟨⟨entries, hentries⟩, -⟩
        exact absurd hentries (hother entries)

/-- Writing a file changes one place of a tree. -/
theorem view_writeFile {t t' : FileTree} {path : Text} {content : ByteArray}
    (h : t.writeFile path content = some t') :
    t'.working = t.working ∧ ∀ place, t'.view place =
      if place = namesOf (t.steps path) then some (.file content) else t.view place := by
  simp only [writeFile] at h
  split at h
  · cases h
  split_ifs at h
  split at h
  · obtain ⟨root, hroot, rfl⟩ := Option.map_eq_some_iff.1 h
    obtain ⟨new, hnew, hview⟩ := view_alter hroot fun old new hf place hplace => by
      obtain ⟨name, more, rfl⟩ := List.exists_cons_of_ne_nil hplace
      rcases old with _ | (_ | _ | _) <;> cases hf <;> rfl
    have hkind : new.kind = .file content := by
      rcases he : t.root.at? (namesOf (t.steps path)) with _ | (_ | _ | _) <;>
        rw [he] at hnew <;> cases hnew <;> rfl
    exact ⟨rfl, fun place => by rw [hview, hkind]⟩
  · cases h

/-- What was written is found under the path. -/
theorem find_writeFile {t t' : FileTree} {path : Text} {content : ByteArray}
    (h : t.writeFile path content = some t') : t'.find path = .ok (.file content) := by
  obtain ⟨hzero, hlong, hname, hway, hfree⟩ := isSome_writeFile_iff.1 (Option.isSome_of_mem h)
  obtain ⟨hworking, hview⟩ := view_writeFile h
  have hsteps : t'.steps path = t.steps path := by simp only [steps, hworking]
  have hempty : path.isEmpty = false := by
    rw [Bool.eq_false_iff]
    intro hempty
    rw [List.isEmpty_iff.1 hempty] at hname
    have hidle := hname.1
    simp [lastStep, steps, isAbsolute, Text.pieces, isIdle] at hidle
  have hdirectory : ∀ place, t.HasDirectory place → t'.HasDirectory place := by
    intro place hplace
    rw [HasDirectory, hview, if_neg]
    · exact hplace
    · rintro rfl
      exact hfree.not_hasDirectory hplace
  have hwalk : t'.root.walk [] (t'.steps path) = .ok (.file content) := by
    rw [walk_eq_ok_iff, hsteps, ← view_eq_file_iff, hview, if_pos rfl]
    exact ⟨hway.mono hdirectory, rfl⟩
  simpa only [find, hzero, hempty, hlong, Bool.false_eq_true, if_false] using hwalk

end FileTree
end DocTags
