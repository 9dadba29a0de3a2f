import DocTags.Proofs.FileTree.Ways
import DocTags.Proofs.Text.Pieces

/-!
Making directories. A way is made step by step; each step makes at most one directory and changes
nothing else. Making it succeeds if no file and no sealed directory is in the way, and otherwise the
directories that came before the obstacle stay.
-/

namespace DocTags.FileTree

open DocTags.Path

/-- A place that is empty, or where there is a directory that can be entered. -/
def HasRoom (t : FileTree) (place : List Text) : Prop :=
  t.view place = none ∨ t.HasDirectory place

def HasFile (t : FileTree) (place : List Text) : Prop :=
  ∃ content, t.view place = some (.file content)

/-- The second tree is the first one with new directories at some places, and no other change. -/
structure Grows (places : List Text → Prop) (t t' : FileTree) : Prop where
  working : t'.working = t.working
  view : ∀ place, t'.view place = t.view place ∨
    t.view place = none ∧ t'.view place = some .directory ∧ places place

namespace Grows

variable {places places' : List Text → Prop} {t t' t'' : FileTree} {place : List Text}

theorem refl (t : FileTree) : Grows places t t :=
  ⟨rfl, fun _ => .inl rfl⟩

theorem mono (h : Grows places t t') (hp : ∀ p, places p → places' p) : Grows places' t t' :=
  ⟨h.working, fun place => (h.view place).imp_right fun ⟨h₁, h₂, h₃⟩ => ⟨h₁, h₂, hp place h₃⟩⟩

theorem trans (h : Grows places t t') (h' : Grows places t' t'') : Grows places t t'' where
  working := h'.working.trans h.working
  view := by
    intro place
    rcases h.view place with hv | ⟨hnone, hdir, hp⟩ <;>
      rcases h'.view place with hv' | ⟨hnone', hdir', hp'⟩
    · exact .inl (hv'.trans hv)
    · exact .inr ⟨hv ▸ hnone', hdir', hp'⟩
    · exact .inr ⟨hnone, hv'.trans hdir, hp⟩
    · exact .inr ⟨hnone, hdir', hp⟩

theorem hasDirectory (h : Grows places t t') (hd : t.HasDirectory place) :
    t'.HasDirectory place := by
  rcases h.view place with hv | ⟨hnone, -, -⟩
  · exact hv.trans hd
  · rw [HasDirectory, hnone] at hd
    cases hd

theorem hasRoom_iff (h : Grows places t t') : t'.HasRoom place ↔ t.HasRoom place := by
  rcases h.view place with hv | ⟨hnone, hdir, -⟩
  · simp only [HasRoom, HasDirectory, hv]
  · simp [HasRoom, HasDirectory, hnone, hdir]

theorem view_eq_file_iff (h : Grows places t t') (place : List Text) (content : ByteArray) :
    t'.view place = some (.file content) ↔ t.view place = some (.file content) := by
  rcases h.view place with hv | ⟨hnone, hdir, -⟩
  · rw [hv]
  · simp [hnone, hdir]

theorem hasFile_iff (h : Grows places t t') : t'.HasFile place ↔ t.HasFile place := by
  simp only [HasFile, h.view_eq_file_iff]

theorem steps_eq (h : Grows places t t') (path : Text) : t'.steps path = t.steps path := by
  simp only [steps, h.working]

end Grows

theorem HasRoom.not_hasFile {t : FileTree} {place : List Text} (h : t.HasRoom place) :
    ¬t.HasFile place := by
  rintro ⟨content, hfile⟩
  rcases h with h | h
  · rw [h] at hfile
    cases hfile
  · rw [HasDirectory, hfile] at h
    cases h

/-! ### One directory -/

theorem grows_makeDirectory {t t' : FileTree} {names : List Text}
    (h : t.makeDirectory names = some t') :
    Grows (· = names) t t' ∧ t'.view names ≠ none := by
  unfold makeDirectory at h
  split at h
  · cases h
  obtain ⟨root, hroot, rfl⟩ := Option.map_eq_some_iff.1 h
  obtain ⟨new, hnew, hview⟩ := view_alter hroot fun old new hf place hplace => by
    cases old with
    | none =>
        cases hf
        cases place with
        | nil => exact absurd rfl hplace
        | cons name place => rfl
    | some e => cases e <;> cases hf <;> rfl
  refine ⟨⟨rfl, fun place => ?_⟩, by rw [hview, if_pos rfl]; simp⟩
  rw [hview]
  split_ifs with hplace
  · subst hplace
    rw [view]
    cases he : t.root.at? place with
    | none =>
        rw [he] at hnew
        cases hnew
        exact .inr ⟨rfl, rfl, rfl⟩
    | some e =>
        rw [he] at hnew
        cases e <;> cases hnew <;> exact .inl rfl
  · exact .inl rfl

theorem hasFile_iff {t : FileTree} {place : List Text} :
    t.HasFile place ↔ ∃ content, t.root.at? place = some (.file content) := by
  simp only [HasFile, view_eq_file_iff]

theorem isSome_makeDirectory_iff {t : FileTree} {names : List Text} :
    (t.makeDirectory names).isSome ↔ (∀ name ∈ names, isLongName name = false) ∧
      (names = [] ∨ t.HasDirectory names.dropLast) ∧ ¬t.HasFile names := by
  have hlong : names.any isLongName = false ↔ ∀ name ∈ names, isLongName name = false := by
    simp
  rw [← hlong, hasFile_iff, makeDirectory]
  cases names.any isLongName with
  | true => simp
  | false =>
      simp only [Bool.false_eq_true, if_false, Option.isSome_map, true_and]
      rcases List.eq_nil_or_concat' names with rfl | ⟨names, name, rfl⟩
      · cases hroot : t.root <;> simp [Entry.alter, Entry.at?]
      · rw [Entry.isSome_alter, List.dropLast_concat, HasDirectory, view_eq_directory_iff]
        rcases t.root.at? (names ++ [name]) with _ | (_ | _ | _) <;> simp

/-! ### One step -/

/-- Above a place that is there, there are directories. -/
theorem hasDirectory_dropLast {t : FileTree} {place : List Text} (h : t.view place ≠ none) :
    place = [] ∨ t.HasDirectory place.dropLast := by
  rcases List.eq_nil_or_concat' place with rfl | ⟨place, name, rfl⟩
  · exact .inl rfl
  · rw [List.dropLast_concat]
    exact .inr (view_eq_directory_of_concat h)

/-- A step from a directory leads to a place that is in a directory. -/
theorem HasDirectory.dropLast_enter {t : FileTree} {place : List Text} (h : t.HasDirectory place)
    (step : Text) : enter place step = [] ∨ t.HasDirectory (enter place step).dropLast := by
  unfold enter
  split_ifs
  · exact hasDirectory_dropLast h.ne_none
  · rcases hasDirectory_dropLast h.ne_none with rfl | hup
    · exact .inl rfl
    · exact hasDirectory_dropLast hup.ne_none
  · rw [List.dropLast_concat]
    exact .inr h

theorem isSome_makeDirectory_concat {t : FileTree} {done : List Text}
    (hdone : Way t.HasDirectory [] done) (hplace : t.HasDirectory (namesOf done)) (step : Text) :
    (t.makeDirectory (namesOf (done ++ [step]))).isSome ↔
      isLongName step = false ∧ ¬t.HasFile (namesOf (done ++ [step])) := by
  rw [isSome_makeDirectory_iff, namesOf_concat]
  simp only [hplace.dropLast_enter step, true_and, and_congr_left_iff]
  intro _
  constructor
  · intro hshort
    by_contra hlong
    rw [Bool.not_eq_false] at hlong
    rw [enter_of_isLongName hlong] at hshort
    exact absurd (hshort step (by simp)) (by simp [hlong])
  · intro hstep name hname
    rw [← namesOf_concat, namesOf_eq_foldl_enter] at hname
    rcases mem_of_mem_foldl_enter hname with hname | hname
    · cases hname
    · rcases List.mem_append.1 hname with hname | hname
      · exact hdone.isLongName_eq_false hname
      · rwa [List.mem_singleton.1 hname]

/-- Whether a step can be made from a place that has been reached. -/
def CanStep (t : FileTree) (done : List Text) (step : Text) : Prop :=
  t.HasDirectory (namesOf done) ∧ isLongName step = false ∧ ¬t.HasFile (namesOf (done ++ [step]))

/-- A way is reached if its steps can be followed and lead to something. -/
def Reaches (t : FileTree) (done : List Text) : Prop :=
  Way t.HasDirectory [] done ∧ t.view (namesOf done) ≠ none

theorem reaches_nil (t : FileTree) : t.Reaches [] :=
  ⟨trivial, view_nil_ne_none t⟩

/-- What making one step does. -/
theorem makeSteps_cons {t : FileTree} {done : List Text} (hdone : t.Reaches done) (step : Text)
    (steps : List Text) :
    (¬t.CanStep done step ∧ t.makeSteps done (step :: steps) = (t, false)) ∨
      (t.CanStep done step ∧ ∃ t', Grows (· = namesOf (done ++ [step])) t t' ∧
        t'.Reaches (done ++ [step]) ∧
        t.makeSteps done (step :: steps) = t'.makeSteps (done ++ [step]) steps) := by
  obtain ⟨hway, hplace⟩ := hdone
  obtain ⟨e, he⟩ : ∃ e, t.root.at? (namesOf done) = some e := by
    simpa [view, Option.ne_none_iff_exists'] using hplace
  have hwalk : t.root.walk [] done = .ok e := walk_eq_ok_iff.2 ⟨hway, he⟩
  cases e with
  | file _ | sealed =>
      refine .inl ⟨fun h => ?_, by simp [makeSteps, hwalk]⟩
      have hdir := h.1
      simp [HasDirectory, view, he, Entry.kind] at hdir
  | directory entries =>
      have hdir : t.HasDirectory (namesOf done) := view_eq_directory_iff.2 ⟨entries, he⟩
      have hmake := isSome_makeDirectory_concat hway hdir step
      cases ht : t.makeDirectory (namesOf (done ++ [step])) with
      | none =>
          rw [ht] at hmake
          exact .inl ⟨fun h => by simpa using hmake.2 h.2, by simp [makeSteps, hwalk, ht]⟩
      | some t' =>
          rw [ht] at hmake
          obtain ⟨hshort, hfile⟩ := hmake.1 rfl
          obtain ⟨hgrows, hnew⟩ := grows_makeDirectory ht
          refine .inr ⟨⟨hdir, hshort, hfile⟩, t', hgrows, ⟨?_, hnew⟩, by simp [makeSteps, hwalk, ht]⟩
          exact way_append.2 ⟨hway.mono fun _ => hgrows.hasDirectory,
            hgrows.hasDirectory hdir, hshort, trivial⟩

/-! ### A whole way -/

theorem grows_makeSteps {t : FileTree} {done : List Text} (hdone : t.Reaches done)
    (steps : List Text) :
    Grows (fun place => ∃ more, more <+: steps ∧ place = namesOf (done ++ more)) t
      (t.makeSteps done steps).1 := by
  induction steps generalizing t done with
  | nil => exact .refl t
  | cons step steps ih =>
      rcases makeSteps_cons hdone step steps with ⟨-, h⟩ | ⟨-, t', hgrows, hreaches, h⟩
      · rw [h]
        exact .refl t
      · rw [h]
        refine (hgrows.mono ?_).trans ((ih hreaches).mono ?_)
        · rintro _ rfl
          exact ⟨[step], by simp, rfl⟩
        · rintro _ ⟨more, hmore, rfl⟩
          exact ⟨step :: more, (List.prefix_cons_inj step).2 hmore, by simp⟩

/-- A way that could be made is there. -/
theorem reaches_makeSteps {t : FileTree} {done : List Text} (hdone : t.Reaches done)
    {steps : List Text} (h : (t.makeSteps done steps).2 = true) :
    (t.makeSteps done steps).1.Reaches (done ++ steps) := by
  induction steps generalizing t done with
  | nil => simpa [makeSteps] using hdone
  | cons step steps ih =>
      rcases makeSteps_cons hdone step steps with ⟨-, he⟩ | ⟨-, t', -, hreaches, he⟩
      · rw [he] at h
        cases h
      · rw [he] at h ⊢
        simpa using ih hreaches h

/-- On a way with room, a step can be made where the steps before it have led. -/
theorem canStep_of_way {t : FileTree} {done : List Text} (hdone : t.Reaches done) {step : Text}
    {steps : List Text} (hway : Way t.HasRoom (namesOf done) (step :: steps))
    (hfile : ¬t.HasFile (namesOf (done ++ step :: steps))) : t.CanStep done step := by
  obtain ⟨hroom, hshort, hrest⟩ := hway
  refine ⟨hroom.resolve_left hdone.2, hshort, ?_⟩
  rw [namesOf_concat]
  cases steps with
  | nil => rwa [namesOf_concat] at hfile
  | cons next steps => exact hrest.1.not_hasFile

/-- A way can be made if there is room for a directory wherever a step starts, and no file where the
last one ends. -/
theorem makeSteps_eq_true_iff {t : FileTree} {done : List Text} (hdone : t.Reaches done)
    (steps : List Text) :
    (t.makeSteps done steps).2 = true ↔
      Way t.HasRoom (namesOf done) steps ∧ (steps ≠ [] → ¬t.HasFile (namesOf (done ++ steps))) := by
  induction steps generalizing t done with
  | nil => simp [makeSteps, Way]
  | cons step steps ih =>
      rcases makeSteps_cons hdone step steps with ⟨hno, h⟩ | ⟨hcan, t', hgrows, hreaches, h⟩
      · rw [h]
        refine ⟨fun h => absurd h (by simp), ?_⟩
        rintro ⟨hway, hfile⟩
        exact absurd (canStep_of_way hdone hway (hfile (List.cons_ne_nil step steps))) hno
      · have hroom : t'.HasRoom = t.HasRoom := funext fun _ => propext hgrows.hasRoom_iff
        rw [h, ih hreaches, hroom, hgrows.hasFile_iff, namesOf_concat, List.append_assoc,
          List.singleton_append]
        constructor
        · rintro ⟨hway, hfile⟩
          refine ⟨⟨.inr hcan.1, hcan.2.1, hway⟩, fun _ => ?_⟩
          by_cases hsteps : steps = []
          · subst hsteps
            exact hcan.2.2
          · exact hfile hsteps
        · rintro ⟨hway, hfile⟩
          exact ⟨hway.2.2, fun _ => hfile (List.cons_ne_nil step steps)⟩

/-! ### The directories of a path -/

theorem steps_ne_nil (t : FileTree) (path : Text) : t.steps path ≠ [] := by
  have hpieces := Text.pieces_ne_nil '/' path
  unfold steps
  split_ifs <;> simp [hpieces]

/-- What it takes for the directories of a path to be made, as far as they are missing. -/
structure Makable (t : FileTree) (path : Text) : Prop where
  noZero : hasZero path = false
  short : isLong path = false
  way : Way t.HasRoom [] (t.steps path)
  noFile : ¬t.HasFile (namesOf (t.steps path))

theorem makeDirectories_eq_true_iff {t : FileTree} {path : Text} :
    (t.makeDirectories path).2 = true ↔ t.Makable path := by
  rw [makeDirectories]
  split_ifs with hpath
  · refine ⟨fun h => absurd h (by simp), fun h => ?_⟩
    simp [h.noZero, h.short] at hpath
  · obtain ⟨hzero, hlong⟩ : hasZero path = false ∧ isLong path = false := by simpa using hpath
    rw [makeSteps_eq_true_iff t.reaches_nil]
    constructor
    · exact fun h => ⟨hzero, hlong, h.1, h.2 (t.steps_ne_nil path)⟩
    · exact fun h => ⟨h.way, fun _ => h.noFile⟩

theorem grows_makeDirectories (t : FileTree) (path : Text) :
    Grows (fun place => ∃ more, more <+: t.steps path ∧ place = namesOf more) t
      (t.makeDirectories path).1 := by
  rw [makeDirectories]
  split_ifs
  · exact .refl t
  · exact grows_makeSteps t.reaches_nil (t.steps path)

theorem Makable.reaches {t : FileTree} {path : Text} (h : t.Makable path) :
    (t.makeDirectories path).1.Reaches (t.steps path) := by
  have hmade := makeDirectories_eq_true_iff.2 h
  simp only [makeDirectories, h.noZero, h.short, Bool.or_self, Bool.false_eq_true, if_false]
    at hmade ⊢
  exact reaches_makeSteps t.reaches_nil hmade

end DocTags.FileTree
