import DocTags.Proofs.FileTree.Writing
import DocTags.Run

/-!
What it takes to write a document to a file, and what writing it does to a tree. The directories on
the way to the file are made first. They stay when the file itself can not be written; no file is
touched then.
-/

namespace DocTags

namespace FileTree

open DocTags.Path

/-- The places on the way to the last step of a path. -/
def OnWay (t : FileTree) (path : Text) (place : List Text) : Prop :=
  ∃ before, before <+: t.way path ∧ place = namesOf before

/-- What it takes for a file to be written, the directories on its way being made first. -/
structure Writable (t : FileTree) (path : Text) : Prop where
  noZero : hasZero path = false
  short : isLong path = false
  named : IsName (t.lastStep path)
  /-- A path without a slash leads through the working directory, which is not made. -/
  way : Way (if '/' ∈ path then t.HasRoom else t.HasDirectory) [] (t.steps path)
  free : t.IsFree (t.place path)
  /-- The way may not pass the place of the file itself. -/
  apart : ¬t.OnWay path (t.place path)

theorem HasDirectory.hasRoom {t : FileTree} {place : List Text} (h : t.HasDirectory place) :
    t.HasRoom place :=
  .inr h

/-- Makes the directory for a file, if its path has one. -/
def makeParent (t : FileTree) (path : Text) : FileTree × Bool :=
  match parent? path with
  | none | some [] => (t, true)
  | some parent => t.makeDirectories parent

theorem makeParent_of_notMem {t : FileTree} {path : Text} (h : '/' ∉ path) :
    t.makeParent path = (t, true) := by
  rcases parent?_of_notMem h with h | h <;> simp [makeParent, h]

theorem makeParent_of_eq_some {t : FileTree} {path parent : Text} (h : parent? path = some parent)
    (hne : parent ≠ []) : t.makeParent path = t.makeDirectories parent := by
  cases parent with
  | nil => exact absurd rfl hne
  | cons c parent => simp [makeParent, h]

theorem makeParent_eq_true_iff {t : FileTree} {path : Text} :
    (t.makeParent path).2 = true ↔
      ∀ parent, parent? path = some parent → parent ≠ [] → t.Makable parent := by
  unfold makeParent
  split
  · next h => simp [h]
  · next h => simp [h]
  · next parent hne h =>
      rw [makeDirectories_eq_true_iff]
      constructor
      · rintro hmakable _ h' -
        rwa [← Option.some_inj.1 (h.symm.trans h')]
      · exact fun hall => hall parent h hne

theorem grows_makeParent (t : FileTree) (path : Text) :
    Grows (t.OnWay path) t (t.makeParent path).1 := by
  unfold makeParent
  split
  · exact .refl t
  · exact .refl t
  · next parent hne hparent =>
      obtain ⟨above, idle, between, last, after, hsteps, hpath, hidle, -⟩ :=
        (isParent_of_parent?_eq_some hparent hne).steps t
      refine (t.grows_makeDirectories parent).mono ?_
      rintro _ ⟨more, hmore, rfl⟩
      have habove : above <+: t.way path := by
        rw [way, hpath, List.append_assoc, List.dropLast_append_of_ne_nil (by simp)]
        exact List.prefix_append ..
      rw [hsteps] at hmore
      rcases List.prefix_or_prefix_of_prefix hmore (List.prefix_append above idle) with h | h
      · exact ⟨more, h.trans habove, rfl⟩
      · -- the steps that stay where they are lead to no other place
        obtain ⟨rest, rfl⟩ := h
        have hrest : ∀ step ∈ rest, isIdle step = true := fun step hstep =>
          hidle step (by simp [((List.prefix_append_right_inj above).1 hmore).subset hstep])
        exact ⟨above, habove, by rw [namesOf_append, foldl_enter_of_isIdle hrest]⟩

/-- Where there is room on the way to a file, the way can be made. -/
theorem way_makeParent_of_mem {t : FileTree} {path : Text} (hslash : '/' ∈ path)
    (hzero : hasZero path = false) (hlong : isLong path = false) (hname : IsName (t.lastStep path))
    (hway : Way t.HasRoom [] (t.steps path)) :
    (t.makeParent path).2 = true ∧ Way (t.makeParent path).1.HasDirectory [] (t.steps path) := by
  obtain ⟨parent, hparent, hne⟩ := exists_parent_of_isName hslash hname
  have his := isParent_of_parent?_eq_some hparent hne
  obtain ⟨above, idle, between, hsteps, hpath, hidle, hbetween⟩ := way_of_isParent his hname
  have hplace : namesOf (t.way path) = namesOf above := by
    rw [hpath, namesOf_append, foldl_enter_of_isIdle hbetween]
  have hplace' : namesOf (t.steps parent) = namesOf above := by
    rw [hsteps, namesOf_append, foldl_enter_of_isIdle hidle]
  rw [way_steps_iff, hplace, hpath, way_append] at hway ⊢
  obtain ⟨⟨habove, -⟩, hroom, hshort⟩ := hway
  have hmakable : t.Makable parent :=
    { noZero := hasZero_of_isPrefix his.isPrefix hzero
      short := isLong_of_isPrefix his.isPrefix hlong
      way := hsteps ▸ way_append.2 ⟨habove, way_of_isIdle hroom hidle⟩
      noFile := hplace' ▸ hroom.not_hasFile }
  rw [makeParent_of_eq_some hparent hne]
  refine ⟨makeDirectories_eq_true_iff.2 hmakable, ?_⟩
  obtain ⟨hreached, hthere⟩ := hmakable.reaches
  rw [hplace'] at hthere
  have hdirectory : (t.makeDirectories parent).1.HasDirectory (namesOf above) :=
    (((grows_makeDirectories t parent).hasRoom_iff).2 hroom).resolve_left hthere
  rw [hsteps, way_append] at hreached
  exact ⟨⟨hreached.1, way_of_isIdle hdirectory hbetween⟩, hdirectory, hshort⟩

/-- A step starts at each place on the way to the last one. -/
theorem OnWay.start {t : FileTree} {path : Text} {place : List Text} (h : t.OnWay path place)
    {start : List Text → Prop} (hway : Way start [] (t.steps path)) : start place := by
  obtain ⟨before, ⟨rest, hrest⟩, rfl⟩ := h
  rw [steps_eq_concat, ← hrest] at hway
  cases rest with
  | nil =>
      rw [List.append_nil] at hway
      exact hway.of_append_cons
  | cons step rest =>
      rw [List.append_assoc, List.cons_append] at hway
      exact hway.of_append_cons

section Growth

variable {places : List Text → Prop} {t t' : FileTree} {place : List Text}

theorem Grows.isFree_of (h : Grows places t t') (hfree : t'.IsFree place) : t.IsFree place := by
  rcases h.view place with hview | ⟨-, hdirectory, -⟩
  · simpa only [IsFree, HasFile, hview] using hfree
  · exact absurd hdirectory hfree.not_hasDirectory

theorem Grows.isFree (h : Grows places t t') (hfree : t.IsFree place) (hplace : ¬places place) :
    t'.IsFree place := by
  rcases h.view place with hview | ⟨-, -, hnew⟩
  · simpa only [IsFree, HasFile, hview] using hfree
  · exact absurd hnew hplace

end Growth

theorem Writable.way_makeParent {t : FileTree} {path : Text} (h : t.Writable path) :
    (t.makeParent path).2 = true ∧ Way (t.makeParent path).1.HasDirectory [] (t.steps path) := by
  have hway := h.way
  split_ifs at hway with hslash
  · exact way_makeParent_of_mem hslash h.noZero h.short h.named hway
  · rw [makeParent_of_notMem hslash]
    exact ⟨rfl, hway⟩

/-- Where a file can be written once the directories on its way are made. -/
theorem writable_iff {t : FileTree} {path : Text} (content : ByteArray) :
    t.Writable path ↔ (t.makeParent path).2 = true ∧
      ((t.makeParent path).1.writeFile path content).isSome := by
  have hgrows := t.grows_makeParent path
  have hsteps := hgrows.steps_eq path
  have hlast : (t.makeParent path).1.lastStep path = t.lastStep path := by
    simp only [lastStep, hsteps]
  have hplace : (t.makeParent path).1.place path = t.place path := by
    simp only [place, hsteps]
  rw [isSome_writeFile_iff, hsteps, hlast, hplace]
  constructor
  · intro h
    obtain ⟨hmade, hway⟩ := h.way_makeParent
    exact ⟨hmade, h.noZero, h.short, h.named, hway, hgrows.isFree h.free h.apart⟩
  · rintro ⟨-, hzero, hlong, hname, hway, hfree⟩
    refine ⟨hzero, hlong, hname, ?_, hgrows.isFree_of hfree, fun hpassed => ?_⟩
    · split_ifs with hslash
      · exact hway.mono fun _ h => hgrows.hasRoom_iff.1 h.hasRoom
      · rwa [makeParent_of_notMem hslash] at hway
    · exact hfree.not_hasDirectory (hpassed.start hway)

/-- A tree with new content in a file, and no other change than directories on the way to it. -/
structure Stores (t : FileTree) (path : Text) (content : ByteArray) (t' : FileTree) : Prop where
  working : t'.working = t.working
  found : t'.find path = .ok (.file content)
  there : t'.view (t.place path) = some (.file content)
  elsewhere : ∀ place ≠ t.place path, t'.view place = t.view place ∨
    t.view place = none ∧ t'.view place = some .directory ∧ t.OnWay path place

end FileTree

namespace Run

open FileTree

/-- What is told of a file that can not be written. -/
inductive Unwritten (t : FileTree) (path : Text) : RunFault → Prop
  | directory {parent : Text} (hparent : Path.parent? path = some parent) (hne : parent ≠ [])
      (hmakable : ¬t.Makable parent) : Unwritten t path (.directoryNotMade parent)
  | file (hparent : ∀ parent, Path.parent? path = some parent → parent ≠ [] → t.Makable parent) :
      Unwritten t path (.fileNotWritten path)

theorem write_eq (t : FileTree) (path content : Text) :
    write t path content =
      match t.makeParent path with
      | (t', true) =>
        match t'.writeFile path (String.ofList content).toUTF8 with
        | some t'' => (none, t'')
        | none => (some (.fileNotWritten path), t')
      | (t', false) => (some (.directoryNotMade ((Path.parent? path).getD [])), t') := by
  unfold write makeParent
  rcases Path.parent? path with _ | _ | ⟨c, parent⟩ <;> rfl

/-- A document is written if it can be; otherwise directories on its way may be made, and nothing
else. -/
theorem write_cases (t : FileTree) (path content : Text) :
    (t.Writable path ∧ (write t path content).1 = none ∧
        t.Stores path (String.ofList content).toUTF8 (write t path content).2) ∨
      (¬t.Writable path ∧
        (∃ fault, (write t path content).1 = some fault ∧ Unwritten t path fault) ∧
        Grows (t.OnWay path) t (write t path content).2) := by
  have hgrows := t.grows_makeParent path
  rw [writable_iff (String.ofList content).toUTF8, write_eq]
  have hparent : (t.makeParent path).2 = true ↔ _ := makeParent_eq_true_iff
  generalize t.makeParent path = made at hgrows hparent
  obtain ⟨t', made⟩ := made
  replace hgrows : Grows (t.OnWay path) t t' := hgrows
  cases made with
  | false =>
      refine .inr ⟨fun h => absurd h.1 (by simp), ⟨_, rfl, ?_⟩, hgrows⟩
      obtain ⟨parent, h, hne, hmakable⟩ : ∃ parent, Path.parent? path = some parent ∧
          parent ≠ [] ∧ ¬t.Makable parent := by simpa using hparent
      rw [h]
      exact .directory h hne hmakable
  | true =>
      simp only [true_and]
      cases hwritten : t'.writeFile path (String.ofList content).toUTF8 with
      | none =>
          exact .inr ⟨by simp, ⟨_, rfl, .file (hparent.1 rfl)⟩, hgrows⟩
      | some t'' =>
          obtain ⟨hworking, hview⟩ := view_writeFile hwritten
          rw [hgrows.steps_eq path, ← place] at hview
          refine .inl ⟨by simp, rfl, hworking.trans hgrows.working, find_writeFile hwritten, ?_, ?_⟩
          · rw [hview, if_pos rfl]
          · intro place hne
            rw [hview, if_neg hne]
            exact hgrows.view place

end Run
end DocTags
