import DocTags.Proofs.FileTree.Ways
import DocTags.Proofs.Text.Pieces
import Mathlib.Data.List.TakeWhile

/-!
The directory of a path. It has the steps of the path up to its last name, apart from steps that
stay where they are.
-/

namespace DocTags

theorem Text.join_isPrefix (sep : Char) {ps : List Text} (hps : ps ≠ []) (more : List Text) :
    Text.join [sep] ps <+: Text.join [sep] (ps ++ more) := by
  obtain ⟨p, ps, rfl⟩ := List.exists_cons_of_ne_nil hps
  rw [List.cons_append, join_cons, join_cons, List.flatMap_append, ← List.append_assoc]
  exact List.prefix_append ..

namespace Path

theorem hasZero_of_isPrefix {p q : Text} (h : p <+: q) (hq : hasZero q = false) :
    hasZero p = false := by
  obtain ⟨rest, rfl⟩ := h
  simp only [hasZero, List.any_append, Bool.or_eq_false_iff] at hq ⊢
  exact hq.1

theorem isLong_of_isPrefix {p q : Text} (h : p <+: q) (hq : isLong q = false) :
    isLong p = false := by
  obtain ⟨rest, rfl⟩ := h
  simp only [isLong, Text.byteLength_append, decide_eq_false_iff_not] at hq ⊢
  omega

/-- A list read backwards ends in the elements that are dropped from it. -/
theorem reverse_eq_append (p : Text → Bool) (xs : List Text) :
    ∃ after, (∀ y ∈ after, p y = true) ∧ xs.reverse = (xs.dropWhile p).reverse ++ after := by
  refine ⟨(xs.takeWhile p).reverse, fun y hy => ?_, ?_⟩
  · exact List.mem_takeWhile_imp (List.mem_reverse.1 hy)
  · rw [← List.reverse_append, List.takeWhile_append_dropWhile]

/-- How the directory of a path has come from the path. -/
structure IsParent (path parent : Text) : Prop where
  isPrefix : parent <+: path
  isAbsolute : isAbsolute parent = isAbsolute path
  pieces : ∃ before idle between last after,
    Text.pieces '/' parent = before ++ idle ∧
    Text.pieces '/' path = before ++ between ++ last :: after ∧
    (∀ step ∈ idle ++ between ++ after, isIdle step = true) ∧ isIdle last = false

theorem isAbsolute_join (first : Text) (rest : List Text) :
    isAbsolute (Text.join ['/'] (first :: rest)) =
      (first.head?.or (if rest = [] then none else some '/') == some '/') := by
  rw [isAbsolute, Text.head?_join]

theorem isParent_of_parent?_eq_some {path parent : Text} (h : parent? path = some parent)
    (hne : parent ≠ []) : IsParent path parent := by
  have hpath := Text.join_pieces '/' path
  have hslash : ∀ p ∈ Text.pieces '/' path, '/' ∉ p := fun _ => Text.not_mem_of_mem_pieces
  unfold parent? at h
  cases hp : Text.pieces '/' path with
  | nil => exact absurd hp (Text.pieces_ne_nil '/' path)
  | cons first rest =>
      rw [hp] at h hpath hslash
      simp only at h
      split at h
      · split at h <;> simp_all
      · next last above hlast =>
          have hidle : isIdle last = false := by
            simpa [hlast] using List.head?_dropWhile_not isIdle rest.reverse
          obtain ⟨after, hafter, hrest⟩ := reverse_eq_append isIdle rest.reverse
          obtain ⟨between, hbetween, habove⟩ := reverse_eq_append isIdle above
          rw [List.reverse_reverse, hlast, List.reverse_cons, habove, List.append_assoc,
            List.append_assoc, List.singleton_append] at hrest
          generalize (above.dropWhile isIdle).reverse = before at h hrest
          have hsteps : ∀ step ∈ between ++ after, isIdle step = true := by
            simpa [or_imp, forall_and] using ⟨hbetween, hafter⟩
          have hnotNil : rest ≠ [] := by simp [hrest]
          split_ifs at h with hroot
          · -- the directory is the root, which is written with an empty step more
            obtain ⟨rfl, rfl⟩ : first = [] ∧ before = [] := by simpa using hroot
            cases h
            refine ⟨?_, ?_, [[]], [[]], between, last, after, rfl, by rw [hp, hrest]; rfl, ?_, hidle⟩
            · obtain ⟨q, ps, rfl⟩ := List.exists_cons_of_ne_nil hnotNil
              rw [← hpath, Text.join_cons_cons]
              exact ⟨_, rfl⟩
            · rw [← hpath, isAbsolute_join, if_neg hnotNil]
              rfl
            · simpa [isIdle] using hsteps
          · cases h
            refine ⟨?_, ?_, first :: before, [], between, last, after, ?_, ?_, ?_, hidle⟩
            · rw [← hpath, hrest]
              exact Text.join_isPrefix '/' (List.cons_ne_nil first before) _
            · rw [← hpath, isAbsolute_join, isAbsolute_join, if_neg hnotNil]
              cases first with
              | nil => rw [if_neg (by simpa using hroot)]
              | cons c first => rfl
            · rw [Text.pieces_join (List.cons_ne_nil first before), List.append_nil]
              intro p hmem
              refine hslash p ?_
              rw [hrest]
              exact List.mem_append_left (between ++ last :: after) hmem
            · rw [hp, hrest, List.append_assoc]
              rfl
            · simpa using hsteps

/-- The steps of the directory of a path are those of the path above its last name, but for steps
that stay where they are. -/
theorem IsParent.steps {path parent : Text} (h : IsParent path parent) (t : FileTree) :
    ∃ above idle between last after, t.steps parent = above ++ idle ∧
      t.steps path = above ++ between ++ last :: after ∧
      (∀ step ∈ idle ++ between ++ after, isIdle step = true) ∧ isIdle last = false := by
  obtain ⟨before, idle, between, last, after, hparent, hpath, hidle, hlast⟩ := h.pieces
  unfold FileTree.steps
  rw [h.isAbsolute, hparent, hpath]
  split_ifs
  · exact ⟨before, idle, between, last, after, rfl, rfl, hidle, hlast⟩
  · exact ⟨t.working ++ before, idle, between, last, after, by simp, by simp, hidle, hlast⟩

theorem parent?_of_notMem {path : Text} (h : '/' ∉ path) :
    parent? path = none ∨ parent? path = some [] := by
  rw [parent?, Text.pieces_of_notMem h]
  cases path <;> simp

/-- A path with a slash and a name behind the last one has a directory. -/
theorem exists_parent {path : Text} (h : '/' ∈ path)
    (hlast : ∀ last ∈ (Text.pieces '/' path).getLast?, isIdle last = false) :
    ∃ parent, parent? path = some parent ∧ parent ≠ [] := by
  cases hp : Text.pieces '/' path with
  | nil => exact absurd hp (Text.pieces_ne_nil '/' path)
  | cons first rest =>
      have hjoin := Text.join_pieces '/' path
      have hfirst : '/' ∉ first := Text.not_mem_of_mem_pieces (s := path) (by simp [hp])
      rcases List.eq_nil_or_concat' rest with rfl | ⟨above, last, rfl⟩
      · obtain rfl : first = path := by simpa [hp, Text.join] using hjoin
        exact absurd h hfirst
      · have hidle : isIdle last = false := by
          refine hlast last ?_
          rw [hp, ← List.cons_append, List.getLast?_concat, Option.mem_some]
        simp only [parent?, hp, List.reverse_append, List.reverse_cons, List.reverse_nil,
          List.nil_append, List.singleton_append, List.dropWhile_cons, hidle, Bool.false_eq_true,
          if_false]
        split_ifs with hroot
        · exact ⟨_, rfl, by simp⟩
        · refine ⟨_, rfl, ?_⟩
          generalize (above.reverse.dropWhile isIdle).reverse = before at hroot
          cases before with
          | nil => simpa [Text.join] using hroot
          | cons p before => simp [Text.join_cons_cons]

end Path
end DocTags
