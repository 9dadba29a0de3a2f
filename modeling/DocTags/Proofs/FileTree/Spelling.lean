import DocTags.Proofs.FileTree.Writing

/-!
Spellings of places. Where a path leads to depends on its components alone. The converse fails: a
dot at the start, a step upwards and the way from the root are other components for the same place.
Paths that are written alike in this respect lead to one place only if their components are the
same.
-/

namespace DocTags

namespace Path

/-- The place that a component leads to. -/
def Component.enter (place : List Text) : Component → List Text
  | root => []
  | here => place
  | parent => place.dropLast
  | name n => place ++ [n]

theorem foldl_enter_ofPiece? (steps place : List Text) :
    (steps.filterMap Component.ofPiece?).foldl Component.enter place = steps.foldl enter place := by
  induction steps generalizing place with
  | nil => rfl
  | cons step steps ih =>
      rw [List.filterMap_cons, List.foldl_cons, Component.ofPiece?, enter]
      split_ifs with hidle hup
      · exact ih place
      · exact ih place.dropLast
      · exact ih (place ++ [step])

theorem ofPiece?_cases (piece : Text) :
    Component.ofPiece? piece = none ∨ Component.ofPiece? piece = some .parent ∨
      Component.ofPiece? piece = some (.name piece) := by
  unfold Component.ofPiece?
  split_ifs <;> simp

theorem filterMap_ofPiece?_cons (first : Text) (rest : List Text) :
    (first :: rest).filterMap Component.ofPiece? =
      (Component.ofPiece? first).toList ++ rest.filterMap Component.ofPiece? := by
  cases hpiece : Component.ofPiece? first <;> simp [hpiece]

/-- The components of a path with these pieces. -/
def componentsOf (absolute : Bool) : List Text → List Component
  | [] => []
  | first :: rest =>
    (if absolute then [Component.root]
      else if first = ['.'] then [Component.here]
      else (Component.ofPiece? first).toList) ++ rest.filterMap Component.ofPiece?

theorem components_eq_componentsOf (path : Text) :
    components path = componentsOf (isAbsolute path) (Text.pieces '/' path) := by
  unfold components componentsOf
  cases Text.pieces '/' path <;> rfl

theorem componentsOf_concat (absolute : Bool) {pieces : List Text} (h : pieces ≠ [])
    (piece : Text) :
    componentsOf absolute (pieces ++ [piece]) =
      componentsOf absolute pieces ++ (Component.ofPiece? piece).toList := by
  obtain ⟨first, rest, rfl⟩ := List.exists_cons_of_ne_nil h
  cases hpiece : Component.ofPiece? piece <;> simp [componentsOf, hpiece]

/-! ### Places -/

theorem foldl_enter_componentsOf (absolute : Bool) (first : Text) (rest place : List Text) :
    (componentsOf absolute (first :: rest)).foldl Component.enter place =
      if absolute then rest.foldl enter [] else (first :: rest).foldl enter place := by
  rw [componentsOf]
  cases absolute with
  | true => exact foldl_enter_ofPiece? rest []
  | false =>
      by_cases hdot : first = ['.']
      · subst hdot
        exact foldl_enter_ofPiece? rest place
      · rw [if_neg Bool.false_ne_true, if_neg hdot, if_neg Bool.false_ne_true,
          ← filterMap_ofPiece?_cons, foldl_enter_ofPiece?]

theorem exists_pieces_of_isAbsolute {path : Text} (h : isAbsolute path = true) :
    ∃ rest, Text.pieces '/' path = [] :: rest := by
  cases path with
  | nil => cases h
  | cons c s =>
      obtain rfl : c = '/' := by simpa [isAbsolute] using h
      exact ⟨Text.pieces '/' s, by rw [Text.pieces_cons, if_pos rfl]⟩

end Path

namespace FileTree

open DocTags.Path

/-- A path leads where its components lead from the working directory. -/
theorem place_eq_foldl_components (t : FileTree) (path : Text) :
    t.place path = (components path).foldl Component.enter (namesOf t.working) := by
  rw [place, steps, components_eq_componentsOf]
  cases habsolute : isAbsolute path with
  | true =>
      obtain ⟨rest, hrest⟩ := exists_pieces_of_isAbsolute habsolute
      rw [if_pos rfl, hrest, foldl_enter_componentsOf]
      rfl
  | false =>
      obtain ⟨first, rest, hpieces⟩ := List.exists_cons_of_ne_nil (Text.pieces_ne_nil '/' path)
      rw [if_neg Bool.false_ne_true, hpieces, foldl_enter_componentsOf, namesOf_append]
      rfl

theorem place_congr (t : FileTree) {p q : Text} (h : components p = components q) :
    t.place p = t.place q := by
  rw [place_eq_foldl_components, place_eq_foldl_components, h]

end FileTree

namespace Path

/-! ### Children -/

theorem isAbsolute_child {directory : Text} (h : directory ≠ []) (name : Text) :
    isAbsolute (child directory name) = isAbsolute directory := by
  obtain ⟨c, s, rfl⟩ := List.exists_cons_of_ne_nil h
  unfold child
  split <;> rfl

theorem components_child {directory name : Text} (h : directory ≠ []) (hname : IsName name)
    (hslash : '/' ∉ name) :
    components (child directory name) = components directory ++ [.name name] := by
  have hpiece : Component.ofPiece? name = some (.name name) := by
    simp [Component.ofPiece?, hname.1, hname.2]
  rw [components_eq_componentsOf, components_eq_componentsOf, isAbsolute_child h, child]
  split
  · next hlast =>
      -- the slash at the end leaves an empty piece, which is no component
      obtain ⟨s, rfl⟩ := List.getLast?_eq_some_iff.1 hlast
      have hpieces := Text.pieces_ne_nil '/' s
      have hdirectory : Text.pieces '/' (s ++ ['/']) = Text.pieces '/' s ++ [[]] :=
        Text.pieces_append '/' s []
      rw [hdirectory, List.append_assoc, List.singleton_append, Text.pieces_append,
        Text.pieces_of_notMem hslash, componentsOf_concat _ hpieces, componentsOf_concat _ hpieces,
        hpiece]
      simp [Component.ofPiece?, isIdle]
  · rw [Text.pieces_append, Text.pieces_of_notMem hslash,
      componentsOf_concat _ (Text.pieces_ne_nil '/' directory), hpiece]
    rfl

/-! ### Paths that are written alike -/

/-- Paths without steps upwards that all begin at the root, or all with a dot, or all with neither
of them. -/
def Alike (ps : List Text) : Prop :=
  ∀ p ∈ ps, Component.parent ∉ components p ∧ ∀ q ∈ ps,
    (Component.root ∈ components p ↔ Component.root ∈ components q) ∧
      (Component.here ∈ components p ↔ Component.here ∈ components q)

instance (ps : List Text) : Decidable (Alike ps) := by
  unfold Alike
  infer_instance

theorem exists_names_of_pieces {steps : List Text}
    (h : Component.parent ∉ steps.filterMap Component.ofPiece?) :
    ∃ names : List Text, steps.filterMap Component.ofPiece? = names.map .name := by
  induction steps with
  | nil => exact ⟨[], rfl⟩
  | cons step steps ih =>
      rw [List.filterMap_cons] at h ⊢
      rcases ofPiece?_cases step with hpiece | hpiece | hpiece
      · rw [hpiece] at h ⊢
        exact ih h
      · rw [hpiece] at h
        exact absurd List.mem_cons_self h
      · rw [hpiece] at h ⊢
        obtain ⟨names, hnames⟩ := ih fun hmem => h (List.mem_cons_of_mem _ hmem)
        exact ⟨step :: names, congrArg (Component.name step :: ·) hnames⟩

/-- A path without steps upwards has names only, but for its start. -/
theorem exists_names {p : Text} (h : Component.parent ∉ components p) :
    ∃ names : List Text, components p = .root :: names.map .name ∨
      components p = .here :: names.map .name ∨ components p = names.map .name := by
  obtain ⟨first, rest, hpieces⟩ := List.exists_cons_of_ne_nil (Text.pieces_ne_nil '/' p)
  rw [components_eq_componentsOf, hpieces, componentsOf] at h ⊢
  have hrest : Component.parent ∉ rest.filterMap Component.ofPiece? :=
    fun hmem => h (List.mem_append_right _ hmem)
  obtain ⟨names, hnames⟩ := exists_names_of_pieces hrest
  split_ifs at h ⊢ with habsolute hdot
  · exact ⟨names, .inl (congrArg _ hnames)⟩
  · exact ⟨names, .inr (.inl (congrArg _ hnames))⟩
  · rw [← filterMap_ofPiece?_cons] at h ⊢
    obtain ⟨names, hnames⟩ := exists_names_of_pieces h
    exact ⟨names, .inr (.inr hnames)⟩

theorem foldl_enter_names (names place : List Text) :
    (names.map Component.name).foldl Component.enter place = place ++ names := by
  induction names generalizing place with
  | nil => simp
  | cons n names ih => rw [List.map_cons, List.foldl_cons, ih]; simp [Component.enter]

theorem Alike.place_eq_iff {ps : List Text} (h : Alike ps) (t : FileTree) {p q : Text}
    (hp : p ∈ ps) (hq : q ∈ ps) : t.place p = t.place q ↔ components p = components q := by
  refine ⟨fun hplace => ?_, t.place_congr⟩
  obtain ⟨hparent, hall⟩ := h p hp
  obtain ⟨hroot, hhere⟩ := hall q hq
  obtain ⟨names, hnames⟩ := exists_names hparent
  obtain ⟨names', hnames'⟩ := exists_names (h q hq).1
  rw [FileTree.place_eq_foldl_components, FileTree.place_eq_foldl_components] at hplace
  rcases hnames with hp' | hp' | hp' <;> rcases hnames' with hq' | hq' | hq' <;>
    simp_all [Component.enter, foldl_enter_names]

end Path
end DocTags
