import DocTags.FileTree.Path
import Mathlib.Data.Char
import Mathlib.Data.List.Lex
import Mathlib.Data.Prod.Lex

/-!
The order of paths. It is the lexicographic order of their components, and the names among these
are in the lexicographic order of their characters. It is therefore linear up to what does not
matter in a path: paths that are neither before nor behind each other have the same components.
-/

namespace DocTags

section

variable {α : Type} [LinearOrder α]

theorem nil_le_list (s : List α) : [] ≤ s := by
  cases s with
  | nil => exact le_refl []
  | cons a s => exact le_of_lt List.Lex.nil

theorem not_cons_le_nil (a : α) (s : List α) : ¬a :: s ≤ [] := by
  rw [not_le]
  exact List.Lex.nil

theorem list_cons_le_cons_iff {a b : α} {s t : List α} :
    a :: s ≤ b :: t ↔ a < b ∨ a = b ∧ s ≤ t := by
  have hlt : a :: s < b :: t ↔ a < b ∨ a = b ∧ s < t := List.cons_lex_cons_iff
  rw [le_iff_lt_or_eq, le_iff_lt_or_eq, hlt, List.cons.injEq, and_or_left, or_assoc]

end

namespace Path

theorem nameLe_iff {n m : Text} : nameLe n m = true ↔ n ≤ m := by
  induction n generalizing m with
  | nil => simp [nameLe, nil_le_list]
  | cons c n ih =>
      cases m with
      | nil => simp [nameLe, not_cons_le_nil]
      | cons d m =>
          rw [nameLe, list_cons_le_cons_iff]
          by_cases h : c = d
          · simp [h, ih]
          · simp [h]

namespace Component

/-- What decides about the order of a component: its rank, and for a name its characters. -/
def key : Component → ℕ ×ₗ List Char
  | name n => toLex (3, n)
  | c => toLex (c.rank, [])

theorem key_injective : Function.Injective key := by
  intro a b h
  cases a <;> cases b <;> simp_all [key, rank]

theorem le_iff {a b : Component} : a.le b = true ↔ a.key ≤ b.key := by
  cases a <;> cases b <;> simp [le, key, rank, Prod.Lex.toLex_le_toLex, nameLe_iff]

end Component

theorem componentsLe_iff {as bs : List Component} :
    componentsLe as bs = true ↔ as.map Component.key ≤ bs.map Component.key := by
  induction as generalizing bs with
  | nil => simp [componentsLe, nil_le_list]
  | cons a as ih =>
      cases bs with
      | nil => simp [componentsLe, not_cons_le_nil]
      | cons b bs =>
          rw [List.map_cons, List.map_cons, list_cons_le_cons_iff, componentsLe]
          by_cases h : a = b
          · simp [h, ih]
          · have hkey : a.key ≠ b.key := Component.key_injective.ne h
            simp [h, hkey, Component.le_iff, le_iff_lt_or_eq]

theorem le_iff {p q : Text} :
    le p q = true ↔ (components p).map Component.key ≤ (components q).map Component.key :=
  componentsLe_iff

theorem le_trans {p q r : Text} (hpq : le p q = true) (hqr : le q r = true) : le p r = true :=
  le_iff.2 ((le_iff.1 hpq).trans (le_iff.1 hqr))

theorem le_total (p q : Text) : (le p q || le q p) = true := by
  rw [Bool.or_eq_true, le_iff, le_iff]
  exact LinearOrder.le_total _ _

/-- Paths that can stand in either order have the same components. -/
theorem components_eq_of_le_of_le {p q : Text} (hpq : le p q = true) (hqp : le q p = true) :
    components p = components q :=
  Component.key_injective.list_map (le_antisymm (le_iff.1 hpq) (le_iff.1 hqp))

/-- The strict order of paths. -/
def Before (p q : Text) : Prop :=
  le p q = true ∧ le q p = false

instance : Std.Irrefl Before :=
  ⟨fun _ h => Bool.false_ne_true (h.2.symm.trans h.1)⟩

instance : Std.Antisymm Before :=
  ⟨fun _ _ hpq hqp => absurd (hqp.2.symm.trans hpq.1) Bool.false_ne_true⟩

/-- Sorting paths that differ in their components leaves each one before all that follow it. -/
theorem pairwise_before_mergeSort {ps : List Text} (h : (ps.map components).Nodup) :
    (ps.mergeSort le).Pairwise Before := by
  have hsorted : (ps.mergeSort le).Pairwise fun p q => le p q = true := by
    apply List.pairwise_mergeSort
    · exact fun _ _ _ => le_trans
    · exact le_total
  have hdistinct : (ps.mergeSort le).Pairwise fun p q => components p ≠ components q :=
    List.pairwise_map.1 (((List.mergeSort_perm ps le).map components).nodup_iff.2 h)
  refine (hsorted.and hdistinct).imp fun ⟨hle, hne⟩ => ⟨hle, ?_⟩
  exact Bool.eq_false_iff.2 fun hge => hne (components_eq_of_le_of_le hle hge)

end Path
end DocTags
