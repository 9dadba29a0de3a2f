import Mathlib.Algebra.BigOperators.Group.Finset.Basic
import Mathlib.Algebra.Ring.Nat
import Mathlib.Data.List.Induction
import Mathlib.Data.List.Nodup

/-!
The distinct elements of a list in the order in which they first come, which is what
`List.eraseDups` keeps. The laws are stated for a list that is continued at its end, since every
map of this library is filled in that direction.
-/

namespace DocTags

variable {α β : Type} [BEq α] [LawfulBEq α] [BEq β] [LawfulBEq β]

theorem eraseDups_concat (xs : List α) (x : α) :
    (xs ++ [x]).eraseDups = if x ∈ xs then xs.eraseDups else xs.eraseDups ++ [x] := by
  rw [List.eraseDups_append]
  by_cases h : x ∈ xs
  · simp [List.removeAll, h]
  · simp [List.removeAll, List.eraseDups_cons, h]

theorem nodup_eraseDups (xs : List α) : xs.eraseDups.Nodup := by
  induction xs using List.reverseRecOn with
  | nil => simp
  | append_singleton xs x ih =>
      rw [eraseDups_concat]
      by_cases h : x ∈ xs
      · simpa only [h, if_true] using ih
      · simpa [h, List.nodup_append] using ⟨ih, fun y hy e => h (e ▸ hy)⟩

theorem eraseDups_of_nodup {xs : List α} (h : xs.Nodup) : xs.eraseDups = xs := by
  induction xs using List.reverseRecOn with
  | nil => simp
  | append_singleton xs x ih =>
      have hx : x ∉ xs := fun hx => List.disjoint_of_nodup_append h hx (by simp)
      rw [eraseDups_concat, if_neg hx, ih (List.Nodup.of_append_left h)]

/-- Distinct elements stay distinct under an injective function. -/
theorem eraseDups_map {f : α → β} (hf : f.Injective) (xs : List α) :
    (xs.map f).eraseDups = xs.eraseDups.map f := by
  induction xs using List.reverseRecOn with
  | nil => rfl
  | append_singleton xs x ih =>
      rw [List.map_append, List.map_singleton, eraseDups_concat, eraseDups_concat, ih]
      by_cases h : x ∈ xs <;> simp [h, List.mem_map_of_injective hf]

/-- A list is as long as its distinct elements with all further occurrences. -/
theorem length_eq_length_eraseDups_add [DecidableEq α] {xs twice : List α} (hnodup : twice.Nodup)
    (hmem : ∀ x, x ∈ twice ↔ 2 ≤ xs.countP fun y => y = x) :
    xs.length = xs.eraseDups.length + (twice.map fun x => xs.countP (fun y => y = x) - 1).sum := by
  have hdistinct : xs.eraseDups.length = xs.toFinset.card := by
    rw [← List.toFinset_card_of_nodup (nodup_eraseDups xs)]
    congr 1
    ext x
    simp
  have hpos : ∀ x, 0 < xs.countP (fun y => y = x) ↔ x ∈ xs.toFinset := by
    simp [List.countP_pos_iff]
  have hsub : twice.toFinset ⊆ xs.toFinset := by
    intro x hx
    rw [List.mem_toFinset, hmem] at hx
    exact (hpos x).1 (Nat.lt_of_succ_lt hx)
  have hrest : ∀ x ∈ xs.toFinset, x ∉ twice.toFinset → xs.countP (fun y => y = x) - 1 = 0 := by
    intro x _ hx
    rw [List.mem_toFinset, hmem] at hx
    omega
  calc xs.length
      = ∑ x ∈ xs.toFinset, xs.countP (fun y => y = x) :=
        (List.sum_toFinset_count_eq_length xs).symm
    _ = ∑ x ∈ xs.toFinset, (1 + (xs.countP (fun y => y = x) - 1)) := by
        refine Finset.sum_congr rfl fun x hx => ?_
        have hx := (hpos x).2 hx
        omega
    _ = xs.toFinset.card + ∑ x ∈ xs.toFinset, (xs.countP (fun y => y = x) - 1) := by
        rw [Finset.sum_add_distrib, Finset.card_eq_sum_ones]
    _ = xs.eraseDups.length + ∑ x ∈ twice.toFinset, (xs.countP (fun y => y = x) - 1) := by
        rw [hdistinct, Finset.sum_subset hsub hrest]
    _ = xs.eraseDups.length + (twice.map fun x => xs.countP (fun y => y = x) - 1).sum := by
        rw [List.sum_toFinset _ hnodup]

end DocTags
