import DocTags.Text.Basic

/-!
Where a part can stand in a text. A character that the part does not have keeps it on one side.
-/

namespace DocTags.Text

variable {part : Text} {c : Char}

theorem isPrefixOf_append_cons (hc : c ∉ part) (s t : Text) :
    part.isPrefixOf (s ++ c :: t) = part.isPrefixOf s := by
  induction part generalizing s with
  | nil => simp
  | cons d part ih =>
      rw [List.mem_cons, not_or] at hc
      cases s with
      | nil => simp [List.isPrefixOf, Ne.symm hc.1]
      | cons x s => rw [List.cons_append, List.isPrefixOf, List.isPrefixOf, ih hc.2]

theorem contains_append_cons (hc : c ∉ part) (s t : Text) :
    contains part (s ++ c :: t) = (contains part s || contains part t) := by
  induction s with
  | nil =>
      have hprefix := isPrefixOf_append_cons hc [] t
      rw [List.nil_append] at hprefix ⊢
      rw [contains, contains, hprefix]
  | cons x s ih =>
      rw [List.cons_append, contains, contains, ih, ← List.cons_append,
        isPrefixOf_append_cons hc, Bool.or_assoc]

theorem contains_iff_infix {s : Text} : contains part s = true ↔ part <:+: s := by
  induction s with
  | nil => simp [contains]
  | cons x s ih =>
      rw [contains, Bool.or_eq_true, List.isPrefixOf_iff_prefix, ih]
      exact List.infix_cons_iff.symm

theorem contains_eq_false {s : Text} (hpart : c ∈ part) (hs : c ∉ s) : contains part s = false := by
  induction s with
  | nil => cases part <;> simp_all [contains]
  | cons x s ih =>
      have hprefix : part.isPrefixOf (x :: s) = false := by
        rw [Bool.eq_false_iff]
        intro h
        exact hs ((List.isPrefixOf_iff_prefix.1 h).subset hpart)
      rw [contains, hprefix, ih fun h => hs (List.mem_cons_of_mem x h)]
      rfl

end DocTags.Text
