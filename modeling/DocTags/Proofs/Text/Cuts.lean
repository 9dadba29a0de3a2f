import DocTags.Text.Basic

/-!
Cuts of a text at its first or last character of a kind. A cut is determined by where that character
stands.
-/

namespace DocTags.Text

theorem forall_beq_eq_false_iff {c : Char} {s : Text} :
    (∀ x ∈ s, (x == c) = false) ↔ c ∉ s := by
  simp only [beq_eq_false_iff_ne]
  exact List.forall_mem_ne'

theorem cut?_eq_none_iff {p : Char → Bool} {s : Text} :
    cut? p s = none ↔ ∀ c ∈ s, p c = false := by
  induction s with
  | nil => simp [cut?]
  | cons c s ih => cases h : p c <;> simp [cut?, h, ih]

theorem cut?_append_cons {p : Char → Bool} {before : Text} {c : Char} (after : Text)
    (hbefore : ∀ x ∈ before, p x = false) (hc : p c = true) :
    cut? p (before ++ c :: after) = some (before, after) := by
  induction before with
  | nil => simp [cut?, hc]
  | cons x before ih =>
      have hx : p x = false := hbefore x (by simp)
      simp [cut?, hx, ih fun y hy => hbefore y (by simp [hy])]

/-- The first place of a character is found in one way only. -/
theorem append_cons_inj {c : Char} {before before' after after' : Text} (hbefore : c ∉ before)
    (hbefore' : c ∉ before') :
    before ++ c :: after = before' ++ c :: after' ↔ before = before' ∧ after = after' := by
  have hcut {p : Text} (hp : c ∉ p) (s : Text) : cut? (· == c) (p ++ c :: s) = some (p, s) :=
    cut?_append_cons s (forall_beq_eq_false_iff.2 hp) (by simp)
  constructor
  · intro h
    have hcuts := hcut hbefore after
    rw [h, hcut hbefore' after'] at hcuts
    simpa [eq_comm] using hcuts
  · rintro ⟨rfl, rfl⟩
    rfl

theorem afterLast?_eq_none_iff {p : Char → Bool} {s : Text} :
    afterLast? p s = none ↔ ∀ c ∈ s, p c = false := by
  induction s with
  | nil => simp [afterLast?]
  | cons c s ih =>
      rw [List.forall_mem_cons, ← ih, afterLast?]
      cases afterLast? p s <;> cases p c <;> simp

theorem forall_of_afterLast?_eq_some {p : Char → Bool} {s after : Text}
    (h : afterLast? p s = some after) : ∀ x ∈ after, p x = false := by
  induction s with
  | nil => cases h
  | cons c s ih =>
      rw [afterLast?] at h
      split at h
      · next hs => exact ih (hs.trans h)
      · next hs =>
          obtain ⟨-, rfl⟩ : p c = true ∧ s = after := by simpa using h
          exact afterLast?_eq_none_iff.1 hs

theorem afterLast?_append_of_forall {p : Char → Bool} {s : Text} (h : ∀ c ∈ s, p c = false)
    (t : Text) : afterLast? p (s ++ t) = afterLast? p t := by
  induction s with
  | nil => rfl
  | cons c s ih =>
      rw [List.forall_mem_cons] at h
      rw [List.cons_append, afterLast?, ih h.2, h.1]
      cases afterLast? p t <;> rfl

theorem afterLast?_append_cons {p : Char → Bool} {c : Char} (s : Text) (hc : p c = true)
    (t : Text) : afterLast? p (s ++ c :: t) = some ((afterLast? p t).getD t) := by
  induction s with
  | nil => cases h : afterLast? p t <;> simp [afterLast?, h, hc]
  | cons d s ih => rw [List.cons_append, afterLast?, ih]

theorem exists_append_of_afterLast? {c : Char} {s after : Text}
    (h : afterLast? (· == c) s = some after) : ∃ before, s = before ++ c :: after := by
  induction s with
  | nil => cases h
  | cons d s ih =>
      rw [afterLast?] at h
      split at h
      · next hs =>
          obtain ⟨before, hbefore⟩ := ih (hs.trans h)
          exact ⟨d :: before, by rw [hbefore, List.cons_append]⟩
      · obtain ⟨rfl, rfl⟩ : d = c ∧ s = after := by simpa using h
        exact ⟨[], rfl⟩

theorem afterLast?_beq_eq_some_iff {c : Char} {s after : Text} :
    afterLast? (· == c) s = some after ↔ ∃ before, s = before ++ c :: after ∧ c ∉ after := by
  constructor
  · intro h
    obtain ⟨before, hs⟩ := exists_append_of_afterLast? h
    exact ⟨before, hs, forall_beq_eq_false_iff.1 (forall_of_afterLast?_eq_some h)⟩
  · rintro ⟨before, rfl, hafter⟩
    have hnone : afterLast? (· == c) after = none :=
      afterLast?_eq_none_iff.2 (forall_beq_eq_false_iff.2 hafter)
    simp [afterLast?_append_cons, hnone]

end DocTags.Text
