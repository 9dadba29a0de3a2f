import DocTags.Json.Reader
import Mathlib.Data.List.DropRight
import Mathlib.Tactic.ByContra

/-!
The reader of values behind a gap. A gap in front of a value does not matter, and the first character
behind it decides what is read: a string, an array, an object, a word or a numeral.
-/

namespace DocTags.Json

theorem skipGap_append {gap : Text} (hgap : ∀ c ∈ gap, isGap c = true) (s : Text) :
    skipGap (gap ++ s) = skipGap s :=
  List.dropWhile_append_of_pos hgap

theorem skipGap_cons {c : Char} (hc : isGap c = false) (s : Text) : skipGap (c :: s) = c :: s :=
  List.dropWhile_cons_of_neg (by simp [hc])

theorem skipGap_skipGap (s : Text) : skipGap (skipGap s) = skipGap s :=
  List.dropWhile_idempotent isGap s

/-- A gap in front of a value does not matter. -/
theorem readTree_congr (fuel : Nat) {s t : Text} (h : skipGap s = skipGap t) :
    readTree fuel s = readTree fuel t := by
  cases fuel with
  | zero => rfl
  | succ fuel => rw [readTree, readTree, h]

theorem readItems_congr (fuel : Nat) {s t : Text} (h : skipGap s = skipGap t) :
    readItems fuel s = readItems fuel t := by
  cases fuel with
  | zero => rfl
  | succ fuel => rw [readItems, readItems, readTree_congr fuel h]

theorem readMembers_congr (fuel : Nat) {s t : Text} (h : skipGap s = skipGap t) :
    readMembers fuel s = readMembers fuel t := by
  cases fuel with
  | zero => rfl
  | succ fuel => rw [readMembers, readMembers, h]

/-- The first character of a numeral: a sign or a digit. -/
def StartsNumeral (c : Char) : Prop :=
  c = '-' ∨ c.isDigit = true

instance (c : Char) : Decidable (StartsNumeral c) := by
  unfold StartsNumeral
  infer_instance

theorem StartsNumeral.isGap_eq_false {c : Char} (hc : StartsNumeral c) : isGap c = false := by
  by_contra h
  simp only [isGap, Bool.not_eq_false, Bool.or_eq_true, beq_iff_eq] at h
  rcases h with ((rfl | rfl) | rfl) | rfl <;> exact absurd hc (by decide)

theorem readTree_numeral {c : Char} {t rest : Text} {n : Numeral} (fuel : Nat)
    (hc : StartsNumeral c) (h : readNumeral (c :: t) = some (n, rest)) :
    readTree (fuel + 1) (c :: t) = some (.number n, rest) := by
  have hne {d : Char} (hd : ¬StartsNumeral d) : c ≠ d := fun e => hd (e ▸ hc)
  rw [readTree, skipGap_cons hc.isGap_eq_false]
  split
  case h_1 he => exact absurd (List.cons.inj he).1 (hne (by decide))
  case h_2 he => exact absurd (List.cons.inj he).1 (hne (by decide))
  case h_3 he => exact absurd (List.cons.inj he).1 (hne (by decide))
  case h_4 he => exact absurd (List.cons.inj he).1 (hne (by decide))
  case h_5 he => exact absurd (List.cons.inj he).1 (hne (by decide))
  case h_6 he => exact absurd (List.cons.inj he).1 (hne (by decide))
  case h_7 => simp [h]

/-- An array that is not closed at once is read by its items. -/
theorem readTree_array {s t rest : Text} {c : Char} {fuel : Nat} {ts : List Tree}
    (h : skipGap s = c :: t) (hgap : isGap c = false) (hc : c ≠ ']')
    (hread : readItems fuel s = some (ts, rest)) :
    readTree (fuel + 1) ('[' :: s) = some (.array ts, rest) := by
  have hskip : readItems fuel (c :: t) = some (ts, rest) := by
    rw [← hread]
    exact readItems_congr fuel (by rw [h, skipGap_cons hgap])
  rw [readTree, skipGap_cons rfl]
  simp only [h]
  split
  · next he => exact absurd (List.cons.inj he).1 hc
  · simp [hskip]

theorem readTree_object {s t rest : Text} {fuel : Nat} {ts : List (Option Text × Tree)}
    (h : skipGap s = '"' :: t) (hread : readMembers fuel s = some (ts, rest)) :
    readTree (fuel + 1) ('{' :: s) = some (.object ts, rest) := by
  have hskip : readMembers fuel ('"' :: t) = some (ts, rest) := by
    rw [← hread]
    exact readMembers_congr fuel (by rw [h, skipGap_cons rfl])
  rw [readTree, skipGap_cons rfl]
  simp [h, hskip]

end DocTags.Json
