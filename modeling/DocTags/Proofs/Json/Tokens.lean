import DocTags.Json.Printer
import DocTags.Json.Reader
import DocTags.Proofs.Json.Lexemes
import Mathlib.Data.Nat.Basic

/-!
Strings and integers as they are written. The grammar derives a quoted text as that text, whatever
characters it has, and the digits of an integer as the numeral that denotes it.
-/

namespace DocTags.Json

/-! ### Strings -/

/-- The unit that the escape of a character is read as. -/
def Unit16.ofChar (c : Char) : Unit16 :=
  if c.toNat < 32 ∧ c ≠ '\n' ∧ c ≠ '\r' ∧ c ≠ '\t' ∧ c.toNat ≠ 8 ∧ c.toNat ≠ 12 then .code c.toNat
  else .char c

theorem hexCode?_hexByte : ∀ n < 32,
    hexCode? '0' '0' (Nat.digitChar (n / 16)) (Nat.digitChar (n % 16)) = some n := by
  decide

theorem IsUnits.escapeChar (c : Char) {t : Text} {units : List Unit16} (h : IsUnits t units) :
    IsUnits (escapeChar c ++ t) (Unit16.ofChar c :: units) := by
  have hshort {e d : Char} (hd : shortEscape? e = some d) (hunit : Unit16.ofChar d = .char d) :
      IsUnits ('\\' :: e :: t) (Unit16.ofChar d :: units) := by
    rw [hunit]
    exact .short hd h
  unfold Json.escapeChar
  split_ifs with h₁ h₂ h₃ h₄ h₅ h₆ h₇ h₈
  · subst c
    exact hshort (by decide) (by decide)
  · subst c
    exact hshort (by decide) (by decide)
  · subst c
    exact hshort (by decide) (by decide)
  · subst c
    exact hshort (by decide) (by decide)
  · subst c
    exact hshort (by decide) (by decide)
  · obtain rfl : c = Char.ofNat 8 := by rw [← h₆, Char.ofNat_toNat]
    exact hshort (by decide) (by decide)
  · obtain rfl : c = Char.ofNat 12 := by rw [← h₇, Char.ofNat_toNat]
    exact hshort (by decide) (by decide)
  · have hunit : Unit16.ofChar c = .code c.toNat := if_pos ⟨h₈, h₃, h₄, h₅, h₆, h₇⟩
    rw [hunit]
    exact .code (hexCode?_hexByte c.toNat h₈) h
  · have hunit : Unit16.ofChar c = .char c := if_neg fun h => h₈ h.1
    rw [hunit]
    exact .plain h₁ h₂ (by omega) h

theorem isUnits_escape (s : Text) : IsUnits (s.flatMap escapeChar) (s.map Unit16.ofChar) := by
  induction s with
  | nil => exact .nil
  | cons c s ih =>
      rw [List.flatMap_cons, List.map_cons]
      exact ih.escapeChar c

theorem isTextOf_map_ofChar (s : Text) : IsTextOf (s.map Unit16.ofChar) s := by
  induction s with
  | nil => exact .nil
  | cons c s ih =>
      rw [List.map_cons, Unit16.ofChar]
      split
      · next h =>
          have hhigh : isHighHalf c.toNat = false := by
            rw [isHighHalf, Bool.and_eq_false_iff, decide_eq_false_iff_not]
            omega
          have hlow : isLowHalf c.toNat = false := by
            rw [isLowHalf, Bool.and_eq_false_iff, decide_eq_false_iff_not]
            omega
          have hcode := IsTextOf.code hhigh hlow ih
          rwa [Char.ofNat_toNat] at hcode
      · exact .char ih

theorem isString_escape (s : Text) : IsString (s.flatMap escapeChar) (some s) := by
  refine ⟨_, isUnits_escape s, fun t => ?_⟩
  rw [← textOfUnits?_eq_some_iff, textOfUnits?_eq_some_iff.2 (isTextOf_map_ofChar s)]

/-! ### Integers -/

theorem isDigit_of_mem_ofNat {n : Nat} {c : Char} (hc : c ∈ Text.ofNat n) : c.isDigit = true :=
  Nat.isDigit_of_mem_toDigits (by decide) (by decide) hc

theorem ofDigits_map_digit_ofNat (n : Nat) : ofDigits ((Text.ofNat n).map digit) = n := by
  rw [ofDigits, List.foldl_map]
  exact Nat.ofDigitChars_ten_toDigits

theorem ofNat_of_lt {n : Nat} (hn : n < 10) : Text.ofNat n = [Nat.digitChar n] :=
  Nat.toDigits_of_lt_base hn

theorem ofNat_of_le {n : Nat} (hn : 10 ≤ n) :
    Text.ofNat n = Text.ofNat (n / 10) ++ [Nat.digitChar (n % 10)] :=
  Nat.toDigits_of_base_le (by decide) hn

theorem ofNat_ne_nil (n : Nat) : Text.ofNat n ≠ [] :=
  Nat.toDigits_ne_nil

theorem digitChar_eq_zero : ∀ n < 10, Nat.digitChar n = '0' → n = 0 := by
  decide

theorem head?_ofNat {n : Nat} (hn : n ≠ 0) : (Text.ofNat n).head? ≠ some '0' := by
  induction n using Nat.strong_induction_on with
  | _ n ih =>
      rcases Nat.lt_or_ge n 10 with hlt | hle
      · rw [ofNat_of_lt hlt, List.head?_cons]
        exact fun h => hn (digitChar_eq_zero n hlt (Option.some.inj h))
      · obtain ⟨c, t, ht⟩ := List.exists_cons_of_ne_nil (ofNat_ne_nil (n / 10))
        have htens := ih (n / 10) (by omega) (by omega)
        rw [ofNat_of_le hle, ht]
        simpa [ht] using htens

theorem isWhole_ofNat (n : Nat) : IsWhole (Text.ofNat n) := by
  refine ⟨⟨ofNat_ne_nil n, fun c => isDigit_of_mem_ofNat⟩, fun h => ?_⟩
  obtain rfl : n = 0 := by
    by_contra hn
    exact head?_ofNat hn h
  rfl

/-- The numeral that an integer is written as. -/
def Numeral.ofInt (i : Int) : Numeral :=
  ⟨decide (i < 0), (Text.ofNat i.natAbs).map digit, [], none⟩

theorem isNumeral_integer (i : Int) :
    IsNumeral ((Number.integer i).text exponentStyle) (Numeral.ofInt i) := by
  have hunsigned (negative : Bool) : IsUnsigned negative (Text.ofNat i.natAbs)
      ⟨negative, (Text.ofNat i.natAbs).map digit, [], none⟩ := by
    have h : IsUnsigned negative _ _ := .mk (isWhole_ofNat i.natAbs) .absent .absent
    rwa [List.append_nil, List.append_nil] at h
  by_cases hi : i < 0
  · simpa [Number.text, Numeral.ofInt, hi] using IsNumeral.negative (hunsigned true)
  · simpa [Number.text, Numeral.ofInt, hi] using IsNumeral.positive (hunsigned false)

/-- An integer of 64 bits, unsigned or, below zero, signed. -/
def IsInt64 (i : Int) : Prop :=
  -Nat.pow 2 63 ≤ i ∧ i < Nat.pow 2 64

instance (i : Int) : Decidable (IsInt64 i) :=
  inferInstanceAs (Decidable (_ ∧ _))

theorem number?_ofInt {i : Int} (h : IsInt64 i) :
    (Numeral.ofInt i).number? = some (.integer i) := by
  obtain ⟨hlow, hhigh⟩ := h
  have hint : (Numeral.ofInt i).integer? = some i := by
    simp only [Numeral.integer?, Numeral.ofInt, ofDigits_map_digit_ofNat]
    split
    · simp_all
    · split
      · have hlt : i < 0 := by simp_all
        have hfits : 0 < i.natAbs ∧ i.natAbs ≤ Nat.pow 2 63 := by omega
        rw [if_pos hfits]
        exact congrArg some (by omega)
      · have hnot : ¬i < 0 := by simp_all
        have hfits : i.natAbs < Nat.pow 2 64 := by omega
        rw [if_pos hfits]
        exact congrArg some (by omega)
  rw [Numeral.number?, hint]

end DocTags.Json
