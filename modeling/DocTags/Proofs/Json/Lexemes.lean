import DocTags.Json.Tree
import Mathlib.Data.List.TakeWhile

/-!
The words of JSON text: strings and numerals, each as a grammar with one alternative to a rule. The
reader of strings takes what the grammar derives up to a closing quote, and the reader of numerals
what it derives up to a character that no numeral goes on with.
-/

namespace DocTags.Json

/-! ### Strings -/

/-- What stands between the quotes of a string, and the units that it is made of. -/
inductive IsUnits : Text → List Unit16 → Prop where
  | nil : IsUnits [] []
  | plain {c : Char} {s : Text} {units : List Unit16} (quote : c ≠ '"') (slash : c ≠ '\\')
      (control : 32 ≤ c.toNat) (tail : IsUnits s units) : IsUnits (c :: s) (.char c :: units)
  | short {e c : Char} {s : Text} {units : List Unit16} (named : shortEscape? e = some c)
      (tail : IsUnits s units) : IsUnits ('\\' :: e :: s) (.char c :: units)
  | code {a b c d : Char} {n : Nat} {s : Text} {units : List Unit16}
      (hex : hexCode? a b c d = some n) (tail : IsUnits s units) :
      IsUnits ('\\' :: 'u' :: a :: b :: c :: d :: s) (.code n :: units)

/-- The text that units make up: a code stands for its character, and two halves of a surrogate pair
stand for one character together. -/
inductive IsTextOf : List Unit16 → Text → Prop where
  | nil : IsTextOf [] []
  | char {c : Char} {units : List Unit16} {s : Text} (tail : IsTextOf units s) :
      IsTextOf (.char c :: units) (c :: s)
  | code {n : Nat} {units : List Unit16} {s : Text} (high : isHighHalf n = false)
      (low : isLowHalf n = false) (tail : IsTextOf units s) :
      IsTextOf (.code n :: units) (Char.ofNat n :: s)
  | pair {n m : Nat} {units : List Unit16} {s : Text} (high : isHighHalf n = true)
      (low : isLowHalf m = true) (tail : IsTextOf units s) :
      IsTextOf (.code n :: .code m :: units)
        (Char.ofNat (0x10000 + (n - 0xD800) * 0x400 + (m - 0xDC00)) :: s)

/-- What stands between the quotes of a string, and its text. There is none where half of a surrogate
pair stands on its own. -/
def IsString (u : Text) (text : Option Text) : Prop :=
  ∃ units, IsUnits u units ∧ ∀ s, text = some s ↔ IsTextOf units s

theorem readUnits_plain {c : Char} (hquote : c ≠ '"') (hslash : c ≠ '\\') (hc : 32 ≤ c.toNat)
    (t : Text) :
    readUnits (c :: t) = (readUnits t).map fun (units, rest) => (.char c :: units, rest) := by
  rw [readUnits.eq_def]
  split
  · simp_all
  · simp_all
  · simp_all
  · simp_all
  · next d s _ _ _ he =>
      obtain ⟨rfl, rfl⟩ := List.cons.inj he
      have hnot : ¬(c.toNat < 32 ∨ c = '\\') := by
        simp only [hslash, or_false]
        omega
      simp [hnot]
      cases readUnits t <;> rfl

theorem readUnits_short {e c : Char} (h : shortEscape? e = some c) (t : Text) :
    readUnits ('\\' :: e :: t) =
      (readUnits t).map fun (units, rest) => (.char c :: units, rest) := by
  have he : e ≠ 'u' := by
    rintro rfl
    cases h
  rw [readUnits]
  · simp only [h]
    cases readUnits t <;> rfl
  · intro _ _ _ _ _ he' _
    exact he he'

theorem readUnits_code {a b c d : Char} {n : Nat} (h : hexCode? a b c d = some n) (t : Text) :
    readUnits ('\\' :: 'u' :: a :: b :: c :: d :: t) =
      (readUnits t).map fun (units, rest) => (.code n :: units, rest) := by
  simp only [readUnits, h]
  cases readUnits t <;> rfl

theorem readUnits_of_isUnits {s : Text} {units : List Unit16} (h : IsUnits s units) (rest : Text) :
    readUnits (s ++ '"' :: rest) = some (units, rest) := by
  induction h with
  | nil => simp [readUnits]
  | plain hquote hslash hcontrol _ ih =>
      rw [List.cons_append, readUnits_plain hquote hslash hcontrol, ih]
      rfl
  | short hnamed _ ih =>
      rw [List.cons_append, List.cons_append, readUnits_short hnamed, ih]
      rfl
  | code hhex _ ih =>
      simp only [List.cons_append]
      rw [readUnits_code hhex, ih]
      rfl

theorem isUnits_of_readUnits {s rest : Text} {units : List Unit16}
    (h : readUnits s = some (units, rest)) : ∃ u, s = u ++ '"' :: rest ∧ IsUnits u units := by
  fun_induction readUnits s generalizing units with
  | case1 => cases h
  | case2 s =>
      obtain ⟨rfl, rfl⟩ : [] = units ∧ s = rest := by simpa using h
      exact ⟨[], rfl, .nil⟩
  | case3 a b c d s ih =>
      simp only [Option.bind_eq_bind, Option.bind_eq_some_iff] at h
      obtain ⟨n, hhex, ⟨tail, r⟩, hs, he⟩ := h
      obtain ⟨rfl, rfl⟩ : .code n :: tail = units ∧ r = rest := by simpa using he
      obtain ⟨u, rfl, hu⟩ := ih hs
      exact ⟨_, rfl, .code hhex hu⟩
  | case4 e s _ ih =>
      simp only [Option.bind_eq_bind, Option.bind_eq_some_iff] at h
      obtain ⟨c, hnamed, ⟨tail, r⟩, hs, he⟩ := h
      obtain ⟨rfl, rfl⟩ : .char c :: tail = units ∧ r = rest := by simpa using he
      obtain ⟨u, rfl, hu⟩ := ih hs
      exact ⟨_, rfl, .short hnamed hu⟩
  | case5 => cases h
  | case6 c s hquote _ _ hplain ih =>
      simp only [Option.bind_eq_bind, Option.bind_eq_some_iff] at h
      obtain ⟨⟨tail, r⟩, hs, he⟩ := h
      obtain ⟨rfl, rfl⟩ : .char c :: tail = units ∧ r = rest := by simpa using he
      obtain ⟨u, rfl, hu⟩ := ih hs
      obtain ⟨hcontrol, hslash⟩ := not_or.1 hplain
      exact ⟨_, rfl, .plain hquote hslash (by omega) hu⟩

/-- A code that is no half of a surrogate pair stands for itself. -/
theorem textOfUnits?_code {n : Nat} (hhigh : isHighHalf n = false) (hlow : isLowHalf n = false)
    (units : List Unit16) :
    textOfUnits? (.code n :: units) = (textOfUnits? units).map (Char.ofNat n :: ·) := by
  cases units with
  | nil => simp [textOfUnits?, hhigh, hlow]
  | cons u units => cases u <;> simp [textOfUnits?, hhigh, hlow]

theorem textOfUnits?_eq_some_iff {units : List Unit16} {s : Text} :
    textOfUnits? units = some s ↔ IsTextOf units s := by
  constructor
  · intro h
    fun_induction textOfUnits? units generalizing s with
    | case1 =>
        cases h
        exact .nil
    | case2 c units ih =>
        obtain ⟨t, ht, rfl⟩ := Option.map_eq_some_iff.1 h
        exact .char (ih ht)
    | case3 high low units hhigh hlow ih =>
        obtain ⟨t, ht, rfl⟩ := Option.map_eq_some_iff.1 h
        exact .pair hhigh hlow (ih ht)
    | case4 | case5 => cases h
    | case6 high low units hhigh hlow ih =>
        obtain ⟨t, ht, rfl⟩ := Option.map_eq_some_iff.1 h
        exact .code (by simpa using hhigh) (by simpa using hlow) (ih ht)
    | case7 => cases h
    | case8 n units _ hhalf ih =>
        obtain ⟨t, ht, rfl⟩ := Option.map_eq_some_iff.1 h
        rw [Bool.or_eq_true, not_or] at hhalf
        exact .code (by simpa using hhalf.1) (by simpa using hhalf.2) (ih ht)
  · intro h
    induction h with
    | nil => rfl
    | char _ ih => simp [textOfUnits?, ih]
    | code hhigh hlow _ ih => simp [textOfUnits?_code hhigh hlow, ih]
    | pair hhigh hlow _ ih => simp [textOfUnits?, hhigh, hlow, ih]

theorem readString_of_isString {u : Text} {text : Option Text} (h : IsString u text)
    (rest : Text) : readString (u ++ '"' :: rest) = some (text, rest) := by
  obtain ⟨units, hu, htext⟩ := h
  have htext : textOfUnits? units = text :=
    Option.ext fun s => textOfUnits?_eq_some_iff.trans (htext s).symm
  simp only [readString, readUnits_of_isUnits hu, Option.map_some, htext]

theorem isString_of_readString {s rest : Text} {text : Option Text}
    (h : readString s = some (text, rest)) : ∃ u, s = u ++ '"' :: rest ∧ IsString u text := by
  obtain ⟨⟨units, r⟩, hread, he⟩ := Option.map_eq_some_iff.1 h
  obtain ⟨rfl, rfl⟩ := Prod.mk.inj he
  obtain ⟨u, hs, hu⟩ := isUnits_of_readUnits hread
  exact ⟨u, hs, units, hu, fun _ => textOfUnits?_eq_some_iff⟩

/-! ### Numerals -/

def IsDigits (ds : Text) : Prop :=
  ds ≠ [] ∧ ∀ c ∈ ds, c.isDigit = true

/-- The digits in front of the point. A leading zero stands alone. -/
def IsWhole (ds : Text) : Prop :=
  IsDigits ds ∧ (ds.head? = some '0' → ds = ['0'])

/-- The part of a numeral behind its whole part, and the digits in it. -/
inductive IsFraction : Text → List Nat → Prop where
  | absent : IsFraction [] []
  | point {ds : Text} (digits : IsDigits ds) : IsFraction ('.' :: ds) (ds.map digit)

inductive IsExponent : Text → Option Int → Prop where
  | absent : IsExponent [] none
  | unsigned {e : Char} {ds : Text} (mark : e = 'e' ∨ e = 'E') (digits : IsDigits ds) :
      IsExponent (e :: ds) (some (ofDigits (ds.map digit)))
  | plus {e : Char} {ds : Text} (mark : e = 'e' ∨ e = 'E') (digits : IsDigits ds) :
      IsExponent (e :: '+' :: ds) (some (ofDigits (ds.map digit)))
  | minus {e : Char} {ds : Text} (mark : e = 'e' ∨ e = 'E') (digits : IsDigits ds) :
      IsExponent (e :: '-' :: ds) (some (-(ofDigits (ds.map digit) : Int)))

/-- The numeral behind its sign. -/
inductive IsUnsigned (negative : Bool) : Text → Numeral → Prop where
  | mk {whole f e : Text} {fraction : List Nat} {exponent : Option Int} (hwhole : IsWhole whole)
      (hfraction : IsFraction f fraction) (hexponent : IsExponent e exponent) :
      IsUnsigned negative (whole ++ (f ++ e)) ⟨negative, whole.map digit, fraction, exponent⟩

inductive IsNumeral : Text → Numeral → Prop where
  | positive {u : Text} {n : Numeral} (unsigned : IsUnsigned false u n) : IsNumeral u n
  | negative {u : Text} {n : Numeral} (unsigned : IsUnsigned true u n) : IsNumeral ('-' :: u) n

/-- No numeral goes on with this text. -/
def StopsNumeral (rest : Text) : Prop :=
  ∀ c ∈ rest.head?, c.isDigit = false ∧ c ≠ '.' ∧ c ≠ 'e' ∧ c ≠ 'E'

theorem takeDigits_append {ds rest : Text} (hdigits : ∀ c ∈ ds, c.isDigit = true)
    (hrest : ∀ c ∈ rest.head?, c.isDigit = false) :
    takeDigits (ds ++ rest) = (ds.map digit, rest) := by
  have hstop : rest.takeWhile Char.isDigit = [] ∧ rest.dropWhile Char.isDigit = rest := by
    cases rest with
    | nil => simp
    | cons c rest => simp [hrest c rfl]
  rw [takeDigits, List.takeWhile_append_of_pos hdigits, List.dropWhile_append_of_pos hdigits,
    hstop.1, hstop.2, List.append_nil]

theorem exists_takeDigits_eq (s : Text) :
    ∃ cs, s = cs ++ (takeDigits s).2 ∧ (takeDigits s).1 = cs.map digit ∧
      ∀ c ∈ cs, c.isDigit = true :=
  ⟨_, List.takeWhile_append_dropWhile.symm, rfl, fun _ hc => List.mem_takeWhile_imp hc⟩

theorem digit_eq_zero_iff {c : Char} (h : c.isDigit = true) : digit c = 0 ↔ c = '0' := by
  rw [Char.isDigit_iff_toNat] at h
  rw [← Char.toNat_inj, digit]
  exact ⟨fun hc => by omega, fun hc => by omega⟩

/-- The check that the reader makes of the digits in front of the point. -/
theorem isWhole_iff {cs : Text} (h : ∀ c ∈ cs, c.isDigit = true) :
    IsWhole cs ↔ ¬((cs.map digit).isEmpty = true ∨
      ((cs.map digit).head? = some 0 ∧ (cs.map digit).length ≠ 1)) := by
  cases cs with
  | nil => simp [IsWhole, IsDigits]
  | cons c cs =>
      have hzero : digit c = 0 ↔ c = '0' := digit_eq_zero_iff (h c List.mem_cons_self)
      have hdigits : IsDigits (c :: cs) := ⟨List.cons_ne_nil c cs, h⟩
      simp +contextual [IsWhole, hdigits, hzero]

/-! ### Fractions and exponents -/

theorem readFraction_of_isFraction {f rest : Text} {ds : List Nat} (h : IsFraction f ds)
    (hrest : ∀ c ∈ rest.head?, c.isDigit = false ∧ c ≠ '.') :
    readFraction (f ++ rest) = some (ds, rest) := by
  cases h with
  | absent =>
      rw [List.nil_append, readFraction]
      rintro s rfl
      exact (hrest '.' rfl).2 rfl
  | point hdigits =>
      obtain ⟨hne, hdigits⟩ := hdigits
      rw [List.cons_append, readFraction, takeDigits_append hdigits fun c hc => (hrest c hc).1]
      simp [hne]

theorem isFraction_of_readFraction {s rest : Text} {ds : List Nat}
    (h : readFraction s = some (ds, rest)) : ∃ f, s = f ++ rest ∧ IsFraction f ds := by
  unfold readFraction at h
  split at h
  · next s =>
      obtain ⟨cs, hs, hcs, hdigits⟩ := exists_takeDigits_eq s
      simp only at h
      split at h
      · cases h
      · next hne =>
          cases h
          rw [hcs, List.isEmpty_iff, List.map_eq_nil_iff] at hne
          rw [hcs]
          exact ⟨'.' :: cs, congrArg _ hs, .point ⟨hne, hdigits⟩⟩
  · cases h
    exact ⟨[], rfl, .absent⟩

theorem readExponentDigits_append (negative : Bool) {ds rest : Text} (h : IsDigits ds)
    (hrest : ∀ c ∈ rest.head?, c.isDigit = false) :
    readExponentDigits negative (ds ++ rest) =
      some (some (if negative then -(ofDigits (ds.map digit) : Int)
        else ofDigits (ds.map digit)), rest) := by
  rw [readExponentDigits, takeDigits_append h.2 hrest]
  simp [h.1]

theorem isDigits_of_readExponentDigits {negative : Bool} {s rest : Text} {x : Option Int}
    (h : readExponentDigits negative s = some (x, rest)) :
    ∃ ds, s = ds ++ rest ∧ IsDigits ds ∧
      x = some (if negative then -(ofDigits (ds.map digit) : Int)
        else ofDigits (ds.map digit)) := by
  obtain ⟨cs, hs, hcs, hdigits⟩ := exists_takeDigits_eq s
  unfold readExponentDigits at h
  simp only at h
  split at h
  · cases h
  · next hne =>
      cases h
      rw [hcs, List.isEmpty_iff, List.map_eq_nil_iff] at hne
      rw [hcs]
      exact ⟨cs, hs, ⟨hne, hdigits⟩, rfl⟩

theorem readExponent_of_isExponent {e rest : Text} {x : Option Int} (h : IsExponent e x)
    (hrest : StopsNumeral rest) : readExponent (e ++ rest) = some (x, rest) := by
  have hdigit : ∀ c ∈ rest.head?, c.isDigit = false := fun c hc => (hrest c hc).1
  cases h with
  | absent =>
      cases rest with
      | nil => rfl
      | cons c rest =>
          obtain ⟨-, -, he, hE⟩ := hrest c rfl
          simp [readExponent, he, hE]
  | @unsigned e ds hmark hdigits =>
      have hsign : ∀ c s, ds ++ rest = c :: s → c.isDigit = true := by
        intro c s hs
        obtain ⟨d, tail, rfl⟩ := List.exists_cons_of_ne_nil hdigits.1
        obtain rfl : d = c := (List.cons.inj hs).1
        exact hdigits.2 d List.mem_cons_self
      rw [List.cons_append, readExponent, if_pos hmark]
      · exact readExponentDigits_append false hdigits hdigit
      · exact fun s hs => absurd (hsign _ _ hs) (by decide)
      · exact fun s hs => absurd (hsign _ _ hs) (by decide)
  | plus hmark hdigits =>
      rw [List.cons_append, List.cons_append, readExponent, if_pos hmark]
      exact readExponentDigits_append false hdigits hdigit
  | minus hmark hdigits =>
      rw [List.cons_append, List.cons_append, readExponent, if_pos hmark]
      exact readExponentDigits_append true hdigits hdigit

theorem isExponent_of_readExponent {s rest : Text} {x : Option Int}
    (h : readExponent s = some (x, rest)) : ∃ e, s = e ++ rest ∧ IsExponent e x := by
  unfold readExponent at h
  split at h
  · next c s =>
      split at h
      · next hmark =>
          split at h
          · obtain ⟨ds, rfl, hdigits, rfl⟩ := isDigits_of_readExponentDigits h
            exact ⟨c :: '-' :: ds, rfl, .minus hmark hdigits⟩
          · obtain ⟨ds, rfl, hdigits, rfl⟩ := isDigits_of_readExponentDigits h
            exact ⟨c :: '+' :: ds, rfl, .plus hmark hdigits⟩
          · obtain ⟨ds, rfl, hdigits, rfl⟩ := isDigits_of_readExponentDigits h
            exact ⟨c :: ds, rfl, .unsigned hmark hdigits⟩
      · cases h
        exact ⟨[], rfl, .absent⟩
  · cases h
    exact ⟨[], rfl, .absent⟩

/-! ### What numerals begin and go on with -/

theorem IsFraction.not_isDigit {f rest : Text} {ds : List Nat} (h : IsFraction f ds)
    (hrest : ∀ c ∈ rest.head?, c.isDigit = false ∧ c ≠ '.') :
    ∀ c ∈ (f ++ rest).head?, c.isDigit = false := by
  cases h with
  | absent => exact fun c hc => (hrest c hc).1
  | point =>
      rintro c ⟨⟩
      rfl

theorem IsExponent.not_isDigit {e rest : Text} {x : Option Int} (h : IsExponent e x)
    (hrest : StopsNumeral rest) : ∀ c ∈ (e ++ rest).head?, c.isDigit = false ∧ c ≠ '.' := by
  cases h with
  | absent =>
      intro c hc
      obtain ⟨hdigit, hpoint, -⟩ := hrest c hc
      exact ⟨hdigit, hpoint⟩
  | unsigned hmark | plus hmark | minus hmark =>
      rintro c ⟨⟩
      rcases hmark with rfl | rfl <;> decide

theorem readUnsigned_of_isUnsigned {negative : Bool} {u rest : Text} {n : Numeral}
    (h : IsUnsigned negative u n) (hrest : StopsNumeral rest) :
    readUnsigned negative (u ++ rest) = some (n, rest) := by
  obtain ⟨hwhole, hfraction, hexponent⟩ := h
  have hstop := hexponent.not_isDigit hrest
  have hdigits := hwhole.1.2
  unfold readUnsigned
  rw [List.append_assoc, List.append_assoc,
    takeDigits_append hdigits (hfraction.not_isDigit hstop)]
  simp only [if_neg ((isWhole_iff hdigits).1 hwhole), readFraction_of_isFraction hfraction hstop,
    readExponent_of_isExponent hexponent hrest, Option.bind_eq_bind, Option.bind_some]

theorem isUnsigned_of_readUnsigned {negative : Bool} {s rest : Text} {n : Numeral}
    (h : readUnsigned negative s = some (n, rest)) :
    ∃ u, s = u ++ rest ∧ IsUnsigned negative u n := by
  obtain ⟨whole, hs, hds, hdigits⟩ := exists_takeDigits_eq s
  unfold readUnsigned at h
  simp only at h
  split at h
  · cases h
  · next hwhole =>
      rw [hds, ← isWhole_iff hdigits] at hwhole
      simp only [Option.bind_eq_bind, Option.bind_eq_some_iff] at h
      obtain ⟨⟨fraction, s₁⟩, hread₁, ⟨exponent, s₂⟩, hread₂, he⟩ := h
      obtain ⟨rfl, rfl⟩ := Prod.mk.inj (Option.some.inj he)
      obtain ⟨f, hf, hfraction⟩ := isFraction_of_readFraction hread₁
      obtain ⟨e, hs₁, hexponent⟩ := isExponent_of_readExponent hread₂
      refine ⟨whole ++ (f ++ e), ?_, ?_⟩
      · rw [List.append_assoc, List.append_assoc, ← hs₁, ← hf]
        exact hs
      · rw [hds]
        exact .mk hwhole hfraction hexponent

theorem IsUnsigned.exists_cons {negative : Bool} {u : Text} {n : Numeral}
    (h : IsUnsigned negative u n) : ∃ c s, u = c :: s ∧ c.isDigit = true := by
  obtain ⟨hwhole, -, -⟩ := h
  obtain ⟨c, ds, rfl⟩ := List.exists_cons_of_ne_nil hwhole.1.1
  exact ⟨c, _, rfl, hwhole.1.2 c List.mem_cons_self⟩

theorem readNumeral_of_isNumeral {u rest : Text} {n : Numeral} (h : IsNumeral u n)
    (hrest : StopsNumeral rest) : readNumeral (u ++ rest) = some (n, rest) := by
  cases h with
  | positive hunsigned =>
      rw [readNumeral]
      · exact readUnsigned_of_isUnsigned hunsigned hrest
      · intro s hs
        obtain ⟨c, t, rfl, hc⟩ := hunsigned.exists_cons
        obtain rfl : c = '-' := (List.cons.inj hs).1
        exact absurd hc (by decide)
  | negative hunsigned => exact readUnsigned_of_isUnsigned hunsigned hrest

theorem isNumeral_of_readNumeral {s rest : Text} {n : Numeral}
    (h : readNumeral s = some (n, rest)) : ∃ u, s = u ++ rest ∧ IsNumeral u n := by
  unfold readNumeral at h
  split at h
  · obtain ⟨u, rfl, hu⟩ := isUnsigned_of_readUnsigned h
    exact ⟨'-' :: u, rfl, .negative hu⟩
  · obtain ⟨u, rfl, hu⟩ := isUnsigned_of_readUnsigned h
    exact ⟨u, rfl, .positive hu⟩

end DocTags.Json
