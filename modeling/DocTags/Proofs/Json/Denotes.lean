import DocTags.Proofs.Json.Grammar
import Mathlib.Data.List.Forall2

/-!
What a JSON text says. The reader of values finds a value in a text if and only if the grammar
derives the text as a tree that stands for that value; no other text is JSON. Like every reader of
JSON this one sets limits: to how deep arrays and objects are nested, and to the range of numbers.
-/

namespace DocTags.Json

/-- The integer that a numeral without fraction and exponent stands for, if it fits in 64 bits,
unsigned or, below zero, signed. -/
inductive Numeral.IsInteger (n : Numeral) : Int → Prop where
  | unsigned (fraction : n.fraction = []) (exponent : n.exponent = none)
      (sign : n.negative = false) (fits : ofDigits n.whole < Nat.pow 2 64) :
      IsInteger n (ofDigits n.whole)
  | signed (fraction : n.fraction = []) (exponent : n.exponent = none) (sign : n.negative = true)
      (pos : 0 < ofDigits n.whole) (fits : ofDigits n.whole ≤ Nat.pow 2 63) :
      IsInteger n (-ofDigits n.whole)

/-- The value that a tree stands for, with at most `depth` arrays and objects inside each other. Of
members with the same key the last one stands, at the place of the first. -/
inductive Tree.Means : (depth : Nat) → Tree → Value → Prop where
  | null {depth : Nat} : Means depth .null .null
  | bool {depth : Nat} (b : Bool) : Means depth (.bool b) (.bool b)
  | integer {depth : Nat} {n : Numeral} {i : Int} (integer : n.IsInteger i) :
      Means depth (.number n) (.number (.integer i))
  | double {depth : Nat} {n : Numeral} {x : Double} (other : ∀ i, ¬n.IsInteger i)
      (double : n.double? = some x) : Means depth (.number n) (.number (.double x))
  | string {depth : Nat} (s : Text) : Means depth (.string (some s)) (.string s)
  | array {depth : Nat} {ts : List Tree} {vs : List Value} (length_eq : ts.length = vs.length)
      (items : ∀ p ∈ ts.zip vs, Means depth p.1 p.2) : Means (depth + 1) (.array ts) (.array vs)
  | object {depth : Nat} {ms : List (Option Text × Tree)} {es : List (Text × Value)}
      (length_eq : ms.length = es.length) (keys : ∀ p ∈ ms.zip es, p.1.1 = some p.2.1)
      (values : ∀ p ∈ ms.zip es, Means depth p.1.2 p.2.2) :
      Means (depth + 1) (.object ms) (.object (OrderedMap.ofEntries es))

/-- The text is JSON, and says the value. -/
def Denotes (raw : Text) (v : Value) : Prop :=
  ∃ t, IsItem raw t ∧ t.Means maxDepth v

namespace Numeral

theorem integer?_eq_some_iff {n : Numeral} {i : Int} : n.integer? = some i ↔ n.IsInteger i := by
  constructor
  · intro h
    simp only [integer?, ne_eq, Option.isSome_iff_ne_none] at h
    split at h
    · cases h
    · next hplain =>
        rw [not_or, not_not, not_not] at hplain
        obtain ⟨hfraction, hexponent⟩ := hplain
        split at h
        · next hsign =>
            split at h
            · next hfits =>
                cases h
                exact .signed hfraction hexponent hsign hfits.1 hfits.2
            · cases h
        · next hsign =>
            split at h
            · next hfits =>
                cases h
                exact .unsigned hfraction hexponent (by simpa using hsign) hfits
            · cases h
  · rintro (⟨hfraction, hexponent, hsign, hfits⟩ | ⟨hfraction, hexponent, hsign, hpos, hfits⟩)
    · simp [integer?, hfraction, hexponent, hsign, hfits]
    · simp [integer?, hfraction, hexponent, hsign, hpos, hfits]

theorem integer?_eq_none_iff {n : Numeral} : n.integer? = none ↔ ∀ i, ¬n.IsInteger i := by
  simp only [Option.eq_none_iff_forall_ne_some, ne_eq, integer?_eq_some_iff]

end Numeral

theorem mapM_eq_some_iff_forall₂ {α β : Type} {f : α → Option β} {xs : List α} {ys : List β} :
    xs.mapM f = some ys ↔ List.Forall₂ (fun x y => f x = some y) xs ys := by
  induction xs generalizing ys with
  | nil => simp [eq_comm]
  | cons x xs ih =>
      simp only [List.mapM_cons, Option.bind_eq_bind, Option.bind_eq_some_iff, Option.pure_def,
        Option.some.injEq, ih, List.forall₂_cons_left_iff]
      constructor
      · rintro ⟨y, hy, tail, htail, rfl⟩
        exact ⟨y, tail, hy, htail, rfl⟩
      · rintro ⟨y, tail, hy, htail, rfl⟩
        exact ⟨y, hy, tail, htail, rfl⟩

theorem mapM_eq_some_iff_zip {α β : Type} {f : α → Option β} {xs : List α} {ys : List β} :
    xs.mapM f = some ys ↔ xs.length = ys.length ∧ ∀ p ∈ xs.zip ys, f p.1 = some p.2 := by
  rw [mapM_eq_some_iff_forall₂, List.forall₂_iff_zip]
  simp only [Prod.forall]

theorem mapM_members_eq_some_iff {β : Type} {read : Tree → Option β}
    {ms : List (Option Text × Tree)} {es : List (Text × β)} :
    (ms.mapM fun (key, t) => do some (← key, ← read t)) = some es ↔
      ms.length = es.length ∧ (∀ p ∈ ms.zip es, p.1.1 = some p.2.1) ∧
        ∀ p ∈ ms.zip es, read p.1.2 = some p.2.2 := by
  have hmember (m : Option Text × Tree) (e : Text × β) :
      (do some (← m.1, ← read m.2) : Option (Text × β)) = some e ↔
        m.1 = some e.1 ∧ read m.2 = some e.2 := by
    obtain ⟨key, t⟩ := m
    cases key <;> cases read t <;> simp [Prod.ext_iff]
  rw [mapM_eq_some_iff_zip]
  refine and_congr_right fun _ => ?_
  simp only [hmember, ← forall_and]

namespace Value

theorem means_of_number? {n : Numeral} {x : Number} (h : n.number? = some x) (depth : Nat) :
    (Tree.number n).Means depth (.number x) := by
  unfold Numeral.number? at h
  split at h
  · next i hi =>
      cases h
      exact .integer (Numeral.integer?_eq_some_iff.1 hi)
  · next hnone =>
      obtain ⟨x, hx, rfl⟩ := Option.map_eq_some_iff.1 h
      exact .double (Numeral.integer?_eq_none_iff.1 hnone) hx

theorem means_of_ofTree? {depth : Nat} {t : Tree} {v : Value} (h : ofTree? depth t = some v) :
    t.Means depth v := by
  induction depth using Nat.strong_induction_on generalizing t v with
  | _ depth ih =>
      cases t with
      | null =>
          obtain rfl : .null = v := by simpa [ofTree?] using h
          exact .null
      | bool b =>
          obtain rfl : .bool b = v := by simpa [ofTree?] using h
          exact .bool b
      | number n =>
          rw [ofTree?] at h
          obtain ⟨x, hx, rfl⟩ := Option.map_eq_some_iff.1 h
          exact means_of_number? hx depth
      | string s =>
          rw [ofTree?] at h
          obtain ⟨s, rfl, rfl⟩ := Option.map_eq_some_iff.1 h
          exact .string s
      | array ts =>
          cases depth with
          | zero => cases h
          | succ depth =>
              obtain ⟨vs, hvs, rfl⟩ := Option.map_eq_some_iff.1 h
              obtain ⟨hlength, hitems⟩ := mapM_eq_some_iff_zip.1 hvs
              exact .array hlength fun p hp => ih depth (Nat.lt_succ_self depth) (hitems p hp)
      | object ms =>
          cases depth with
          | zero => cases h
          | succ depth =>
              obtain ⟨es, hes, he⟩ := Option.bind_eq_some_iff.1 h
              obtain rfl : .object (OrderedMap.ofEntries es) = v := by simpa using he
              obtain ⟨hlength, hkeys, hvalues⟩ := mapM_members_eq_some_iff.1 hes
              exact .object hlength hkeys fun p hp =>
                ih depth (Nat.lt_succ_self depth) (hvalues p hp)

theorem ofTree?_of_means {depth : Nat} {t : Tree} {v : Value} (h : t.Means depth v) :
    ofTree? depth t = some v := by
  induction h with
  | null => simp [ofTree?]
  | bool => simp [ofTree?]
  | integer hinteger => simp [ofTree?, Numeral.number?, Numeral.integer?_eq_some_iff.2 hinteger]
  | double hother hdouble =>
      simp [ofTree?, Numeral.number?, Numeral.integer?_eq_none_iff.2 hother, hdouble]
  | string => simp [ofTree?]
  | array hlength _ ih => simp [ofTree?, mapM_eq_some_iff_zip.2 ⟨hlength, ih⟩]
  | object hlength hkeys _ ih =>
      rw [ofTree?, mapM_members_eq_some_iff.2 ⟨hlength, hkeys, ih⟩]
      rfl

/-- A value is read from a text if and only if the text is JSON and says that value. -/
theorem ofText?_eq_some_iff {raw : Text} {v : Value} : ofText? raw = some v ↔ Denotes raw v := by
  constructor
  · intro h
    obtain ⟨t, ht, hv⟩ := Option.bind_eq_some_iff.1 h
    exact ⟨t, Tree.ofText?_eq_some_iff.1 ht, means_of_ofTree? hv⟩
  · rintro ⟨t, ht, hv⟩
    exact Option.bind_eq_some_iff.2 ⟨t, Tree.ofText?_eq_some_iff.2 ht, ofTree?_of_means hv⟩

end Value
end DocTags.Json
