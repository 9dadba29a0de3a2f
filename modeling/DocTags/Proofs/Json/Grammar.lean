import DocTags.Proofs.Json.Gaps
import DocTags.Proofs.Json.Lexemes

/-!
The grammar of JSON text. What the readers of values, items and members take is derived by the
grammar, and with fuel for two steps to a character they take all that is derived. So a text is read
as a tree if and only if the grammar derives it as that tree.
-/

namespace DocTags.Json

/-- Blanks between the words of a JSON text. -/
def IsGap (gap : Text) : Prop :=
  ∀ c ∈ gap, isGap c = true

mutual

/-- A value without the gaps around it. -/
inductive IsTree : Text → Tree → Prop where
  | nullWord : IsTree "null".toList .null
  | falseWord : IsTree "false".toList (.bool false)
  | trueWord : IsTree "true".toList (.bool true)
  | number {u : Text} {n : Numeral} (numeral : IsNumeral u n) : IsTree u (.number n)
  | string {u : Text} {text : Option Text} (string : IsString u text) :
      IsTree ('"' :: (u ++ ['"'])) (.string text)
  | emptyArray {gap : Text} (hgap : IsGap gap) : IsTree ('[' :: (gap ++ [']'])) (.array [])
  | array {u : Text} {ts : List Tree} (items : IsItems u ts) :
      IsTree ('[' :: (u ++ [']'])) (.array ts)
  | emptyObject {gap : Text} (hgap : IsGap gap) : IsTree ('{' :: (gap ++ ['}'])) (.object [])
  | object {u : Text} {ms : List (Option Text × Tree)} (members : IsMembers u ms) :
      IsTree ('{' :: (u ++ ['}'])) (.object ms)

/-- A value with gaps around it. -/
inductive IsItem : Text → Tree → Prop where
  | mk {before u after : Text} {t : Tree} (hbefore : IsGap before) (tree : IsTree u t)
      (hafter : IsGap after) : IsItem (before ++ (u ++ after)) t

/-- One value or more, with commas between them. -/
inductive IsItems : Text → List Tree → Prop where
  | last {u : Text} {t : Tree} (item : IsItem u t) : IsItems u [t]
  | more {u w : Text} {t : Tree} {ts : List Tree} (item : IsItem u t) (items : IsItems w ts) :
      IsItems (u ++ ',' :: w) (t :: ts)

/-- A key and a value, with gaps around each. -/
inductive IsMember : Text → Option Text × Tree → Prop where
  | mk {before k after u : Text} {key : Option Text} {t : Tree} (hbefore : IsGap before)
      (string : IsString k key) (hafter : IsGap after) (value : IsItem u t) :
      IsMember (before ++ '"' :: (k ++ '"' :: (after ++ ':' :: u))) (key, t)

inductive IsMembers : Text → List (Option Text × Tree) → Prop where
  | last {u : Text} {m : Option Text × Tree} (member : IsMember u m) : IsMembers u [m]
  | more {u w : Text} {m : Option Text × Tree} {ms : List (Option Text × Tree)}
      (member : IsMember u m) (members : IsMembers w ms) : IsMembers (u ++ ',' :: w) (m :: ms)

end

theorem exists_gap (s : Text) : ∃ gap, IsGap gap ∧ s = gap ++ skipGap s :=
  ⟨_, fun _ hc => List.mem_takeWhile_imp hc, List.takeWhile_append_dropWhile.symm⟩

/-! ### What is read is derived -/

/-- What the readers take with this much fuel is derived by the grammar. -/
structure Sound (fuel : Nat) : Prop where
  tree {s rest : Text} {t : Tree} (h : readTree fuel s = some (t, rest)) :
    ∃ gap u, IsGap gap ∧ IsTree u t ∧ s = gap ++ (u ++ rest)
  items {s rest : Text} {ts : List Tree} (h : readItems fuel s = some (ts, rest)) :
    ∃ u, IsItems u ts ∧ s = u ++ ']' :: rest
  members {s rest : Text} {ms : List (Option Text × Tree)}
    (h : readMembers fuel s = some (ms, rest)) : ∃ u, IsMembers u ms ∧ s = u ++ '}' :: rest

namespace Sound

variable {fuel : Nat} {s rest : Text}

/-- Behind a gap stands a value. -/
theorem skipGap_tree (ih : Sound fuel) {t : Tree} (h : readTree (fuel + 1) s = some (t, rest)) :
    ∃ u, IsTree u t ∧ skipGap s = u ++ rest := by
  rw [readTree] at h
  split at h
  · next s hskip =>
      simp only [Option.bind_eq_bind, Option.bind_eq_some_iff] at h
      obtain ⟨⟨text, r⟩, hread, he⟩ := h
      obtain ⟨rfl, rfl⟩ : .string text = t ∧ r = rest := by simpa using he
      obtain ⟨u, rfl, hu⟩ := isString_of_readString hread
      exact ⟨_, .string hu, by simp [hskip]⟩
  · next s hskip =>
      split at h
      · next r hclose =>
          obtain ⟨rfl, rfl⟩ : .array [] = t ∧ r = rest := by simpa using h
          obtain ⟨gap, hgap, hs⟩ := exists_gap s
          rw [hclose] at hs
          exact ⟨_, .emptyArray hgap, by simp [hskip, hs]⟩
      · simp only [Option.bind_eq_bind, Option.bind_eq_some_iff] at h
        obtain ⟨⟨ts, r⟩, hread, he⟩ := h
        obtain ⟨rfl, rfl⟩ : .array ts = t ∧ r = rest := by simpa using he
        rw [readItems_congr fuel (skipGap_skipGap s)] at hread
        obtain ⟨u, hu, rfl⟩ := ih.items hread
        exact ⟨_, .array hu, by simp [hskip]⟩
  · next s hskip =>
      split at h
      · next r hclose =>
          obtain ⟨rfl, rfl⟩ : .object [] = t ∧ r = rest := by simpa using h
          obtain ⟨gap, hgap, hs⟩ := exists_gap s
          rw [hclose] at hs
          exact ⟨_, .emptyObject hgap, by simp [hskip, hs]⟩
      · simp only [Option.bind_eq_bind, Option.bind_eq_some_iff] at h
        obtain ⟨⟨ms, r⟩, hread, he⟩ := h
        obtain ⟨rfl, rfl⟩ : .object ms = t ∧ r = rest := by simpa using he
        rw [readMembers_congr fuel (skipGap_skipGap s)] at hread
        obtain ⟨u, hu, rfl⟩ := ih.members hread
        exact ⟨_, .object hu, by simp [hskip]⟩
  · next r hskip =>
      obtain ⟨rfl, rfl⟩ : .null = t ∧ r = rest := by simpa using h
      exact ⟨_, .nullWord, hskip⟩
  · next r hskip =>
      obtain ⟨rfl, rfl⟩ : .bool true = t ∧ r = rest := by simpa using h
      exact ⟨_, .trueWord, hskip⟩
  · next r hskip =>
      obtain ⟨rfl, rfl⟩ : .bool false = t ∧ r = rest := by simpa using h
      exact ⟨_, .falseWord, hskip⟩
  · simp only [Option.bind_eq_bind, Option.bind_eq_some_iff] at h
    obtain ⟨⟨n, r⟩, hread, he⟩ := h
    obtain ⟨rfl, rfl⟩ : .number n = t ∧ r = rest := by simpa using he
    obtain ⟨u, hs, hu⟩ := isNumeral_of_readNumeral hread
    exact ⟨u, .number hu, hs⟩

/-- What is read of an item is an item once the gap behind it is added. -/
theorem item (ih : Sound fuel) {t : Tree} (h : readTree fuel s = some (t, rest)) :
    ∃ u, IsItem u t ∧ s = u ++ skipGap rest := by
  obtain ⟨before, u, hbefore, hu, rfl⟩ := ih.tree h
  obtain ⟨after, hafter, hrest⟩ := exists_gap rest
  refine ⟨_, .mk hbefore hu hafter, ?_⟩
  rw [List.append_assoc, List.append_assoc, ← hrest]

theorem items_succ (ih : Sound fuel) {ts : List Tree}
    (h : readItems (fuel + 1) s = some (ts, rest)) : ∃ u, IsItems u ts ∧ s = u ++ ']' :: rest := by
  rw [readItems] at h
  simp only [Option.bind_eq_bind, Option.bind_eq_some_iff] at h
  obtain ⟨⟨t, r⟩, hread, h⟩ := h
  obtain ⟨u, hu, rfl⟩ := ih.item hread
  split at h
  · next s hcomma =>
      simp only [Option.bind_eq_some_iff] at h
      obtain ⟨⟨tail, r'⟩, htail, he⟩ := h
      obtain ⟨rfl, rfl⟩ : t :: tail = ts ∧ r' = rest := by simpa using he
      obtain ⟨w, hw, rfl⟩ := ih.items htail
      exact ⟨_, .more hu hw, by simp [hcomma]⟩
  · next r' hclose =>
      obtain ⟨rfl, rfl⟩ : [t] = ts ∧ r' = rest := by simpa using h
      exact ⟨u, .last hu, by rw [hclose]⟩
  · cases h

theorem members_succ (ih : Sound fuel) {ms : List (Option Text × Tree)}
    (h : readMembers (fuel + 1) s = some (ms, rest)) :
    ∃ u, IsMembers u ms ∧ s = u ++ '}' :: rest := by
  obtain ⟨before, hbefore, hs⟩ := exists_gap s
  rw [readMembers] at h
  split at h
  · next s₁ hquote =>
      simp only [Option.bind_eq_bind, Option.bind_eq_some_iff] at h
      obtain ⟨⟨key, s₂⟩, hkey, h⟩ := h
      obtain ⟨k, rfl, hk⟩ := isString_of_readString hkey
      obtain ⟨after, hafter, hs₂⟩ := exists_gap s₂
      split at h
      · next s₃ hcolon =>
          simp only [Option.bind_eq_some_iff] at h
          obtain ⟨⟨t, r⟩, hread, h⟩ := h
          obtain ⟨u, hu, rfl⟩ := ih.item hread
          have hmember := IsMember.mk hbefore hk hafter hu
          have hs : s = (before ++ '"' :: (k ++ '"' :: (after ++ ':' :: u))) ++ skipGap r := by
            rw [hs, hquote, hs₂, hcolon]
            simp
          split at h
          · next s₄ hcomma =>
              simp only [Option.bind_eq_some_iff] at h
              obtain ⟨⟨tail, r'⟩, htail, he⟩ := h
              obtain ⟨rfl, rfl⟩ : (key, t) :: tail = ms ∧ r' = rest := by
                simpa using he
              obtain ⟨w, hw, rfl⟩ := ih.members htail
              exact ⟨_, .more hmember hw, by rw [hs, hcomma]; simp⟩
          · next r' hclose =>
              obtain ⟨rfl, rfl⟩ : [(key, t)] = ms ∧ r' = rest := by simpa using h
              exact ⟨_, .last hmember, by rw [hs, hclose]⟩
          · cases h
      · cases h
  · cases h

end Sound

theorem sound (fuel : Nat) : Sound fuel := by
  induction fuel with
  | zero =>
      refine ⟨fun h => ?_, fun h => ?_, fun h => ?_⟩
      · simp [readTree] at h
      · simp [readItems] at h
      · simp [readMembers] at h
  | succ fuel ih =>
      refine ⟨fun {s rest t} h => ?_, ih.items_succ, ih.members_succ⟩
      obtain ⟨gap, hgap, hs⟩ := exists_gap s
      obtain ⟨u, hu, hskip⟩ := ih.skipGap_tree h
      exact ⟨gap, u, hgap, hu, by rw [← hskip, ← hs]⟩

/-! ### What is derived is read -/

theorem IsNumeral.startsNumeral {u : Text} {n : Numeral} (h : IsNumeral u n) :
    ∃ c s, u = c :: s ∧ StartsNumeral c := by
  cases h with
  | positive hunsigned =>
      obtain ⟨c, s, hu, hc⟩ := hunsigned.exists_cons
      exact ⟨c, s, hu, .inr hc⟩
  | negative => exact ⟨'-', _, rfl, .inl rfl⟩

/-- A value begins with no gap and with nothing that ends an array. -/
theorem IsTree.exists_cons {u : Text} {t : Tree} (h : IsTree u t) :
    ∃ c s, u = c :: s ∧ isGap c = false ∧ c ≠ ']' := by
  cases h with
  | nullWord => exact ⟨'n', _, rfl, rfl, by decide⟩
  | falseWord => exact ⟨'f', _, rfl, rfl, by decide⟩
  | trueWord => exact ⟨'t', _, rfl, rfl, by decide⟩
  | number hnumeral =>
      obtain ⟨c, s, hu, hc⟩ := hnumeral.startsNumeral
      refine ⟨c, s, hu, hc.isGap_eq_false, ?_⟩
      rintro rfl
      exact absurd hc (by decide)
  | string => exact ⟨'"', _, rfl, rfl, by decide⟩
  | emptyArray | array => exact ⟨'[', _, rfl, rfl, by decide⟩
  | emptyObject | object => exact ⟨'{', _, rfl, rfl, by decide⟩

theorem IsItem.exists_cons {u : Text} {t : Tree} (h : IsItem u t) (rest : Text) :
    ∃ c s, skipGap (u ++ rest) = c :: s ∧ isGap c = false ∧ c ≠ ']' := by
  obtain @⟨before, _, after, _, hbefore, htree, -⟩ := h
  obtain ⟨c, s, rfl, hgap, hc⟩ := htree.exists_cons
  refine ⟨c, s ++ (after ++ rest), ?_, hgap, hc⟩
  rw [List.append_assoc, skipGap_append hbefore, List.append_assoc, List.cons_append,
    skipGap_cons hgap]

theorem IsItems.exists_cons {u : Text} {ts : List Tree} (h : IsItems u ts) (rest : Text) :
    ∃ c s, skipGap (u ++ rest) = c :: s ∧ isGap c = false ∧ c ≠ ']' := by
  cases h with
  | last hitem => exact hitem.exists_cons rest
  | more hitem =>
      rw [List.append_assoc]
      exact hitem.exists_cons _

theorem IsMember.exists_cons {u : Text} {m : Option Text × Tree} (h : IsMember u m) (rest : Text) :
    ∃ s, skipGap (u ++ rest) = '"' :: s := by
  obtain ⟨hbefore, -, -, -⟩ := h
  exact ⟨_, by rw [List.append_assoc, skipGap_append hbefore]; rfl⟩

theorem IsMembers.exists_cons {u : Text} {ms : List (Option Text × Tree)} (h : IsMembers u ms)
    (rest : Text) : ∃ s, skipGap (u ++ rest) = '"' :: s := by
  cases h with
  | last hmember => exact hmember.exists_cons rest
  | more hmember =>
      rw [List.append_assoc]
      exact hmember.exists_cons _

theorem stopsNumeral_gap {gap : Text} (hgap : IsGap gap) {rest : Text} (h : StopsNumeral rest) :
    StopsNumeral (gap ++ rest) := by
  cases gap with
  | nil => exact h
  | cons c gap =>
      rintro d ⟨⟩
      have hc : isGap c = true := hgap c List.mem_cons_self
      simp only [isGap, Bool.or_eq_true, beq_iff_eq] at hc
      rcases hc with ((rfl | rfl) | rfl) | rfl <;> decide

/-- A character that ends an item. -/
def EndsItem (c : Char) : Prop :=
  c = ',' ∨ c = ']' ∨ c = '}'

theorem EndsItem.stopsNumeral {c : Char} (h : EndsItem c) (rest : Text) :
    StopsNumeral (c :: rest) := by
  rintro d ⟨⟩
  rcases h with rfl | rfl | rfl <;> decide

theorem EndsItem.isGap_eq_false {c : Char} (h : EndsItem c) : isGap c = false := by
  rcases h with rfl | rfl | rfl <;> decide

/-- With this much fuel the readers take all texts of a certain length that the grammar derives. -/
structure Complete (fuel : Nat) : Prop where
  tree {u rest : Text} {t : Tree} (h : IsTree u t) (hfuel : 2 * u.length ≤ fuel)
    (hrest : StopsNumeral rest) : readTree fuel (u ++ rest) = some (t, rest)
  items {u : Text} {ts : List Tree} (h : IsItems u ts) (hfuel : 2 * u.length < fuel)
    (rest : Text) : readItems fuel (u ++ ']' :: rest) = some (ts, rest)
  members {u : Text} {ms : List (Option Text × Tree)} (h : IsMembers u ms)
    (hfuel : 2 * u.length < fuel) (rest : Text) :
    readMembers fuel (u ++ '}' :: rest) = some (ms, rest)

namespace Complete

variable {fuel : Nat}

theorem item (ih : Complete fuel) {u : Text} {t : Tree} (h : IsItem u t)
    (hfuel : 2 * u.length ≤ fuel) {c : Char} (hc : EndsItem c) (rest : Text) :
    ∃ s, readTree fuel (u ++ c :: rest) = some (t, s) ∧ skipGap s = c :: rest := by
  obtain @⟨before, u, after, _, hbefore, htree, hafter⟩ := h
  have hlength : 2 * u.length ≤ fuel := by
    simp only [List.length_append] at hfuel
    omega
  have hstop := stopsNumeral_gap hafter (hc.stopsNumeral rest)
  have hskip : skipGap ((before ++ (u ++ after)) ++ c :: rest) =
      skipGap (u ++ (after ++ c :: rest)) := by
    rw [List.append_assoc, List.append_assoc, skipGap_append hbefore]
  refine ⟨after ++ c :: rest, ?_, ?_⟩
  · rw [readTree_congr fuel hskip, ih.tree htree hlength hstop]
  · rw [skipGap_append hafter, skipGap_cons hc.isGap_eq_false]

theorem tree_succ (ih : Complete fuel) {u rest : Text} {t : Tree} (h : IsTree u t)
    (hfuel : 2 * u.length ≤ fuel + 1) (hrest : StopsNumeral rest) :
    readTree (fuel + 1) (u ++ rest) = some (t, rest) := by
  cases h with
  | nullWord | falseWord | trueWord => rfl
  | number hnumeral =>
      obtain ⟨c, s, rfl, hc⟩ := hnumeral.startsNumeral
      exact readTree_numeral fuel hc (readNumeral_of_isNumeral hnumeral hrest)
  | @string u text hstring =>
      have hread := readString_of_isString hstring rest
      simp only [List.cons_append, List.append_assoc, List.nil_append]
      rw [readTree, skipGap_cons rfl]
      simp [hread]
  | @emptyArray gap hgap =>
      simp only [List.cons_append, List.append_assoc, List.nil_append]
      rw [readTree, skipGap_cons rfl]
      simp only [skipGap_append hgap, skipGap_cons (c := ']') rfl]
  | @array u ts hitems =>
      simp only [List.length_cons, List.length_append, List.length_nil] at hfuel
      obtain ⟨c, s, hskip, hgap, hc⟩ := hitems.exists_cons (']' :: rest)
      have hread := ih.items hitems (by omega) rest
      simp only [List.cons_append, List.append_assoc, List.nil_append]
      exact readTree_array hskip hgap hc hread
  | @emptyObject gap hgap =>
      simp only [List.cons_append, List.append_assoc, List.nil_append]
      rw [readTree, skipGap_cons rfl]
      simp only [skipGap_append hgap, skipGap_cons (c := '}') rfl]
  | @object u ms hmembers =>
      simp only [List.length_cons, List.length_append, List.length_nil] at hfuel
      obtain ⟨s, hskip⟩ := hmembers.exists_cons ('}' :: rest)
      have hread := ih.members hmembers (by omega) rest
      simp only [List.cons_append, List.append_assoc, List.nil_append]
      exact readTree_object hskip hread

theorem items_succ (ih : Complete fuel) {u : Text} {ts : List Tree} (h : IsItems u ts)
    (hfuel : 2 * u.length < fuel + 1) (rest : Text) :
    readItems (fuel + 1) (u ++ ']' :: rest) = some (ts, rest) := by
  cases h with
  | last hitem =>
      obtain ⟨s, hread, hskip⟩ := ih.item hitem (by omega) (.inr (.inl rfl)) rest
      simp [readItems, hread, hskip]
  | @more u w t ts hitem hitems =>
      simp only [List.length_append, List.length_cons] at hfuel
      obtain ⟨s, hread, hskip⟩ := ih.item hitem (by omega) (.inl rfl) (w ++ ']' :: rest)
      have htail := ih.items hitems (by omega) rest
      simp [readItems, hread, hskip, htail]

/-- One member: what the reader does behind it depends on what stands there. -/
theorem member (ih : Complete fuel) {u : Text} {m : Option Text × Tree} (h : IsMember u m)
    (hfuel : 2 * u.length ≤ fuel) {c : Char} (hc : EndsItem c) (rest : Text) :
    readMembers (fuel + 1) (u ++ c :: rest) =
      match c :: rest with
      | ',' :: s => do
        let (ms, s) ← readMembers fuel s
        some (m :: ms, s)
      | '}' :: s => some ([m], s)
      | _ => none := by
  obtain @⟨before, k, after, u, key, t, hbefore, hkey, hafter, hvalue⟩ := h
  have hlength : 2 * u.length ≤ fuel := by
    simp only [List.length_append, List.length_cons] at hfuel
    omega
  obtain ⟨s, hread, hskip⟩ := ih.item hvalue hlength hc rest
  have hstring := readString_of_isString hkey (after ++ ':' :: (u ++ c :: rest))
  simp only [List.append_assoc, List.cons_append]
  rw [readMembers, skipGap_append hbefore, skipGap_cons rfl]
  simp only [hstring, Option.bind_eq_bind, Option.bind_some, skipGap_append hafter,
    skipGap_cons (c := ':') rfl, hread, hskip]
  rfl

theorem members_succ (ih : Complete fuel) {u : Text} {ms : List (Option Text × Tree)}
    (h : IsMembers u ms) (hfuel : 2 * u.length < fuel + 1) (rest : Text) :
    readMembers (fuel + 1) (u ++ '}' :: rest) = some (ms, rest) := by
  cases h with
  | last hmember =>
      rw [ih.member hmember (by omega) (.inr (.inr rfl)) rest]
      rfl
  | @more u w m ms hmember hmembers =>
      simp only [List.length_append, List.length_cons] at hfuel
      have htail := ih.members hmembers (by omega) rest
      rw [List.append_assoc, List.cons_append, ih.member hmember (by omega) (.inl rfl)]
      simp [htail]

end Complete

theorem complete (fuel : Nat) : Complete fuel := by
  induction fuel with
  | zero =>
      refine ⟨fun h hfuel _ => ?_, fun _ hfuel _ => ?_, fun _ hfuel _ => ?_⟩
      · obtain ⟨c, s, rfl, -, -⟩ := h.exists_cons
        simp at hfuel
      · omega
      · omega
  | succ fuel ih => exact ⟨ih.tree_succ, ih.items_succ, ih.members_succ⟩

/-- A text is read as a tree if and only if it derives as that tree, with gaps around it. -/
theorem Tree.ofText?_eq_some_iff {s : Text} {t : Tree} : ofText? s = some t ↔ IsItem s t := by
  constructor
  · intro h
    simp only [ofText?, Option.bind_eq_bind, Option.bind_eq_some_iff] at h
    obtain ⟨⟨t', rest⟩, hread, h⟩ := h
    split at h
    · next hrest =>
        cases h
        obtain ⟨u, hu, rfl⟩ := (sound _).item hread
        rw [List.isEmpty_iff.1 hrest, List.append_nil]
        exact hu
    · cases h
  · rintro @⟨before, u, after, _, hbefore, htree, hafter⟩
    have hskip : skipGap (before ++ (u ++ after)) = skipGap (u ++ after) := skipGap_append hbefore _
    have hend : StopsNumeral [] := fun _ hc => nomatch hc
    have hread := (complete (2 * (before ++ (u ++ after)).length + 2)).tree htree
      (by simp only [List.length_append]; omega) (stopsNumeral_gap hafter hend)
    rw [List.append_nil] at hread
    have hempty : skipGap after = [] := List.dropWhile_eq_nil_iff.2 hafter
    rw [ofText?, readTree_congr _ hskip, hread]
    simp [hempty]

end DocTags.Json
