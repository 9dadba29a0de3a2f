import DocTags.Text.Blank
import Mathlib.Data.List.DropRight

/-!
Trimmed texts: those without a blank at either end. Trimming leaves exactly these alone, takes
nothing but blanks away, and so does not see what blanks stand around a text.
-/

namespace DocTags.Text

/-- A statement about the characters of a text is decided for these only, and not for all characters
that there are. -/
instance (priority := high) decidableForallMem (s : Text) (p : Char → Prop) [DecidablePred p] :
    Decidable (∀ c ∈ s, p c) :=
  List.decidableBAll p s

instance (priority := high) decidableForallMemOption (c? : Option Char) (p : Char → Prop)
    [DecidablePred p] : Decidable (∀ c ∈ c?, p c) :=
  Option.decidableForallMem c?

/-- No blank stands at either end of a text. -/
structure IsTrimmed (s : Text) : Prop where
  head : ∀ c ∈ s.head?, isBlank c = false
  last : ∀ c ∈ s.getLast?, isBlank c = false

instance (s : Text) : Decidable (IsTrimmed s) :=
  decidable_of_iff ((∀ c ∈ s.head?, isBlank c = false) ∧ ∀ c ∈ s.getLast?, isBlank c = false)
    ⟨fun h => ⟨h.1, h.2⟩, fun h => ⟨h.head, h.last⟩⟩

/-- A text on one line, without blanks at its ends. -/
structure IsLine (s : Text) : Prop where
  isTrimmed : IsTrimmed s
  line : '\n' ∉ s

instance (s : Text) : Decidable (IsLine s) :=
  decidable_of_iff (IsTrimmed s ∧ '\n' ∉ s) ⟨fun h => ⟨h.1, h.2⟩, fun h => ⟨h.isTrimmed, h.line⟩⟩

theorem trimEnd_eq_rdropWhile (s : Text) : trimEnd s = s.rdropWhile isBlank := rfl

theorem trimStart_cons {c : Char} (hc : isBlank c = false) (s : Text) :
    trimStart (c :: s) = c :: s := by
  simp [trimStart, hc]

theorem trimStart_eq_self {s : Text} (h : ∀ c ∈ s.head?, isBlank c = false) :
    trimStart s = s := by
  cases s with
  | nil => rfl
  | cons c s => exact trimStart_cons (h c rfl) s

theorem trimEnd_eq_self {s : Text} (h : ∀ c ∈ s.getLast?, isBlank c = false) :
    trimEnd s = s := by
  rw [trimEnd_eq_rdropWhile, List.rdropWhile_eq_self_iff]
  intro hne
  simp [h _ (List.getLast?_eq_some_getLast hne)]

theorem trim_eq_self {s : Text} (h : IsTrimmed s) : trim s = s := by
  rw [trim, trimStart_eq_self h.head, trimEnd_eq_self h.last]

theorem trimEnd_isPrefix (s : Text) : trimEnd s <+: s := by
  rw [trimEnd_eq_rdropWhile]
  exact List.rdropWhile_prefix isBlank s

theorem isTrimmed_trim (s : Text) : IsTrimmed (trim s) := by
  constructor
  · intro c hc
    obtain ⟨r, hr⟩ := trimEnd_isPrefix (trimStart s)
    have hhead : (trimStart s).head? = some c := by
      rw [← hr, List.head?_append]
      exact Option.or_eq_some_iff.2 (.inl hc)
    have hnot := List.head?_dropWhile_not isBlank s
    rw [← trimStart, hhead] at hnot
    exact hnot
  · intro c hc
    have hne : (trimStart s).rdropWhile isBlank ≠ [] := List.ne_nil_of_mem (List.mem_of_getLast? hc)
    have hlast := List.rdropWhile_last_not isBlank (trimStart s) hne
    rw [trim, trimEnd_eq_rdropWhile, List.getLast?_eq_some_getLast hne] at hc
    cases hc
    simpa using hlast

theorem mem_of_mem_trim {c : Char} {s : Text} (h : c ∈ trim s) : c ∈ s :=
  (List.dropWhile_sublist isBlank).subset ((trimEnd_isPrefix (trimStart s)).subset h)

/-! ### Blanks around a text -/

theorem trimEnd_append {s : Text} (h : trimEnd s = s) (t : Text) :
    trimEnd (s ++ t) = s ++ trimEnd t := by
  have hs : s.reverse.dropWhile isBlank = s.reverse := List.reverse_eq_iff.1 h
  rw [trimEnd, List.reverse_append, List.dropWhile_append, hs]
  cases ht : (t.reverse.dropWhile isBlank) with
  | nil => simp [trimEnd, ht]
  | cons c r => simp [trimEnd, ht]

/-- Of a text that begins with a trimmed one, only the end is trimmed. -/
theorem trim_append {s : Text} (h : IsTrimmed s) (hne : s ≠ []) (t : Text) :
    trim (s ++ t) = s ++ trimEnd t := by
  have hstart : trimStart (s ++ t) = s ++ t := by
    apply trimStart_eq_self
    cases s with
    | nil => exact absurd rfl hne
    | cons c s => exact h.head
  rw [trim, hstart, trimEnd_append (trimEnd_eq_self h.last)]

theorem trim_cons_of_isBlank {c : Char} (hc : isBlank c = true) (s : Text) :
    trim (c :: s) = trim s := by
  simp [trim, trimStart, hc]

theorem trimEnd_cons (c : Char) (s : Text) :
    trimEnd (c :: s) = if trimEnd s = [] ∧ isBlank c = true then [] else c :: trimEnd s := by
  rw [trimEnd, List.reverse_cons, List.dropWhile_append]
  cases h : s.reverse.dropWhile isBlank <;> cases hc : isBlank c <;> simp [trimEnd, h, hc]

theorem trim_trimEnd (s : Text) : trim (trimEnd s) = trim s := by
  induction s with
  | nil => rfl
  | cons c s ih =>
      rw [trimEnd_cons]
      cases hc : isBlank c with
      | false =>
          have hidem : trimEnd (trimEnd s) = trimEnd s := List.rdropWhile_idempotent isBlank s
          simp [trim, trimStart_cons hc, trimEnd_cons, hc, hidem]
      | true =>
          rw [trim_cons_of_isBlank hc, ← ih]
          split
          · next h => rw [h.1]
          · exact trim_cons_of_isBlank hc (trimEnd s)

theorem trim_append_of_forall_isBlank (s : Text) {after : Text}
    (h : ∀ c ∈ after, isBlank c = true) : trim (s ++ after) = trim s := by
  have hend : trimEnd (s ++ after) = trimEnd s := by
    have hrev : ∀ c ∈ after.reverse, isBlank c = true := fun c hc => h c (List.mem_reverse.1 hc)
    rw [trimEnd, List.reverse_append, List.dropWhile_append_of_pos hrev, trimEnd]
  rw [← trim_trimEnd, hend, trim_trimEnd]

theorem trim_surrounded {before after : Text} (hbefore : ∀ c ∈ before, isBlank c = true)
    (hafter : ∀ c ∈ after, isBlank c = true) (s : Text) :
    trim (before ++ s ++ after) = trim s := by
  rw [trim_append_of_forall_isBlank _ hafter]
  induction before with
  | nil => rfl
  | cons c before ih =>
      rw [List.forall_mem_cons] at hbefore
      rw [List.cons_append, trim_cons_of_isBlank hbefore.1, ih hbefore.2]

/-- What trimming takes away are blanks on both sides. -/
theorem exists_eq_append_trim (s : Text) :
    ∃ before after, s = before ++ trim s ++ after ∧ (∀ c ∈ before, isBlank c = true) ∧
      ∀ c ∈ after, isBlank c = true := by
  refine ⟨s.takeWhile isBlank, (trimStart s).rtakeWhile isBlank, ?_, ?_, ?_⟩
  · rw [trim, trimEnd_eq_rdropWhile, List.append_assoc, List.rdropWhile_append_rtakeWhile,
      trimStart, List.takeWhile_append_dropWhile]
  · exact fun c hc => List.mem_takeWhile_imp hc
  · exact fun c hc => List.mem_rtakeWhile_imp hc

theorem mem_trim_of_mem {c : Char} {s : Text} (h : c ∈ s) (hc : isBlank c = false) :
    c ∈ trim s := by
  obtain ⟨before, after, hs, hbefore, hafter⟩ := exists_eq_append_trim s
  have hblank {part : Text} (hpart : ∀ x ∈ part, isBlank x = true) : c ∉ part := fun hmem => by
    simp [hpart c hmem] at hc
  rw [hs] at h
  simpa [hblank hbefore, hblank hafter] using h

theorem trim_eq_nil_iff {s : Text} : trim s = [] ↔ ∀ c ∈ s, isBlank c = true := by
  constructor
  · intro h
    obtain ⟨before, after, hs, hbefore, hafter⟩ := exists_eq_append_trim s
    rw [h, List.append_nil] at hs
    rw [hs, List.forall_mem_append]
    exact ⟨hbefore, hafter⟩
  · exact trim_append_of_forall_isBlank []

theorem trim_ne_nil_iff {s : Text} : trim s ≠ [] ↔ ∃ c ∈ s, isBlank c = false := by
  simp [trim_eq_nil_iff]

theorem trim_trim (s : Text) : trim (trim s) = trim s :=
  trim_eq_self (isTrimmed_trim s)

/-- What is left of a blank and a trimmed text behind it. -/
theorem trimEnd_cons_of_isTrimmed {s : Text} (hs : IsTrimmed s) :
    trimEnd (' ' :: s) = if s = [] then [] else ' ' :: s := by
  rw [trimEnd_cons, trimEnd_eq_self hs.last]
  simp [show isBlank ' ' = true by decide]

/-- A text between two parts that may be empty. Of the blanks in between, those next to an empty
part are lost. -/
theorem trim_between {s mid t : Text} (hs : IsTrimmed s) (hmid : IsTrimmed mid) (hne : mid ≠ [])
    (ht : IsTrimmed t) :
    trim (s ++ ' ' :: (mid ++ ' ' :: t)) =
      (if s = [] then [] else s ++ [' ']) ++ (mid ++ (if t = [] then [] else ' ' :: t)) := by
  have htail : trimEnd (mid ++ ' ' :: t) = mid ++ (if t = [] then [] else ' ' :: t) := by
    rw [trimEnd_append (trimEnd_eq_self hmid.last), trimEnd_cons_of_isTrimmed ht]
  by_cases h : s = []
  · subst s
    rw [List.nil_append, trim_cons_of_isBlank (by decide), trim_append hmid hne,
      trimEnd_cons_of_isTrimmed ht]
    rfl
  · rw [trim_append hs h, trimEnd_cons, htail]
    simp [h, hne]

/-! ### Marks around a text -/

theorem trimMarks_surrounded {mark : Char} {s : Text} (hhead : s.head? ≠ some mark)
    (hlast : s.getLast? ≠ some mark) : trimMarks mark (mark :: (s ++ [mark])) = s := by
  have hdrop {t : Text} (h : t.head? ≠ some mark) :
      t.dropWhile (· == mark) = t := by
    cases t with
    | nil => rfl
    | cons c t => exact List.dropWhile_cons_of_neg (by simpa using h)
  rw [trimMarks, List.dropWhile_cons_of_pos (by simp)]
  cases s with
  | nil => simp
  | cons c s =>
      rw [List.cons_append, hdrop (t := c :: (s ++ [mark])) (by simpa using hhead),
        ← List.cons_append, List.reverse_append, List.reverse_singleton, List.singleton_append,
        List.dropWhile_cons_of_pos (by simp), hdrop (by rwa [List.head?_reverse]),
        List.reverse_reverse]

end DocTags.Text
