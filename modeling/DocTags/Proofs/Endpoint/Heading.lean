import DocTags.Endpoint.Reader
import DocTags.Proofs.Text.Contains
import DocTags.Proofs.Text.Cuts
import DocTags.Proofs.Text.Groups
import DocTags.Proofs.Text.Trim

/-!
The line of a parameter or of a property as it is written: a name, flags in parentheses, a data type
in brackets, and the first line of a description. Each reader scans the whole line for its own
marks, and finds its part because the parts in front of it have no such mark.
-/

namespace DocTags

structure Heading where
  name : Text
  flags : List Text
  datatype : Text
  description : Text

namespace Heading

def flagsText (flags : List Text) : Text :=
  flags.flatMap fun flag => '(' :: (flag ++ [')', ' '])

/-- The flags and the data type. -/
def marks (h : Heading) : Text :=
  flagsText h.flags ++ '[' :: (h.datatype ++ [']'])

def text (h : Heading) : Text :=
  h.name ++ ' ' :: (h.marks ++ ' ' :: h.description)

structure IsFlag (flag : Text) : Prop where
  isLine : flag.IsLine
  marks : ∀ c ∈ flag, c ≠ ')' ∧ c ≠ '[' ∧ c ≠ ']'

instance (flag : Text) : Decidable (IsFlag flag) :=
  decidable_of_iff (flag.IsLine ∧ ∀ c ∈ flag, c ≠ ')' ∧ c ≠ '[' ∧ c ≠ ']')
    ⟨fun h => ⟨h.1, h.2⟩, fun h => ⟨h.isLine, h.marks⟩⟩

structure Valid (h : Heading) : Prop where
  name : h.name.IsLine
  name_marks : ∀ c ∈ h.name, c ≠ '(' ∧ c ≠ '[' ∧ c ≠ ']'
  flags : ∀ flag ∈ h.flags, IsFlag flag
  datatype : h.datatype.IsLine
  datatype_marks : ']' ∉ h.datatype
  description : h.description.IsLine

/-- What stands in front of the flags: the name and a blank, if there is a name. -/
def lead (h : Heading) : Text :=
  if h.name = [] then [] else h.name ++ [' ']

/-- What stands behind the data type: a blank and the description, if there is one. -/
def tail (h : Heading) : Text :=
  if h.description = [] then [] else ' ' :: h.description

variable {h : Heading}

theorem exists_marks_eq_cons (h : Heading) :
    ∃ c s, h.marks = c :: s ∧ (c = '(' ∨ c = '[') := by
  unfold marks flagsText
  cases h.flags with
  | nil => exact ⟨'[', _, rfl, .inr rfl⟩
  | cons flag flags => exact ⟨'(', _, rfl, .inl rfl⟩

theorem isTrimmed_marks (h : Heading) : h.marks.IsTrimmed := by
  constructor
  · intro c hc
    obtain ⟨d, s, hmarks, hd⟩ := h.exists_marks_eq_cons
    obtain rfl : d = c := by simpa [hmarks] using hc
    rcases hd with rfl | rfl <;> decide
  · intro c hc
    obtain rfl : ']' = c := by simpa [marks, List.getLast?_append, List.getLast?_cons] using hc
    decide

theorem marks_ne_nil (h : Heading) : h.marks ≠ [] := by
  simp [marks]

theorem Valid.trim_text (hv : h.Valid) : Text.trim h.text = h.lead ++ (h.marks ++ h.tail) :=
  Text.trim_between hv.name.isTrimmed h.isTrimmed_marks h.marks_ne_nil hv.description.isTrimmed

theorem Valid.trim_lead (hv : h.Valid) : Text.trim h.lead = h.name := by
  unfold lead
  split
  · next hn => rw [hn]; rfl
  · next hn =>
      rw [Text.trim_append hv.name.isTrimmed hn, Text.trimEnd_cons_of_isTrimmed (by decide),
        if_pos rfl, List.append_nil]

theorem Valid.trim_tail (hv : h.Valid) : Text.trim h.tail = h.description := by
  unfold tail
  split
  · next hn => rw [hn]; rfl
  · rw [Text.trim_cons_of_isBlank (by decide), Text.trim_eq_self hv.description.isTrimmed]

theorem Valid.of_mem_lead (hv : h.Valid) {c : Char} (hc : c ∈ h.lead) :
    c ≠ '(' ∧ c ≠ '[' ∧ c ≠ ']' := by
  have hc' : c ∈ h.name ∨ c = ' ' := by
    unfold lead at hc
    split at hc
    · cases hc
    · simpa using hc
  rcases hc' with hc | rfl
  · exact hv.name_marks c hc
  · decide

theorem Valid.of_mem_flagsText (hv : h.Valid) {c : Char} (hc : c ∈ flagsText h.flags) :
    c ≠ '[' ∧ c ≠ ']' := by
  obtain ⟨flag, hflag, hc⟩ := List.mem_flatMap.1 hc
  have hc' : c = '(' ∨ c ∈ flag ∨ c = ')' ∨ c = ' ' := by simpa using hc
  rcases hc' with rfl | hc | rfl | rfl
  · decide
  · exact ((hv.flags flag hflag).marks c hc).2
  · decide
  · decide

theorem Valid.not_mem_text (hv : h.Valid) : '\n' ∉ h.text := by
  intro hc
  have hc' : '\n' ∈ h.name ∨ (∃ flag ∈ h.flags, '\n' ∈ flag) ∨ '\n' ∈ h.datatype ∨
      '\n' ∈ h.description := by
    simpa [text, marks, flagsText, or_assoc] using hc
  rcases hc' with hc | ⟨flag, hflag, hc⟩ | hc | hc
  · exact hv.name.line hc
  · exact (hv.flags flag hflag).isLine.line hc
  · exact hv.datatype.line hc
  · exact hv.description.line hc

/-! ### What the readers find -/

theorem Valid.headline (hv : h.Valid) :
    Text.trim (DocTags.headline (Text.trim h.text)) = h.name := by
  have hlead : ∀ c ∈ h.lead, (!opensGroup c) = true := by
    intro c hc
    obtain ⟨h₁, h₂, -⟩ := hv.of_mem_lead hc
    simp [opensGroup, h₁, h₂]
  have hmarks (t : Text) : (h.marks ++ t).takeWhile (fun c => !opensGroup c) = [] := by
    obtain ⟨c, s, hs, hc⟩ := h.exists_marks_eq_cons
    rcases hc with rfl | rfl <;> simp [hs, opensGroup]
  rw [DocTags.headline, hv.trim_text, List.takeWhile_append_of_pos hlead, hmarks, List.append_nil,
    hv.trim_lead]

theorem Valid.datatypeOf (hv : h.Valid) : DocTags.datatypeOf (Text.trim h.text) = h.datatype := by
  have hlead : '[' ∉ h.lead := fun hc => (hv.of_mem_lead hc).2.1 rfl
  have hflags : '[' ∉ flagsText h.flags := fun hc => (hv.of_mem_flagsText hc).1 rfl
  rw [DocTags.datatypeOf, Text.firstGroup?, hv.trim_text, marks, Text.groups_append_of_notMem hlead,
    List.append_assoc, Text.groups_append_of_notMem hflags, List.cons_append, List.append_assoc,
    List.singleton_append, Text.groups_cons_append hv.datatype_marks]
  exact Text.trim_eq_self hv.datatype.isTrimmed

theorem Valid.trailing? (hv : h.Valid) :
    DocTags.trailing? (Text.trim h.text) = some h.tail := by
  -- The first closing bracket is the one behind the data type.
  have hfront : ∀ c ∈ h.lead ++ (flagsText h.flags ++ '[' :: h.datatype), (c == ']') = false := by
    intro c hc
    rw [beq_eq_false_iff_ne]
    rcases List.mem_append.1 hc with hc | hc
    · exact (hv.of_mem_lead hc).2.2
    · rcases List.mem_append.1 hc with hc | hc
      · exact (hv.of_mem_flagsText hc).2
      · rcases List.mem_cons.1 hc with rfl | hc
        · decide
        · rintro rfl
          exact hv.datatype_marks hc
  have htext : Text.trim h.text =
      h.lead ++ (flagsText h.flags ++ '[' :: h.datatype) ++ ']' :: h.tail := by
    simp [hv.trim_text, marks]
  rw [DocTags.trailing?, htext, Text.cut?_append_cons h.tail hfront (beq_self_eq_true ']')]

theorem groups_flagsText {flags : List Text}
    (hflags : ∀ flag ∈ flags, flag.IsTrimmed ∧ ')' ∉ flag) (t : Text) :
    Text.groups '(' ')' (flagsText flags ++ t) = flags ++ Text.groups '(' ')' t := by
  induction flags with
  | nil => rfl
  | cons flag flags ih =>
      obtain ⟨htrimmed, hclosed⟩ := hflags flag List.mem_cons_self
      have hrest : Text.groups '(' ')' (' ' :: (flagsText flags ++ t)) =
          flags ++ Text.groups '(' ')' t := by
        rw [← ih fun f hf => hflags f (List.mem_cons_of_mem flag hf)]
        exact Text.groups_append_of_notMem (s := [' ']) (by decide) _
      have htext : flagsText (flag :: flags) ++ t =
          '(' :: (flag ++ ')' :: ' ' :: (flagsText flags ++ t)) := by
        simp [flagsText]
      rw [htext, Text.groups_cons_append hclosed, Text.trim_eq_self htrimmed, hrest,
        List.cons_append]

theorem Valid.groups (hv : h.Valid) (hdatatype : '(' ∉ h.datatype) :
    Text.groups '(' ')' (Text.trim h.text) = h.flags ++ Text.groups '(' ')' h.description := by
  have hlead : '(' ∉ h.lead := fun hc => (hv.of_mem_lead hc).1 rfl
  have htail : Text.groups '(' ')' h.tail = Text.groups '(' ')' h.description := by
    unfold tail
    split
    · next hn => rw [hn]
    · exact Text.groups_append_of_notMem (s := [' ']) (by decide) _
  have hflags : ∀ flag ∈ h.flags, flag.IsTrimmed ∧ ')' ∉ flag := fun flag hflag =>
    ⟨(hv.flags flag hflag).isLine.isTrimmed, fun hc => ((hv.flags flag hflag).marks _ hc).1 rfl⟩
  have hbracket : '(' ∉ '[' :: (h.datatype ++ [']']) := by simpa using hdatatype
  rw [hv.trim_text, marks, Text.groups_append_of_notMem hlead, List.append_assoc,
    groups_flagsText hflags, Text.groups_append_of_notMem hbracket, htail]

/-- A flag in parentheses. -/
def parenthesized (flag : Text) : Text :=
  '(' :: (flag ++ [')'])

theorem contains_flagsText {mark : Text} (hblank : ' ' ∉ mark) (flags : List Text) (t : Text) :
    Text.contains mark (flagsText flags ++ t) =
      (flags.any (fun flag => Text.contains mark (parenthesized flag)) ||
        Text.contains mark t) := by
  induction flags with
  | nil => rfl
  | cons flag flags ih =>
      have htext : flagsText (flag :: flags) ++ t =
          parenthesized flag ++ ' ' :: (flagsText flags ++ t) := by
        simp [flagsText, parenthesized]
      rw [htext, Text.contains_append_cons hblank, ih, List.any_cons, Bool.or_assoc]

/-- A mark in parentheses is found as a flag, in the data type or in the description. -/
theorem Valid.contains (hv : h.Valid) {mark : Text} (hopen : '(' ∈ mark)
    (hbetween : ∀ c ∈ mark, c ≠ ' ' ∧ c ≠ '[' ∧ c ≠ ']') :
    Text.contains mark (Text.trim h.text) =
      (h.flags.any (fun flag => Text.contains mark (parenthesized flag)) ||
        (Text.contains mark h.datatype || Text.contains mark h.description)) := by
  -- Between any two parts stands a blank or a bracket, which the mark can not reach across.
  have hblank : ' ' ∉ mark := fun hc => (hbetween _ hc).1 rfl
  have hopening : '[' ∉ mark := fun hc => (hbetween _ hc).2.1 rfl
  have hclosing : ']' ∉ mark := fun hc => (hbetween _ hc).2.2 rfl
  have hnil : Text.contains mark [] = false := Text.contains_eq_false hopen (by simp)
  have hlead (t : Text) : Text.contains mark (h.lead ++ t) = Text.contains mark t := by
    unfold lead
    split
    · rfl
    · have hname : '(' ∉ h.name := fun hc => (hv.name_marks _ hc).1 rfl
      rw [List.append_assoc, List.singleton_append, Text.contains_append_cons hblank,
        Text.contains_eq_false hopen hname, Bool.false_or]
  have htail : Text.contains mark h.tail = Text.contains mark h.description := by
    unfold tail
    split
    · next hd => rw [hd]
    · have hsplit := Text.contains_append_cons hblank [] h.description
      rwa [List.nil_append, hnil, Bool.false_or] at hsplit
  have hbracket : Text.contains mark ('[' :: (h.datatype ++ ']' :: h.tail)) =
      (Text.contains mark h.datatype || Text.contains mark h.description) := by
    have hsplit := Text.contains_append_cons hopening [] (h.datatype ++ ']' :: h.tail)
    rwa [List.nil_append, hnil, Bool.false_or, Text.contains_append_cons hclosing, htail] at hsplit
  have htext : Text.trim h.text =
      h.lead ++ (flagsText h.flags ++ '[' :: (h.datatype ++ ']' :: h.tail)) := by
    simp [hv.trim_text, marks]
  rw [htext, hlead, contains_flagsText hblank, hbracket]

end Heading
end DocTags
