import DocTags.Proofs.Text.Cuts
import DocTags.Proofs.Text.Trim
import DocTags.Text.Groups

/-!
Groups of a text that is put together from parts. A part without an opening mark has no groups, and
a part between marks is one group, unless it holds a closing mark. Every text is put together from
such parts, and in one way only, so that this says what the groups of a text are; and more text at
the end of it adds groups, but leaves those alone that are there.
-/

namespace DocTags.Text

variable {opening closing : Char}

theorem groups_append_of_notMem {s : Text} (h : opening ∉ s) (t : Text) :
    groups opening closing (s ++ t) = groups opening closing t := by
  induction s with
  | nil => rfl
  | cons c s ih =>
      rw [List.mem_cons, not_or] at h
      rw [List.cons_append, groups, groupsFrom, if_neg (Ne.symm h.1), ← groups, ih h.2]

theorem groupsFrom_some_append {content : Text} (h : closing ∉ content) (inside t : Text) :
    groupsFrom opening closing (some inside) (content ++ closing :: t) =
      trim (inside.reverse ++ content) :: groups opening closing t := by
  induction content generalizing inside with
  | nil => simp [groupsFrom, groups]
  | cons c content ih =>
      rw [List.mem_cons, not_or] at h
      rw [List.cons_append, groupsFrom, if_neg (Ne.symm h.1), ih h.2]
      simp

theorem groups_cons_append {content : Text} (h : closing ∉ content) (t : Text) :
    groups opening closing (opening :: (content ++ closing :: t)) =
      trim content :: groups opening closing t := by
  rw [groups, groupsFrom, if_pos rfl, groupsFrom_some_append h, List.reverse_nil, List.nil_append]

theorem groupsFrom_some_of_notMem {s : Text} (h : closing ∉ s) (inside : Text) :
    groupsFrom opening closing (some inside) s = [] := by
  induction s generalizing inside with
  | nil => rfl
  | cons c s ih =>
      rw [List.mem_cons, not_or] at h
      rw [groupsFrom, if_neg (Ne.symm h.1), ih h.2]

/-! ### Where the groups of a text stand -/

/-- A group in its place: what stands between the group before it and its opening mark, and what
stands between its marks. -/
structure PlacedGroup where
  before : Text
  content : Text

/-- A text taken apart into its groups and what stands behind the last of them. -/
structure Grouping where
  groups : List PlacedGroup
  tail : Text

/-- Puts a text together again. -/
def Grouping.text (opening closing : Char) (d : Grouping) : Text :=
  d.groups.flatMap (fun g => g.before ++ [opening] ++ g.content ++ [closing]) ++ d.tail

/-- The conditions on the groups of a text. A group begins at the first opening mark behind the
group before it and ends at the first closing mark after that; behind the last group, no closing
mark comes after an opening one. -/
structure IsGrouping (opening closing : Char) (s : Text) (d : Grouping) : Prop where
  text_eq : d.text opening closing = s
  before : ∀ g ∈ d.groups, opening ∉ g.before
  content : ∀ g ∈ d.groups, closing ∉ g.content
  tail : ¬List.Sublist [opening, closing] d.tail

theorem Grouping.text_cons (g : PlacedGroup) (gs : List PlacedGroup) (tail : Text) :
    text opening closing ⟨g :: gs, tail⟩ =
      g.before ++ opening :: (g.content ++ closing :: text opening closing ⟨gs, tail⟩) := by
  simp [text]

theorem isGrouping_nil_iff {s tail : Text} :
    IsGrouping opening closing s ⟨[], tail⟩ ↔
      s = tail ∧ ¬List.Sublist [opening, closing] tail := by
  constructor
  · intro h
    exact ⟨h.text_eq.symm, h.tail⟩
  · rintro ⟨rfl, htail⟩
    exact ⟨rfl, by simp, by simp, htail⟩

/-- The first group is taken off a text, and what is behind it has the other ones. -/
theorem isGrouping_cons_iff {s tail : Text} {g : PlacedGroup} {gs : List PlacedGroup} :
    IsGrouping opening closing s ⟨g :: gs, tail⟩ ↔
      opening ∉ g.before ∧ closing ∉ g.content ∧
      ∃ rest, s = g.before ++ opening :: (g.content ++ closing :: rest) ∧
        IsGrouping opening closing rest ⟨gs, tail⟩ := by
  constructor
  · rintro ⟨htext, hbefore, hcontent, htail⟩
    obtain ⟨hg, hbefore⟩ := List.forall_mem_cons.1 hbefore
    obtain ⟨hg', hcontent⟩ := List.forall_mem_cons.1 hcontent
    exact ⟨hg, hg', _, htext ▸ Grouping.text_cons g gs tail, rfl, hbefore, hcontent, htail⟩
  · rintro ⟨hg, hg', _, rfl, rfl, hbefore, hcontent, htail⟩
    exact ⟨Grouping.text_cons g gs tail, List.forall_mem_cons.2 ⟨hg, hbefore⟩,
      List.forall_mem_cons.2 ⟨hg', hcontent⟩, htail⟩

/-! ### Existence -/

/-- Either a group comes first in a text, or there is none. -/
theorem exists_first_group_or (opening closing : Char) (s : Text) :
    (∃ g : PlacedGroup, opening ∉ g.before ∧ closing ∉ g.content ∧
      ∃ rest, s = g.before ++ opening :: (g.content ++ closing :: rest)) ∨
    ¬List.Sublist [opening, closing] s := by
  induction s with
  | nil => exact .inr (by simp)
  | cons c s ih =>
      by_cases hopening : opening = c
      · subst c
        by_cases hclosing : closing ∈ s
        · obtain ⟨content, rest, rfl, hcontent⟩ := List.eq_append_cons_of_mem hclosing
          exact .inl ⟨⟨[], content⟩, by simp, hcontent, rest, rfl⟩
        · right
          rwa [List.cons_sublist_cons, List.singleton_sublist]
      · rcases ih with ⟨g, hbefore, hcontent, rest, rfl⟩ | hnone
        · have hcons : opening ∉ c :: g.before := by simp [hopening, hbefore]
          exact .inl ⟨⟨c :: g.before, g.content⟩, hcons, hcontent, rest, rfl⟩
        · exact .inr fun h => hnone (h.of_cons_of_ne hopening)

/-- The groups come off a text one by one, and what remains is shorter each time. -/
theorem exists_isGrouping (opening closing : Char) (s : Text) :
    ∃ d, IsGrouping opening closing s d := by
  rcases exists_first_group_or opening closing s with ⟨g, hbefore, hcontent, rest, hs⟩ | hnone
  · obtain ⟨d, hd⟩ := exists_isGrouping opening closing rest
    exact ⟨⟨g :: d.groups, d.tail⟩, isGrouping_cons_iff.2 ⟨hbefore, hcontent, rest, hs, hd⟩⟩
  · exact ⟨⟨[], s⟩, isGrouping_nil_iff.2 ⟨rfl, hnone⟩⟩
termination_by s.length
decreasing_by
  simp only [hs, List.length_append, List.length_cons]
  omega

/-! ### Uniqueness -/

theorem IsGrouping.unique {s : Text} {d e : Grouping} (hd : IsGrouping opening closing s d)
    (he : IsGrouping opening closing s e) : d = e := by
  have hgroup (g : PlacedGroup) (rest : Text) : List.Sublist [opening, closing]
      (g.before ++ opening :: (g.content ++ closing :: rest)) := by simp
  obtain ⟨gs, tail⟩ := d
  obtain ⟨gs', tail'⟩ := e
  induction gs generalizing s gs' with
  | nil =>
      obtain ⟨rfl, htail⟩ := isGrouping_nil_iff.1 hd
      cases gs' with
      | nil =>
          obtain ⟨rfl, -⟩ := isGrouping_nil_iff.1 he
          rfl
      | cons g' gs' =>
          obtain ⟨-, -, rest, rfl, -⟩ := isGrouping_cons_iff.1 he
          exact absurd (hgroup g' rest) htail
  | cons g gs ih =>
      obtain ⟨hbefore, hcontent, rest, rfl, hrest⟩ := isGrouping_cons_iff.1 hd
      cases gs' with
      | nil =>
          obtain ⟨rfl, htail⟩ := isGrouping_nil_iff.1 he
          exact absurd (hgroup g rest) htail
      | cons g' gs' =>
          obtain ⟨hbefore', hcontent', rest', hs, hrest'⟩ := isGrouping_cons_iff.1 he
          obtain ⟨hbefores, hs⟩ := (append_cons_inj hbefore hbefore').1 hs
          obtain ⟨hcontents, rfl⟩ := (append_cons_inj hcontent hcontent').1 hs
          obtain rfl : g = g' := by
            cases g
            cases g'
            exact congrArg₂ PlacedGroup.mk hbefores hcontents
          obtain ⟨rfl, rfl⟩ := Grouping.mk.inj (ih hrest gs' hrest')
          rfl

/-! ### What is read -/

theorem groups_of_not_sublist {s : Text} (h : ¬List.Sublist [opening, closing] s) :
    groups opening closing s = [] := by
  induction s with
  | nil => rfl
  | cons c s ih =>
      rw [groups, groupsFrom]
      split
      · next hc =>
          subst c
          rw [List.cons_sublist_cons, List.singleton_sublist] at h
          exact groupsFrom_some_of_notMem h []
      · exact ih fun hs => h (hs.cons c)

theorem IsGrouping.groups_eq {s : Text} {d : Grouping} (h : IsGrouping opening closing s d) :
    groups opening closing s = d.groups.map fun g => trim g.content := by
  obtain ⟨gs, tail⟩ := d
  induction gs generalizing s with
  | nil =>
      obtain ⟨rfl, htail⟩ := isGrouping_nil_iff.1 h
      exact groups_of_not_sublist htail
  | cons g gs ih =>
      obtain ⟨hbefore, hcontent, rest, rfl, hrest⟩ := isGrouping_cons_iff.1 h
      rw [groups_append_of_notMem hbefore, groups_cons_append hcontent, ih hrest, List.map_cons]

/-- More text is read on from the tail. -/
theorem IsGrouping.append {s t : Text} {d e : Grouping} (hd : IsGrouping opening closing s d)
    (he : IsGrouping opening closing (d.tail ++ t) e) :
    IsGrouping opening closing (s ++ t) ⟨d.groups ++ e.groups, e.tail⟩ where
  text_eq := by
    have htail := he.text_eq
    rw [Grouping.text] at htail
    rw [← hd.text_eq, Grouping.text, Grouping.text, List.append_assoc, ← htail,
      List.flatMap_append, List.append_assoc]
  before := List.forall_mem_append.2 ⟨hd.before, he.before⟩
  content := List.forall_mem_append.2 ⟨hd.content, he.content⟩
  tail := he.tail

/-- There is one way to take a text apart, also where both marks are the same character, and the
groups of the text are the trimmed contents in it. More text at the end leaves them alone: reading
goes on from the tail, which is empty where a text ends in a group. No group has a closing mark. -/
theorem groups_eq_contents (opening closing : Char) (s : Text) :
    ∃ d, IsGrouping opening closing s d ∧ (∀ e, IsGrouping opening closing s e → e = d) ∧
      groups opening closing s = (d.groups.map fun g => trim g.content) ∧
      (∀ t, groups opening closing (s ++ t) =
        groups opening closing s ++ groups opening closing (d.tail ++ t)) ∧
      ∀ content ∈ groups opening closing s, closing ∉ content := by
  obtain ⟨d, hd⟩ := exists_isGrouping opening closing s
  refine ⟨d, hd, fun e he => he.unique hd, hd.groups_eq, fun t => ?_, fun content hcontent => ?_⟩
  · obtain ⟨e, he⟩ := exists_isGrouping opening closing (d.tail ++ t)
    rw [(hd.append he).groups_eq, hd.groups_eq, he.groups_eq, List.map_append]
  · rw [hd.groups_eq, List.mem_map] at hcontent
    obtain ⟨g, hg, rfl⟩ := hcontent
    exact fun hclosing => hd.content g hg (mem_of_mem_trim hclosing)

/-- An opening mark in a group is content, and marks that do not come in this order are no group. -/
example : groups '(' ')' ") a (b (c ) d) (e".toList = ["b (c".toList] := by decide

end DocTags.Text
