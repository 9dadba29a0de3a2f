import DocTags.Proofs.Endpoint.PathLine
import DocTags.Proofs.Model.Sections
import DocTags.Proofs.Text.Cuts
import DocTags.Proofs.Text.Groups
import DocTags.Proofs.Text.Trim

/-!
The line of a parameter or of a property that has no data type: a name, groups in parentheses, and
the first line of a description. The readers find the name, the location and the absence of a data
type. The description they look for behind the last closing parenthesis of the whole line, so that a
parenthesis in the description hides what stands in front of it.
-/

namespace DocTags

namespace Property

theorem read_description (rest : Text) (below : List CommentLine) :
    (read rest below).1.description =
      (below.head?.bind CommentLine.prose?).elim (firstDescription rest)
        (continued (firstDescription rest)) := by
  have hcontinued : (readContinuation (ofRest rest) below).1.description =
      (below.head?.bind CommentLine.prose?).elim (firstDescription rest)
        (continued (firstDescription rest)) := by
    cases below with
    | nil => rfl
    | cons l below => cases h : l.prose? <;> simp [readContinuation, ofRest, h]
  obtain ⟨sample, hsample⟩ := exists_readSample_eq (readContinuation (ofRest rest) below).1
    (below.drop (readContinuation (ofRest rest) below).2)
  rw [read, hsample, hcontinued]

end Property

/-- A group in parentheses, and the blanks behind it. -/
structure SpacedGroup where
  content : Text
  gap : Text

def SpacedGroup.text (g : SpacedGroup) : Text :=
  '(' :: (g.content ++ ')' :: g.gap)

structure SpacedGroup.Valid (g : SpacedGroup) : Prop where
  content : ∀ c ∈ g.content, c ≠ ')' ∧ c ≠ '[' ∧ c ≠ ']'
  gap : ∀ c ∈ g.gap, isBlank c = true

theorem SpacedGroup.Valid.of_mem_gap {g : SpacedGroup} (hg : g.Valid) {c : Char}
    (hc : c ∈ g.gap) : c ≠ ')' ∧ c ≠ '[' ∧ c ≠ ']' := by
  have hblank := hg.gap c hc
  refine ⟨?_, ?_, ?_⟩ <;> rintro rfl <;> revert hblank <;> decide

/-- A line without a data type. -/
structure BareHeading where
  name : Text
  groups : List SpacedGroup
  description : Text

namespace BareHeading

def text (u : BareHeading) : Text :=
  u.name ++ (u.groups.flatMap SpacedGroup.text ++ u.description)

structure Valid (u : BareHeading) : Prop where
  name : ∀ c ∈ u.name, c ≠ '(' ∧ c ≠ ')' ∧ c ≠ '[' ∧ c ≠ ']'
  groups_ne_nil : u.groups ≠ []
  groups : ∀ g ∈ u.groups, g.Valid
  description : ∀ c ∈ u.description, c ≠ '[' ∧ c ≠ ']'

/-- What the readers keep of the description: the text behind its last closing parenthesis. -/
def kept (u : BareHeading) : Text :=
  Text.trim ((Text.afterLast? (· == ')') u.description).getD u.description)

variable {u : BareHeading}

theorem kept_eq_trim_iff : u.kept = Text.trim u.description ↔ ')' ∉ u.description := by
  cases h : Text.afterLast? (· == ')') u.description with
  | none =>
      have hnone : ')' ∉ u.description :=
        Text.forall_beq_eq_false_iff.1 (Text.afterLast?_eq_none_iff.1 h)
      simp [kept, h, hnone]
  | some after =>
      have hafter : ')' ∉ after :=
        Text.forall_beq_eq_false_iff.1 (Text.forall_of_afterLast?_eq_some h)
      have hmem : ')' ∈ u.description := by
        by_contra hmem
        rw [Text.afterLast?_eq_none_iff.2 (Text.forall_beq_eq_false_iff.2 hmem)] at h
        cases h
      -- A parenthesis is no blank, so that trimming the description does not take it away.
      have htrim : ')' ∈ Text.trim u.description := Text.mem_trim_of_mem hmem (by decide)
      have hkept : u.kept = Text.trim after := by simp [kept, h]
      refine iff_of_false (fun heq => hafter ?_) (not_not.2 hmem)
      rw [← heq, hkept] at htrim
      exact Text.mem_of_mem_trim htrim

/-! ### What the readers find -/

theorem Valid.not_bracket (hv : u.Valid) {c : Char} (hc : c ∈ u.text) : c ≠ '[' ∧ c ≠ ']' := by
  rcases List.mem_append.1 hc with hc | hc
  · exact (hv.name c hc).2.2
  · rcases List.mem_append.1 hc with hc | hc
    · obtain ⟨g, hg, hc⟩ := List.mem_flatMap.1 hc
      have hc' : c = '(' ∨ c ∈ g.content ∨ c = ')' ∨ c ∈ g.gap := by
        simpa [SpacedGroup.text] using hc
      rcases hc' with rfl | hc | rfl | hc
      · decide
      · exact ((hv.groups g hg).content c hc).2
      · decide
      · exact ((hv.groups g hg).of_mem_gap hc).2
    · exact hv.description c hc

theorem Valid.datatypeOf (hv : u.Valid) : DocTags.datatypeOf u.text = [] := by
  have hopen : '[' ∉ u.text := fun hc => (hv.not_bracket hc).1 rfl
  have hgroups : Text.groups '[' ']' (u.text ++ []) = [] :=
    Text.groups_append_of_notMem hopen []
  rw [List.append_nil] at hgroups
  simp [DocTags.datatypeOf, Text.firstGroup?, hgroups]

theorem Valid.headline (hv : u.Valid) : DocTags.headline u.text = u.name := by
  have hname : ∀ c ∈ u.name, (!opensGroup c) = true := fun c hc => by
    simp [opensGroup, (hv.name c hc).1, (hv.name c hc).2.2.1]
  obtain ⟨g, gs, hgs⟩ := List.exists_cons_of_ne_nil hv.groups_ne_nil
  rw [DocTags.headline, text, List.takeWhile_append_of_pos hname, hgs]
  simp [SpacedGroup.text, opensGroup]

theorem Valid.trailing? (hv : u.Valid) :
    ∃ after, DocTags.trailing? u.text = some after ∧ Text.trim after = u.kept := by
  have hcut : Text.cut? (· == ']') u.text = none :=
    Text.cut?_eq_none_iff.2 fun c hc => by simpa using (hv.not_bracket hc).2
  -- The last group ends in a closing parenthesis, and none follows it but in the description.
  obtain ⟨gs, g, hgs⟩ := (List.eq_nil_or_concat u.groups).resolve_left hv.groups_ne_nil
  have hg : g.Valid := hv.groups g (by simp [hgs])
  have htext : u.text =
      (u.name ++ (gs.flatMap SpacedGroup.text ++ '(' :: g.content)) ++
        ')' :: (g.gap ++ u.description) := by
    simp [text, hgs, SpacedGroup.text]
  have hgap : ∀ c ∈ g.gap, (c == ')') = false := fun c hc =>
    beq_eq_false_iff_ne.2 (hg.of_mem_gap hc).1
  refine ⟨_, by rw [DocTags.trailing?, hcut, htext, Text.afterLast?_append_cons _ (by rfl)], ?_⟩
  rw [Text.afterLast?_append_of_forall hgap, kept]
  cases Text.afterLast? (· == ')') u.description with
  | some after => rfl
  | none =>
      have htrim := Text.trim_surrounded hg.gap (List.forall_mem_nil _) u.description
      rwa [List.append_nil] at htrim

theorem Valid.readLocation (hv : u.Valid) {g : SpacedGroup} {gs : List SpacedGroup}
    (hgs : u.groups = g :: gs) {location : Location}
    (hlocation : Location.ofToken? g.content = some location) (name : Text) :
    Parameter.readLocation name (Text.groups '(' ')' u.text) = .ok location := by
  have hname : '(' ∉ u.name := fun hc => (hv.name _ hc).1 rfl
  have hcontent : ')' ∉ g.content := fun hc =>
    ((hv.groups g (by simp [hgs])).content _ hc).1 rfl
  have htext : u.text = u.name ++ '(' :: (g.content ++ ')' ::
      (g.gap ++ (gs.flatMap SpacedGroup.text ++ u.description))) := by
    simp [text, hgs, SpacedGroup.text]
  have hlower := Location.ofToken?_eq_some_iff.1 hlocation
  have htoken : Location.ofToken? (Text.trim g.content) = some location :=
    Location.ofToken?_eq_some_iff.2 (by rw [Text.trim_trim, hlower])
  have hmark : isRequiredMark (Text.trim g.content) = false := by
    rw [isRequiredMark, Text.sameLetters, ← hlower]
    cases location <;> decide
  rw [Parameter.readLocation, htext, Text.groups_append_of_notMem hname,
    Text.groups_cons_append hcontent, List.find?_cons_of_pos (by simp [hmark])]
  simp [htoken]

theorem Valid.read_parameter (hv : u.Valid) {g : SpacedGroup} {gs : List SpacedGroup}
    (hgs : u.groups = g :: gs) {location : Location}
    (hlocation : Location.ofToken? g.content = some location) (below : List CommentLine) :
    ∃ p, Parameter.read u.text below = .ok p ∧ p.name = Text.trim u.name ∧
      p.location = location ∧ p.datatype = [] ∧
      p.description = Text.joinLines
        ((u.kept :: (below.takeWhile (·.isPlain)).map (·.text)).filter (!·.isEmpty)) := by
  obtain ⟨after, htrailing, hkept⟩ := hv.trailing?
  rw [Parameter.read]
  simp only [hv.headline, hv.datatypeOf, hv.readLocation hgs hlocation, htrailing,
    Option.getD_some, hkept, bind, Except.bind, pure, Except.pure]
  exact ⟨_, rfl, rfl, rfl, rfl, rfl⟩

theorem Valid.read_property (hv : u.Valid) (below : List CommentLine) :
    (Property.read u.text below).1.name = Text.trim u.name ∧
      (Property.read u.text below).1.datatype = [] ∧
      (Property.read u.text below).1.description =
        (below.head?.bind CommentLine.prose?).elim u.kept (Property.continued u.kept) := by
  have hheaded := Property.isHeadedBy_read u.text below
  obtain ⟨after, htrailing, hkept⟩ := hv.trailing?
  have hfirst : Property.firstDescription u.text = u.kept := by
    rw [Property.firstDescription, htrailing, Option.getD_some, hkept]
  refine ⟨?_, ?_, ?_⟩
  · rw [hheaded.name, hv.headline]
  · rw [hheaded.datatype, hv.datatypeOf]
  · rw [Property.read_description, hfirst]

/-- Without a data type both readers find the name and that there is no data type, and start the
description with what stands behind its last closing parenthesis. That is the whole description
just where it has none. -/
theorem reads_kept (hv : u.Valid) (below : List CommentLine) :
    (∀ g gs location, u.groups = g :: gs → Location.ofToken? g.content = some location →
      ∃ p, Parameter.read u.text below = .ok p ∧ p.name = Text.trim u.name ∧
        p.location = location ∧ p.datatype = [] ∧
        p.description = Text.joinLines
          ((u.kept :: (below.takeWhile (·.isPlain)).map (·.text)).filter (!·.isEmpty))) ∧
    ((Property.read u.text below).1.name = Text.trim u.name ∧
      (Property.read u.text below).1.datatype = [] ∧
      (Property.read u.text below).1.description =
        (below.head?.bind CommentLine.prose?).elim u.kept (Property.continued u.kept)) ∧
    (u.kept = Text.trim u.description ↔ ')' ∉ u.description) := by
  refine ⟨?_, hv.read_property below, kept_eq_trim_iff⟩
  intro g gs location hgs hlocation
  exact hv.read_parameter hgs hlocation below

/-- A parameter with two groups and a line of prose below it. -/
theorem reads_kept_two_groups :
    let u : BareHeading :=
      ⟨"page ".toList, [⟨"Query".toList, []⟩, ⟨"required".toList, " ".toList⟩],
        "(zero) based".toList⟩
    let below : List CommentLine := [⟨2, none, "by default".toList, "by default".toList⟩]
    u.text = "page (Query)(required) (zero) based".toList ∧ u.Valid ∧
      (∃ p, Parameter.read u.text below = .ok p ∧ p.name = "page".toList ∧ p.location = .query ∧
        p.description = "based\nby default".toList) ∧
      (Property.read u.text below).1.description = "based\n\nby default".toList ∧
      u.kept ≠ Text.trim u.description := by
  intro u below
  have hgroups : ∀ g ∈ u.groups, g.Valid :=
    List.forall_mem_cons.2 ⟨⟨by decide, by decide⟩,
      List.forall_mem_singleton.2 ⟨by decide, by decide⟩⟩
  have hv : u.Valid := ⟨by decide, by decide, hgroups, by decide⟩
  obtain ⟨hparameter, ⟨-, -, hproperty⟩, hkept⟩ := reads_kept hv below
  obtain ⟨p, hread, hname, hlocation, -, hdescription⟩ := hparameter _ _ .query rfl (by decide)
  exact ⟨by decide, hv, ⟨p, hread, hname.trans (by decide), hlocation,
    hdescription.trans (by decide)⟩, hproperty.trans (by decide), fun h => hkept.1 h (by decide)⟩

/-- A parenthesis in the description of a parameter, and in that of a property, hides the text in
front of it. -/
theorem parenthesis_hides_description :
    (¬∀ u : BareHeading, u.Valid → u.description.head? ≠ some '(' →
      ∀ (g : SpacedGroup) (gs : List SpacedGroup) (location : Location), u.groups = g :: gs →
        g.content = location.name → (∀ m ∈ gs, m.content = "required".toList) →
        ∃ p, Parameter.read u.text [] = .ok p ∧ p.name = Text.trim u.name ∧ p.datatype = [] ∧
          p.description = Text.trim u.description) ∧
    ¬∀ u : BareHeading, u.Valid → u.description.head? ≠ some '(' →
      (∀ g ∈ u.groups,
        g.content ∈ ["required".toList, "optional".toList, "nullable".toList]) →
      (Property.read u.text []).1.name = Text.trim u.name ∧
        (Property.read u.text []).1.datatype = [] ∧
        (Property.read u.text []).1.description = Text.trim u.description := by
  constructor
  · intro hparameter
    let g : SpacedGroup := ⟨"query".toList, " ".toList⟩
    let u : BareHeading := ⟨"page ".toList, [g], "page number (one based) to read".toList⟩
    have hu : u.Valid :=
      ⟨by decide, by decide, List.forall_mem_singleton.2 ⟨by decide, by decide⟩, by decide⟩
    obtain ⟨p, hread, -, -, hdescription⟩ :=
      hparameter u hu (by decide) g [] .query rfl rfl (List.forall_mem_nil _)
    have hp : Parameter.read u.text [] =
        .ok ⟨"page".toList, .query, [], "to read".toList, false⟩ := by decide
    cases hread.symm.trans hp
    revert hdescription
    decide
  · intro hproperty
    let u : BareHeading :=
      ⟨"size ".toList, [⟨"optional".toList, " ".toList⟩], "length (in cm) of a side".toList⟩
    have hu : u.Valid :=
      ⟨by decide, by decide, List.forall_mem_singleton.2 ⟨by decide, by decide⟩, by decide⟩
    obtain ⟨-, -, hdescription⟩ := hproperty u hu (by decide) (by decide)
    revert hdescription
    decide

end BareHeading
end DocTags
