import DocTags.Proofs.Line.Mentions
import DocTags.Proofs.Model.Sections

/-!
Warnings about models. They are looked for apart from the reading of the model, on every line below
the model line: also on those that a property uses up, where a parameter tag does not begin a line
of its own, and wherever the line is tagged as a parameter, by whatever spelling.
-/

namespace DocTags.Model

/-- A line that has a spelling of the parameter tag somewhere in its text. -/
def MentionsParameter (g : Grammar) (l : CommentLine) : Prop :=
  ∃ marker ∈ g.parameter, marker ≠ [] ∧ marker <:+: l.text

theorem mentionsParameter_iff {g : Grammar} {l : CommentLine} :
    g.mentions .parameter l.text = true ↔ MentionsParameter g l :=
  Grammar.mentions_iff

instance (g : Grammar) (l : CommentLine) : Decidable (MentionsParameter g l) :=
  decidable_of_iff _ mentionsParameter_iff

variable {g : Grammar} {b : Block} {upper lower : List CommentLine} {m : CommentLine}

theorem warnings_eq (hlines : b.lines = upper ++ m :: lower)
    (hupper : ∀ k ∈ upper, k.has .model = false) (hm : m.has .model = true) :
    warnings g b = (lower.filter fun l => MentionsParameter g l).map fun l =>
      .ambiguousModel l.number (ofBlock b).name := by
  have hsplit : Block.splitAt? .model b.lines = some (upper, m, lower) :=
    hlines ▸ Block.splitAt?_append_cons hupper hm
  have hfilter : (lower.filter fun l => g.mentions .parameter l.text) =
      lower.filter fun l => MentionsParameter g l := by
    refine List.filter_congr fun l _ => ?_
    rw [Bool.eq_iff_iff, decide_eq_true_iff]
    exact mentionsParameter_iff
  simp only [warnings, ofBlock, hsplit, hfilter]

/-- The lines of a block below its first model line, cut into the sections of the properties. -/
theorem exists_sections_ofBlock (hlines : b.lines = upper ++ m :: lower)
    (hupper : ∀ k ∈ upper, k.has .model = false) (hm : m.has .model = true) :
    ∃ ss : List Section, opening lower ++ ss.flatMap Section.lines = lower ∧
      List.Forall₂ Section.Documents ss (ofBlock b).properties := by
  have hsplit : Block.splitAt? .model b.lines = some (upper, m, lower) :=
    hlines ▸ Block.splitAt?_append_cons hupper hm
  simp only [ofBlock, hsplit]
  exact (isReadFrom_readBody 0 lower).exists_sections

/-- There is one warning for each line below the first model line that mentions a parameter, in the
order of the lines, and no other one. What is classified as a parameter line is told of in every
grammar, and so is what a property uses up as its continuation or its example. -/
theorem warnings_exact (hlines : b.lines = upper ++ m :: lower)
    (hupper : ∀ k ∈ upper, k.has .model = false) (hm : m.has .model = true) :
    warnings g b = ((lower.filter fun l => MentionsParameter g l).map fun l =>
      .ambiguousModel l.number (ofBlock b).name) ∧
    (∀ l ∈ lower, ∀ n line, CommentLine.ofLine? n (Line.classify g line) = some l →
      l.has .parameter = true → .ambiguousModel l.number (ofBlock b).name ∈ warnings g b) ∧
    ∃ ss : List Section, opening lower ++ ss.flatMap Section.lines = lower ∧
      List.Forall₂ Section.Documents ss (ofBlock b).properties ∧
      ∀ s ∈ ss, ∀ l ∈ s.used, MentionsParameter g l →
        .ambiguousModel l.number (ofBlock b).name ∈ warnings g b := by
  have hwarnings := warnings_eq (g := g) hlines hupper hm
  have htold : ∀ l ∈ lower, MentionsParameter g l →
      .ambiguousModel l.number (ofBlock b).name ∈ warnings g b := by
    intro l hl hmentions
    rw [hwarnings]
    exact List.mem_map_of_mem (List.mem_filter.2 ⟨hl, decide_eq_true hmentions⟩)
  refine ⟨hwarnings, ?_, ?_⟩
  · intro l hl n line hline hparameter
    have hmentions := CommentLine.mentions_of_ofLine? hline hparameter (by decide)
    exact htold l hl (mentionsParameter_iff.1 hmentions)
  · obtain ⟨ss, hss, hread⟩ := exists_sections_ofBlock hlines hupper hm
    refine ⟨ss, hss, hread, ?_⟩
    intro s hs l hl
    have hline : l ∈ s.lines := List.mem_cons_of_mem _ (List.mem_append_left _ hl)
    apply htold
    rw [← hss]
    exact List.mem_append_right _ (List.mem_flatMap.2 ⟨s, hs, hline⟩)

/-- A grammar with a second spelling of the parameter tag, which is part of the first one. -/
def shortParameter : Grammar :=
  { Grammar.standard with parameter := ["@parameter".toList, "@param".toList] }

/-- A line that says which parameters there were, a property that uses up a line of prose and an
example with the short spelling inside a longer word, and a line that is tagged as a parameter. -/
theorem warnings_exact_box :
    let m : CommentLine := ⟨2, some .model, "@model Box".toList, "Box".toList⟩
    let tagged : CommentLine := ⟨8, some .parameter, "@param id (path)".toList, "id (path)".toList⟩
    let lower : List CommentLine :=
      [⟨3, none, "Without its @parameters.".toList, "Without its @parameters.".toList⟩,
        ⟨4, some .property, "@property size [integer]".toList, "size [integer]".toList⟩,
        ⟨5, none, "was an @param".toList, "was an @param".toList⟩,
        ⟨6, some .sample, "@example".toList, []⟩,
        ⟨7, none, "@params".toList, "@params".toList⟩, tagged,
        ⟨9, none, "No more.".toList, "No more.".toList⟩]
    let b : Block := ⟨[⟨1, some .blockStart, [], []⟩, m] ++ lower⟩
    CommentLine.ofLine? 8 (Line.classify shortParameter "# @param id (path)".toList) = some tagged ∧
      .ambiguousModel 8 "Box".toList ∈ warnings shortParameter b ∧
      warnings shortParameter b = [3, 5, 7, 8].map fun n => .ambiguousModel n "Box".toList := by
  intro m tagged lower b
  have hlines : b.lines = [⟨1, some .blockStart, [], []⟩] ++ m :: lower := rfl
  have hname : (ofBlock b).name = "Box".toList := by decide
  obtain ⟨hwarnings, htagged, -⟩ :=
    warnings_exact (g := shortParameter) hlines (by decide) rfl
  have hline : CommentLine.ofLine? 8 (Line.classify shortParameter "# @param id (path)".toList) =
      some tagged := by
    decide
  have hmem : tagged ∈ lower := by decide
  refine ⟨hline, hname ▸ htagged tagged hmem 8 _ hline rfl, ?_⟩
  rw [hwarnings, hname]
  decide

end DocTags.Model
