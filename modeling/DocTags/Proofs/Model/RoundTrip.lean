import DocTags.Proofs.Model.Written

/-!
Models come back from their blocks. The reader hands its place from property to property, so that a
list of properties is read one by one, each from its own lines.
-/

namespace DocTags

open Grammar (standard)
open CommentLine (ofComments)

namespace Model

/-! ### The body of a model block -/

theorem readBody_eq_drop (used : Nat) (lines : List CommentLine) :
    readBody used lines = readBody 0 (lines.drop used) := by
  induction used generalizing lines with
  | zero => rfl
  | succ used ih =>
      cases lines with
      | nil => rfl
      | cons l lines => exact ih lines

variable {sp : Spelling}

theorem readBody_property {rest : Text} {below : List CommentLine} {p : Property} {used : Nat}
    (n : Nat) (text : Text) (h : Property.read rest below = (p, used)) :
    readBody 0 (⟨n, some .property, text, rest⟩ :: below) =
      { readBody 0 (below.drop used) with
        prose := [], properties := p :: (readBody 0 (below.drop used)).properties } := by
  rw [readBody]
  simp only [h, readBody_eq_drop used]

theorem follows_properties (place : Property → Property.SamplePlace) (ps : List Property) :
    Property.Follows (ps.flatMap fun p => p.comments (place p)) := by
  cases ps with
  | nil => rintro _ ⟨⟩
  | cons p ps =>
      rintro _ ⟨⟩
      exact ⟨_, rfl⟩

theorem readBody_properties (n : Nat) (place : Property → Property.SamplePlace)
    {ps : List Property} (h : ∀ p ∈ ps, p.Expressible) :
    readBody 0 (ofComments sp n (ps.flatMap fun p => p.comments (place p))) =
      ⟨[], none, none, ps⟩ := by
  induction ps generalizing n with
  | nil => rfl
  | cons p ps ih =>
      -- The reader of a property stops at the line of the next one, so that the place it hands back
      -- is where the rest begins.
      have hread : Property.read (Text.trim p.heading.text) (ofComments sp (n + 1)
          (p.more (place p) ++ ps.flatMap fun p => p.comments (place p))) =
            (p, (p.more (place p)).length) :=
        (h p List.mem_cons_self).read_comments (n + 1) (follows_properties place ps)
      rw [List.flatMap_cons, Property.comments, List.cons_append,
        CommentLine.ofComments_tagged_cons, readBody_property _ _ hread,
        CommentLine.drop_ofComments_append, ih _ fun q hq => h q (List.mem_cons_of_mem p hq)]

theorem readBody_prose (n : Nat) {ls : List Text} (h : ∀ s ∈ ls, s ≠ []) (cs : List Comment) :
    readBody 0 (ofComments sp n (ls.map .prose ++ cs)) =
      { readBody 0 (ofComments sp (n + ls.length) cs) with
        prose := ls ++ (readBody 0 (ofComments sp (n + ls.length) cs)).prose } := by
  induction ls generalizing n with
  | nil => rfl
  | cons s ls ih =>
      have hs : s ≠ [] := h s List.mem_cons_self
      have hprose : CommentLine.prose? ⟨n, none, s, s⟩ = some s := by
        simp [CommentLine.prose?, CommentLine.isPlain, hs]
      rw [List.map_cons, List.cons_append, CommentLine.ofComments_prose_cons, readBody, hprose,
        ih (n + 1) fun t ht => h t (List.mem_cons_of_mem s ht), List.length_cons, Nat.add_assoc,
        Nat.add_comm 1]
      rfl

/-! ### Models as they are written -/

theorem nonempty?_trim {s : Text} (h : s.IsLine ∧ s ≠ []) :
    Text.nonempty? (Text.trim s) = some s := by
  simp [Text.trim_eq_self h.1.isTrimmed, Text.nonempty?, h.2]

variable {cs : List Comment} {body : Body}

theorem readBody_summary (n : Nat) {s : Option Text} (h : ∀ t ∈ s, t.IsLine ∧ t ≠ [])
    (hcs : ∀ k, readBody 0 (ofComments sp k cs) = body) :
    readBody 0 (ofComments sp n ((Passage.note .summary s).flatMap Passage.comments ++ cs)) =
      { body with summary := body.summary <|> s } := by
  cases s with
  | none => exact (hcs n).trans (by simp)
  | some t =>
      simp [Passage.flatMap_comments_note, CommentLine.ofComments_tagged_cons, readBody, hcs,
        nonempty?_trim (h t rfl)]

theorem readBody_version (n : Nat) {s : Option Text} (h : ∀ t ∈ s, t.IsLine ∧ t ≠ [])
    (hcs : ∀ k, readBody 0 (ofComments sp k cs) = body) :
    readBody 0 (ofComments sp n ((Passage.note .version s).flatMap Passage.comments ++ cs)) =
      { body with version := body.version <|> s } := by
  cases s with
  | none => exact (hcs n).trans (by simp)
  | some t =>
      simp [Passage.flatMap_comments_note, CommentLine.ofComments_tagged_cons, readBody, hcs,
        nonempty?_trim (h t rfl)]

/-- A model that can be written so that it is read back. -/
structure Expressible (m : Model) : Prop where
  name : m.name.IsLine
  summary : ∀ s ∈ m.summary, s.IsLine ∧ s ≠ []
  version : ∀ s ∈ m.version, s.IsLine ∧ s ≠ []
  description : ∀ s ∈ Text.linesOf m.description, s.IsProse
  properties : ∀ p ∈ m.properties, p.Expressible

/-- The comments below the line of the model. -/
def more (place : Property → Property.SamplePlace) (m : Model) : List Comment :=
  (Passage.note .summary m.summary).flatMap Passage.comments ++
    ((Passage.note .version m.version).flatMap Passage.comments ++
      ((Text.linesOf m.description).map .prose ++
        m.properties.flatMap fun p => p.comments (place p)))

def comments (place : Property → Property.SamplePlace) (m : Model) : List Comment :=
  .tagged .model m.name :: m.more place

variable {m : Model} {place : Property → Property.SamplePlace} {b : Block}

theorem Expressible.readBody_more (h : m.Expressible) (n : Nat) :
    readBody 0 (ofComments sp n (m.more place)) =
      ⟨Text.linesOf m.description, m.summary, m.version, m.properties⟩ := by
  have hprose (k : Nat) : readBody 0 (ofComments sp k ((Text.linesOf m.description).map .prose ++
      m.properties.flatMap fun p => p.comments (place p))) =
        ⟨Text.linesOf m.description, none, none, m.properties⟩ := by
    rw [readBody_prose k fun s hs => (h.description s hs).ne_nil,
      readBody_properties _ place h.properties, List.append_nil]
  have hversion (k : Nat) := readBody_version k h.version hprose
  rw [more, readBody_summary n h.summary hversion]
  rfl

/-! ### Blocks of models -/

theorem Expressible.valid_comments (h : m.Expressible) : ∀ c ∈ m.comments place, c.Valid := by
  intro c hc
  simp only [comments, more, Passage.flatMap_comments_note, List.mem_cons, List.mem_append,
    List.mem_map, List.mem_flatMap, Option.mem_toList] at hc
  rcases hc with rfl | ⟨s, hs, rfl⟩ | ⟨s, hs, rfl⟩ | ⟨s, hs, rfl⟩ | ⟨p, hp, hc⟩
  · exact ⟨by decide, h.name.line⟩
  · exact ⟨by decide, (h.summary s hs).1.line⟩
  · exact ⟨by decide, (h.version s hs).1.line⟩
  · exact h.description s hs
  · exact (h.properties p hp).valid_comments c hc

/-- A model is written with these tags only. -/
theorem tag_of_mem_comments {tag : Tag} {s : Text} (h : .tagged tag s ∈ m.comments place) :
    tag ∈ [Tag.model, .summary, .version, .property, .sample] := by
  simp only [comments, more, Passage.flatMap_comments_note, List.mem_cons, List.mem_append,
    List.mem_map, List.mem_flatMap] at h
  rcases h with h | ⟨_, -, h⟩ | ⟨_, -, h⟩ | ⟨_, -, h⟩ | ⟨p, -, h⟩
  · cases h; decide
  · cases h; decide
  · cases h; decide
  · cases h
  · rcases Property.tag_of_mem_comments h with rfl | rfl <;> decide

theorem findSome?_rest?_comments {tag : Tag}
    (h : tag ∉ [Tag.model, .summary, .version, .property, .sample]) :
    (m.comments place).findSome? (Comment.rest? tag) = none := by
  rw [List.findSome?_eq_none_iff]
  intro c hc
  cases c with
  | prose s => rfl
  | tagged t s =>
      have hne : t ≠ tag := by
        rintro rfl
        exact h (tag_of_mem_comments hc)
      simp [Comment.rest?, hne]

theorem kind_of_isMadeOf (hb : b.IsMadeOf sp (m.comments place)) : b.kind = .model := by
  have hresource : b.has .resource = false := by
    rw [hb.has (by decide), findSome?_rest?_comments (by decide)]
    rfl
  have hpath : b.has .path = false := by
    rw [hb.has (by decide), findSome?_rest?_comments (by decide)]
    rfl
  have hmodel : b.has .model = true := by
    rw [hb.has (by decide)]
    rfl
  simp [Block.kind, hresource, hpath, hmodel]

/-- The line of a model is the first one of its block, and the others stand below it. -/
theorem Expressible.splitAt?_model (h : m.Expressible) (hb : b.IsMadeOf sp (m.comments place)) :
    ∃ n before l, Block.splitAt? .model b.lines = some (before, l, ofComments sp n (m.more place)) ∧
      Text.trim l.rest = m.name := by
  have hfirst : b.IsMadeOf sp ([] ++ .tagged .model m.name :: m.more place) := hb
  obtain ⟨n, before, l, hsplit, hrest, -⟩ := hfirst.splitAt? (by decide) rfl (by simp)
  have hname := Text.trim_eq_self h.name.isTrimmed
  exact ⟨n, before, l, hsplit, by rw [hrest, hname, hname]⟩

theorem Expressible.ofBlock (h : m.Expressible) (hb : b.IsMadeOf sp (m.comments place)) :
    Model.ofBlock b = m := by
  obtain ⟨n, before, l, hsplit, hname⟩ := h.splitAt?_model hb
  rw [Model.ofBlock, hsplit]
  simp only [h.readBody_more, hname, Text.joinLines_linesOf]

/-- A warning about a model is about a comment below its line that mentions a parameter tag. -/
theorem Expressible.exists_of_mem_warnings (h : m.Expressible)
    (hb : b.IsMadeOf sp (m.comments place)) {problem : Problem}
    (hproblem : problem ∈ warnings standard b) :
    ∃ line, problem = .ambiguousModel line m.name ∧
      ∃ c ∈ m.more place, standard.mentions .parameter (Text.trim (c.text sp)) = true := by
  obtain ⟨n, before, l, hsplit, hname⟩ := h.splitAt?_model hb
  rw [warnings, hsplit] at hproblem
  obtain ⟨line, hline, rfl⟩ := List.mem_map.1 hproblem
  obtain ⟨hmem, hmentions⟩ := List.mem_filter.1 hline
  have hvalid : ∀ c ∈ m.more place, c.Valid := fun c hc =>
    h.valid_comments c (List.mem_cons_of_mem _ hc)
  obtain ⟨c, hc, htext⟩ := CommentLine.exists_text_of_mem_ofComments hvalid hmem
  exact ⟨line.number, by rw [hname], c, hc, htext ▸ hmentions⟩

end Model
end DocTags
