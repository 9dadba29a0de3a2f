import DocTags.Proofs.Model.RoundTrip
import Mathlib.Data.List.Forall2

/-!
Where the parts of a model stand in its block. The reader recurses on the lines below the model
line, so that it comes to an end in every block; the theorems say what becomes of these lines. They
are the prose and notes above the first property, and one section for each property line: the line,
the lines that the property uses, and what stands between them and the next property line. A
property is read from its own line and the lines it uses, of which none is a property, summary or
version line. Therefore no property is skipped and no line describes two of them, whatever stands
below a property or an example tag; and of several summaries or versions the last one that says
something stands, wherever it is.
-/

namespace DocTags

/-- What follows a tag on a line that has it, if anything does. -/
def CommentLine.note? (tag : Tag) (l : CommentLine) : Option Text :=
  if l.has tag then Text.nonempty? l.rest else none

theorem CommentLine.note?_eq_none {l : CommentLine} {tag : Tag} (h : l.has tag = false) :
    l.note? tag = none := by
  simp [note?, h]

theorem CommentLine.prose?_eq_none {l : CommentLine} (h : l.isPlain = false) :
    l.prose? = none := by
  simp [prose?, h]

/-- The lines down to the first property line. -/
def Model.opening (lines : List CommentLine) : List CommentLine :=
  lines.takeWhile fun l => !l.has .property

namespace Property

/-- What the line of a property alone decides. -/
structure IsHeadedBy (p : Property) (rest : Text) : Prop where
  name : p.name = Text.trim (headline rest)
  datatype : p.datatype = datatypeOf rest
  required : p.required = requirement? rest
  nullable : p.nullable = if Text.contains nullableMark rest then some true else none

/-- The property that a reader makes of the lines below it, using up those of `used`. It would be
the same if the block ended anywhere below these. -/
structure Uses (reader : List CommentLine → Property × Nat) (p : Property)
    (used after : List CommentLine) : Prop where
  read : ∀ n, reader (used ++ after.take n) = (p, used.length)
  plain_or_sample : ∀ k ∈ used, k.isPlain = true ∨ k.has .sample = true

/-! ### The lines that a property uses -/

variable {p : Property} {rest : Text}

theorem exists_readContinuation_eq (p : Property) (below : List CommentLine) :
    ∃ description, (readContinuation p below).1 = { p with description } := by
  cases below with
  | nil => exact ⟨p.description, rfl⟩
  | cons l below =>
      cases hprose : l.prose? with
      | none => exact ⟨p.description, by simp [readContinuation, hprose]⟩
      | some more => exact ⟨continued p.description more, by simp [readContinuation, hprose]⟩

theorem exists_readSample_eq (p : Property) (below : List CommentLine) :
    ∃ sample, (readSample p below).1 = { p with sample } := by
  unfold readSample
  split
  · exact ⟨p.sample, rfl⟩
  · dsimp only
    split
    · split
      · split
        · exact ⟨p.sample, rfl⟩
        · split <;> exact ⟨_, rfl⟩
      · exact ⟨_, rfl⟩
    · exact ⟨p.sample, rfl⟩

theorem isHeadedBy_read (rest : Text) (below : List CommentLine) :
    (read rest below).1.IsHeadedBy rest := by
  obtain ⟨description, hp⟩ := exists_readContinuation_eq (ofRest rest) below
  obtain ⟨sample, hq⟩ := exists_readSample_eq (readContinuation (ofRest rest) below).1
    (below.drop (readContinuation (ofRest rest) below).2)
  have hread : (read rest below).1 = { ofRest rest with description, sample } := by
    rw [read, hq, hp]
  rw [hread]
  exact ⟨rfl, rfl, rfl, rfl⟩

section

variable {reader : List CommentLine → Property × Nat} {used after : List CommentLine}

theorem Uses.read_used (h : Uses reader p used after) : reader used = (p, used.length) := by
  simpa using h.read 0

theorem Uses.read_append (h : Uses reader p used after) :
    reader (used ++ after) = (p, used.length) := by
  simpa using h.read after.length

theorem Uses.of_prefix (h : Uses reader p used after) {lead : List CommentLine}
    (hlead : lead <+: after) : Uses reader p used lead where
  read n := by
    rw [List.prefix_iff_eq_take.1 hlead, List.take_take]
    exact h.read _
  plain_or_sample := h.plain_or_sample

theorem Uses.has_eq_false (h : Uses reader p used after) {k : CommentLine} (hk : k ∈ used)
    {tag : Tag} (htag : tag ≠ .sample) : k.has tag = false := by
  rcases h.plain_or_sample k hk with hplain | hsample
  · exact CommentLine.has_eq_false_of_isPlain hplain tag
  · exact CommentLine.has_eq_false_of_has hsample htag

end

theorem exists_uses_readContinuation (p : Property) (below : List CommentLine) :
    ∃ q used after, used ++ after = below ∧ Uses (readContinuation p) q used after := by
  cases below with
  | nil => exact ⟨p, [], [], rfl, fun n => by simp [readContinuation], by simp⟩
  | cons l below =>
      cases hprose : l.prose? with
      | none =>
          exact ⟨p, [], l :: below, rfl,
            fun n => by cases n <;> simp [readContinuation, hprose], by simp⟩
      | some more =>
          have hplain : l.isPlain = true := by
            by_contra hplain
            rw [CommentLine.prose?_eq_none (by simpa using hplain)] at hprose
            cases hprose
          exact ⟨{ p with description := continued p.description more }, [l], below, rfl,
            fun n => by simp [readContinuation, hprose], by simp [hplain]⟩

theorem exists_uses_readSample (p : Property) (below : List CommentLine) :
    ∃ q used after, used ++ after = below ∧ Uses (readSample p) q used after := by
  cases below with
  | nil => exact ⟨p, [], [], rfl, fun n => by simp [readSample], by simp⟩
  | cons l below =>
      by_cases hl : l.has .sample = true
      · by_cases hrest : Text.trim l.rest = []
        · cases below with
          | nil => exact ⟨p, [l], [], rfl, fun n => by simp [readSample, hl, hrest], by simp [hl]⟩
          | cons next below =>
              by_cases hnext : next.isPlain = true
              · exact ⟨{ p with sample := some (unquoted next.text) }, [l, next], below, rfl,
                  fun n => by simp [readSample, hl, hrest, hnext], by simp [hl, hnext]⟩
              -- The line below an example tag without a text is left to whatever its tag says.
              · exact ⟨p, [l], next :: below, rfl,
                  fun n => by cases n <;> simp [readSample, hl, hrest, hnext], by simp [hl]⟩
        · exact ⟨{ p with sample := some (unquoted (Text.trim l.rest)) }, [l], below, rfl,
            fun n => by simp [readSample, hl, hrest], by simp [hl]⟩
      · exact ⟨p, [], l :: below, rfl,
          fun n => by cases n <;> simp [readSample, hl], by simp⟩

theorem exists_uses_read (rest : Text) (below : List CommentLine) :
    ∃ p used after, used ++ after = below ∧ Uses (read rest) p used after := by
  obtain ⟨q, lead, below, rfl, hlead⟩ := exists_uses_readContinuation (ofRest rest) below
  obtain ⟨p, more, after, rfl, hmore⟩ := exists_uses_readSample q below
  refine ⟨p, lead ++ more, after, List.append_assoc .., fun n => ?_, fun k hk => ?_⟩
  · have hcut : more ++ after.take n = (more ++ after).take (more.length + n) :=
      (List.take_length_add_append n).symm
    have hread : readContinuation (ofRest rest) (lead ++ (more ++ after.take n)) =
        (q, lead.length) := hcut ▸ hlead.read _
    simp only [read, List.append_assoc, hread, List.drop_left, hmore.read n, List.length_append]
  · exact (List.mem_append.1 hk).elim (hlead.plain_or_sample k) (hmore.plain_or_sample k)

theorem Uses.isHeadedBy {used after : List CommentLine}
    (h : Uses (Property.read rest) p used after) : p.IsHeadedBy rest := by
  have hp := isHeadedBy_read rest used
  rwa [h.read_used] at hp

end Property

namespace Model

/-- The lines of a block from a property line down to the next one. -/
structure Section where
  line : CommentLine
  used : List CommentLine
  unused : List CommentLine

def Section.lines (s : Section) : List CommentLine :=
  s.line :: (s.used ++ s.unused)

/-- The property of a section is read from its line and the lines used, and from no others. -/
structure Section.Documents (s : Section) (p : Property) : Prop where
  line : s.line.has .property = true
  used : Property.Uses (Property.read s.line.rest) p s.used s.unused
  unused : ∀ k ∈ s.unused, k.has .property = false

/-! ### The body of a model block -/

/-- What is read off the lines below a model line. -/
inductive Body.IsReadFrom : Body → List CommentLine → Prop where
  | nil : IsReadFrom ⟨[], none, none, []⟩ []
  | property {l : CommentLine} {used below : List CommentLine} {p : Property} {body : Body} :
      l.has .property = true → Property.Uses (Property.read l.rest) p used below →
      IsReadFrom body below →
      IsReadFrom { body with prose := [], properties := p :: body.properties }
        (l :: (used ++ below))
  | other {l : CommentLine} {below : List CommentLine} {body : Body} :
      l.has .property = false → IsReadFrom body below →
      IsReadFrom
        { body with
          prose := l.prose?.toList ++ body.prose
          summary := body.summary <|> l.note? .summary
          version := body.version <|> l.note? .version }
        (l :: below)

theorem readBody_other {l : CommentLine} (hl : l.has .property = false)
    (below : List CommentLine) :
    readBody 0 (l :: below) =
      { readBody 0 below with
        prose := l.prose?.toList ++ (readBody 0 below).prose
        summary := (readBody 0 below).summary <|> l.note? .summary
        version := (readBody 0 below).version <|> l.note? .version } := by
  have hprose {tag : Tag} (h : l.tag = some tag) : l.prose? = none :=
    CommentLine.prose?_eq_none (CommentLine.isPlain_eq_false_of_has (CommentLine.has_iff.2 h))
  rw [readBody]
  split
  · next htag => simp [CommentLine.has, htag] at hl
  · next htag => simp [CommentLine.note?, CommentLine.has, htag, hprose htag]
  · next htag => simp [CommentLine.note?, CommentLine.has, htag, hprose htag]
  · next htag => simp [CommentLine.note?, CommentLine.has, htag]
  · next hsummary hversion hnone =>
      obtain ⟨tag, htag⟩ := Option.ne_none_iff_exists'.1 hnone
      have hnote {other : Tag} (h : l.tag ≠ some other) : l.note? other = none :=
        CommentLine.note?_eq_none (by simpa [CommentLine.has] using h)
      simp [hnote hsummary, hnote hversion, hprose htag]

theorem isReadFrom_readBody (used : Nat) (lines : List CommentLine) :
    (readBody used lines).IsReadFrom (lines.drop used) := by
  induction lines generalizing used with
  | nil => cases used <;> exact .nil
  | cons l below ih =>
      cases used with
      | succ used => exact ih used
      | zero =>
          cases hl : l.has .property with
          | false => exact readBody_other hl below ▸ .other hl (ih 0)
          | true =>
              obtain ⟨p, used, after, rfl, huses⟩ := Property.exists_uses_read l.rest below
              have hafter := ih used.length
              rw [List.drop_left] at hafter
              have htag : l.tag = some .property := CommentLine.has_iff.1 hl
              have hbody : readBody 0 (l :: (used ++ after)) =
                  { readBody used.length (used ++ after) with
                    prose := []
                    properties := p :: (readBody used.length (used ++ after)).properties } := by
                simp [readBody, htag, huses.read_append]
              exact hbody ▸ .property hl huses hafter

variable {body : Body} {lines : List CommentLine}

/-! ### Notes and prose -/

theorem filterMap_note?_property {l : CommentLine} {used below : List CommentLine} {p : Property}
    {tag : Tag} (hl : l.has .property = true)
    (huses : Property.Uses (Property.read l.rest) p used below) (hproperty : tag ≠ .property)
    (hsample : tag ≠ .sample) :
    (l :: (used ++ below)).filterMap (CommentLine.note? tag) =
      below.filterMap (CommentLine.note? tag) := by
  have hl' : l.note? tag = none :=
    CommentLine.note?_eq_none (CommentLine.has_eq_false_of_has hl hproperty)
  have hused : used.filterMap (CommentLine.note? tag) = [] :=
    List.filterMap_eq_nil_iff.2 fun k hk =>
      CommentLine.note?_eq_none (huses.has_eq_false hk hsample)
  rw [List.filterMap_cons_none hl', List.filterMap_append, hused, List.nil_append]

theorem getLast?_filterMap_cons {α β : Type} (f : α → Option β) (x : α) (xs : List α) :
    ((x :: xs).filterMap f).getLast? = ((xs.filterMap f).getLast? <|> f x) := by
  cases h : f x with
  | none => simp [List.filterMap_cons_none h]
  | some y =>
      rw [List.filterMap_cons_some h, List.getLast?_cons]
      cases (xs.filterMap f).getLast? <;> rfl

/-- What a body has of the notes under a tag. -/
def Body.noted (body : Body) : Tag → Option Text
  | .summary => body.summary
  | .version => body.version
  | _ => none

/-- Of several notes under a tag the last one stands. -/
theorem Body.IsReadFrom.noted_eq (h : body.IsReadFrom lines) {tag : Tag}
    (htag : tag = .summary ∨ tag = .version) :
    body.noted tag = (lines.filterMap (CommentLine.note? tag)).getLast? := by
  induction h with
  | nil => rcases htag with rfl | rfl <;> rfl
  | property hl huses _ ih =>
      have hproperty : tag ≠ .property := by rcases htag with rfl | rfl <;> decide
      have hsample : tag ≠ .sample := by rcases htag with rfl | rfl <;> decide
      rw [filterMap_note?_property hl huses hproperty hsample, ← ih]
      rcases htag with rfl | rfl <;> rfl
  | other _ _ ih =>
      rw [getLast?_filterMap_cons, ← ih]
      rcases htag with rfl | rfl <;> rfl

theorem opening_property {l : CommentLine} (h : l.has .property = true)
    (below : List CommentLine) : opening (l :: below) = [] := by
  simp [opening, h]

theorem opening_other {l : CommentLine} (h : l.has .property = false)
    (below : List CommentLine) : opening (l :: below) = l :: opening below := by
  simp [opening, h]

theorem Body.IsReadFrom.prose_eq (h : body.IsReadFrom lines) :
    body.prose = (opening lines).filterMap CommentLine.prose? := by
  induction h with
  | nil => rfl
  | property hl _ _ _ => rw [opening_property hl]; rfl
  | @other l _ _ hl _ ih =>
      rw [opening_other hl, ih]
      cases hprose : l.prose? <;> simp [hprose]

/-! ### Properties -/

theorem Body.IsReadFrom.exists_sections (h : body.IsReadFrom lines) :
    ∃ ss : List Section, opening lines ++ ss.flatMap Section.lines = lines ∧
      List.Forall₂ Section.Documents ss body.properties := by
  induction h with
  | nil => exact ⟨[], rfl, .nil⟩
  | @property l used below p body hl huses _ ih =>
      obtain ⟨ss, hss, hread⟩ := ih
      have hsection : Section.Documents ⟨l, used, opening below⟩ p :=
        ⟨hl, huses.of_prefix (List.takeWhile_prefix _),
          fun k hk => by simpa using List.mem_takeWhile_imp hk⟩
      refine ⟨⟨l, used, opening below⟩ :: ss, ?_, .cons hsection hread⟩
      rw [opening_property hl, List.flatMap_cons, Section.lines]
      conv_rhs => rw [← hss]
      simp
  | other hl _ ih =>
      obtain ⟨ss, hss, hread⟩ := ih
      exact ⟨ss, by rw [opening_other hl, List.cons_append, hss], hread⟩

theorem Body.IsReadFrom.forall₂_isHeadedBy (h : body.IsReadFrom lines) :
    List.Forall₂ (fun l p => Property.IsHeadedBy p l.rest) (lines.filter (·.has .property))
      body.properties := by
  induction h with
  | nil => exact .nil
  | @property l used below p body hl huses _ ih =>
      have hused : used.filter (·.has .property) = [] :=
        List.filter_eq_nil_iff.2 fun k hk => by
          simp [huses.has_eq_false hk (show Tag.property ≠ .sample by decide)]
      rw [List.filter_cons_of_pos (by exact hl), List.filter_append, hused]
      exact .cons huses.isHeadedBy ih
  | other hl _ ih => rwa [List.filter_cons_of_neg (by simp [hl])]

/-- What a model says, and where in its block it is said. -/
structure IsReadFrom (m : Model) (l : CommentLine) (below : List CommentLine) : Prop where
  name : m.name = Text.trim l.rest
  /-- One property for each property line, in their order. -/
  properties : List.Forall₂ (fun l p => Property.IsHeadedBy p l.rest)
    (below.filter (·.has .property)) m.properties
  /-- The lines from the first property on, cut into those of each property. -/
  sections : ∃ ss : List Section, opening below ++ ss.flatMap Section.lines = below ∧
    List.Forall₂ Section.Documents ss m.properties
  summary : m.summary = (below.filterMap (CommentLine.note? .summary)).getLast?
  version : m.version = (below.filterMap (CommentLine.note? .version)).getLast?
  description : m.description = CommentLine.prose (opening below)

/-- A model is read off the lines below the first model line: a property for each property line,
with nothing used twice and nothing that is not a property's left out. -/
theorem isReadFrom_ofBlock {b : Block} {above below : List CommentLine} {l : CommentLine}
    (hlines : b.lines = above ++ l :: below) (habove : ∀ k ∈ above, k.has .model = false)
    (hl : l.has .model = true) : (ofBlock b).IsReadFrom l below := by
  have hsplit : Block.splitAt? .model b.lines = some (above, l, below) :=
    hlines ▸ Block.splitAt?_append_cons habove hl
  have hbody : (readBody 0 below).IsReadFrom below := isReadFrom_readBody 0 below
  simp only [ofBlock, hsplit]
  exact {
    name := rfl
    properties := hbody.forall₂_isHeadedBy
    sections := hbody.exists_sections
    summary := hbody.noted_eq (.inl rfl)
    version := hbody.noted_eq (.inr rfl)
    description := congrArg Text.joinLines hbody.prose_eq }

/-- Two properties, the first with prose and an example tag that has no text, and notes on both
sides of them. -/
theorem isReadFrom_ofBlock_pair :
    let l : CommentLine := ⟨2, some .model, "@model Pair".toList, "Pair".toList⟩
    let below : List CommentLine :=
      [⟨3, none, "Two values.".toList, "Two values.".toList⟩,
        ⟨4, some .version, "@version 1".toList, "1".toList⟩,
        ⟨5, some .property, "@property left [text] one".toList, "left [text] one".toList⟩,
        ⟨6, none, "of two".toList, "of two".toList⟩,
        ⟨7, some .sample, "@example".toList, []⟩,
        ⟨8, some .property, "@property right (required)".toList, "right (required)".toList⟩,
        ⟨9, some .version, "@version 2".toList, "2".toList⟩,
        ⟨10, none, "unused".toList, "unused".toList⟩,
        ⟨11, some .version, "@version".toList, []⟩]
    let m : Model :=
      { name := "Pair".toList
        description := "Two values.".toList
        summary := none
        version := some "2".toList
        properties :=
          [⟨"left".toList, "text".toList, "one\n\nof two".toList, none, none, none⟩,
            ⟨"right".toList, [], [], some true, none, none⟩] }
    m.IsReadFrom l below := by
  intro l below m
  let above : List CommentLine := [⟨1, some .blockStart, [], []⟩]
  have hlines : (Block.mk (above ++ l :: below)).lines = above ++ l :: below := rfl
  have hm : ofBlock ⟨above ++ l :: below⟩ = m := by decide
  exact hm ▸ isReadFrom_ofBlock hlines (by decide) rfl

end Model
end DocTags
