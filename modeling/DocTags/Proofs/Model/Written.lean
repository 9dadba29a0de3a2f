import DocTags.Model.Reader
import DocTags.Proofs.Block.Comments
import DocTags.Proofs.Endpoint.Heading

/-!
Properties as they are written: a heading, perhaps a second paragraph of the description, perhaps an
example in quotes. Each is read back from its lines, and takes none of the lines below them.
-/

namespace DocTags

open Grammar (standard)

namespace CommentLine

theorem length_ofComments (sp : Spelling) (n : Nat) (cs : List Comment) :
    (ofComments sp n cs).length = cs.length := by
  induction cs generalizing n with
  | nil => rfl
  | cons c cs ih => cases c <;> simp [ofComments_prose_cons, ofComments_tagged_cons, ih]

theorem drop_ofComments_append (sp : Spelling) (n : Nat) (cs ds : List Comment) :
    (ofComments sp n (cs ++ ds)).drop cs.length = ofComments sp (n + cs.length) ds := by
  rw [ofComments_append, List.drop_left' (length_ofComments sp n cs)]

end CommentLine

namespace Property

open CommentLine (ofComments)

/-- The line of the description that stands on the line of the tag. -/
def firstLine (p : Property) : Text :=
  (Text.linesOf p.description).headD []

/-- The paragraph of the description that stands below it. -/
def moreLines (p : Property) : List Text :=
  (Text.linesOf p.description).drop 2

def requirementFlags : Option Bool → List Text
  | none => []
  | some true => ["required".toList]
  | some false => ["optional".toList]

def flags (p : Property) : List Text :=
  requirementFlags p.required ++ if p.nullable = some true then ["nullable".toList] else []

def heading (p : Property) : Heading where
  name := p.name
  flags := p.flags
  datatype := p.datatype
  description := p.firstLine

def quoted (s : Text) : Text :=
  '"' :: (s ++ ['"'])

/-- Where an example stands: on the line of its tag or on the one below it. -/
inductive SamplePlace where
  | inline
  | below
  deriving DecidableEq, Repr

def SamplePlace.comments : SamplePlace → Text → List Comment
  | inline, s => [.tagged .sample (quoted s)]
  | below, s => [.tagged .sample [], .prose (quoted s)]

/-- The comments below the line of the tag. -/
def more (place : SamplePlace) (p : Property) : List Comment :=
  p.moreLines.map .prose ++ p.sample.toList.flatMap place.comments

def comments (place : SamplePlace) (p : Property) : List Comment :=
  .tagged .property p.heading.text :: p.more place

/-- The marks by which flags are found. -/
def flagMarks : List Text :=
  [requiredMark, optionalMark, nullableMark]

/-- A property that can be written so that it is read back. -/
structure Expressible (p : Property) : Prop where
  name : p.name.IsLine
  name_marks : ∀ c ∈ p.name, c ≠ '(' ∧ c ≠ '[' ∧ c ≠ ']'
  datatype : p.datatype.IsLine
  datatype_marks : ']' ∉ p.datatype
  /-- Neither the data type nor the description looks like a flag. -/
  unmarked : ∀ mark ∈ flagMarks,
    Text.contains mark p.datatype = false ∧ Text.contains mark p.firstLine = false
  nullable : p.nullable ≠ some false
  description : p.description.IsLine ∨ ∃ first second,
    p.description = first ++ ['\n', '\n'] ++ second ∧ first.IsLine ∧ first ≠ [] ∧ second.IsProse
  sample : ∀ s ∈ p.sample, s.IsLine ∧ s.head? ≠ some '"' ∧ s.getLast? ≠ some '"'

/-! ### Descriptions -/

variable {p : Property} {place : SamplePlace} {sp : Spelling}

/-- The description is its first line, or that line continued by one more. -/
theorem Expressible.description_cases (h : p.Expressible) :
    (p.moreLines = [] ∧ p.description = p.firstLine ∧ p.firstLine.IsLine) ∨
      ∃ second, p.moreLines = [second] ∧ second.IsProse ∧
        p.description = continued p.firstLine second ∧ p.firstLine.IsLine := by
  rcases h.description with hline | ⟨first, second, hd, hfirst, hne, hsecond⟩
  · left
    rw [moreLines, firstLine, Text.linesOf_of_notMem hline.line]
    split
    · next hd => exact ⟨rfl, hd, by decide⟩
    · exact ⟨rfl, rfl, hline⟩
  · right
    have hlines := Text.linesOf_paragraphs hfirst.line hsecond.isLine.line
    rw [moreLines, firstLine, hd, hlines]
    refine ⟨second, rfl, hsecond, ?_, hfirst⟩
    simp [continued, hne]

theorem Expressible.isLine_firstLine (h : p.Expressible) : p.firstLine.IsLine := by
  rcases h.description_cases with ⟨-, -, hfirst⟩ | ⟨-, -, -, -, hfirst⟩ <;> exact hfirst

/-! ### Headings -/

theorem isFlag_of_mem_flags {flag : Text} (h : flag ∈ p.flags) : Heading.IsFlag flag := by
  have hflag : flag = "required".toList ∨ flag = "optional".toList ∨ flag = "nullable".toList := by
    rcases List.mem_append.1 h with h | h
    · rcases hp : p.required with _ | _ | _ <;> simp_all [requirementFlags]
    · split at h <;> simp_all
  rcases hflag with rfl | rfl | rfl <;> decide

theorem Expressible.valid_heading (h : p.Expressible) : p.heading.Valid where
  name := h.name
  name_marks := h.name_marks
  flags _ := isFlag_of_mem_flags
  datatype := h.datatype
  datatype_marks := h.datatype_marks
  description := h.isLine_firstLine

/-- A mark is found on the line of a property exactly if the property has that flag. -/
theorem Expressible.contains (h : p.Expressible) {mark : Text} (hmark : mark ∈ flagMarks) :
    Text.contains mark (Text.trim p.heading.text) =
      p.flags.any fun flag => Text.contains mark (Heading.parenthesized flag) := by
  -- Each mark has an opening parenthesis, but nothing that stands between the parts of the line.
  have hshape : ∀ mark ∈ flagMarks, '(' ∈ mark ∧ ∀ c ∈ mark, c ≠ ' ' ∧ c ≠ '[' ∧ c ≠ ']' := by
    decide
  obtain ⟨hopen, hbetween⟩ := hshape mark hmark
  obtain ⟨hdatatype, hdescription⟩ := h.unmarked mark hmark
  rw [h.valid_heading.contains hopen hbetween]
  simp [heading, hdatatype, hdescription]

theorem Expressible.requirement? (h : p.Expressible) :
    Property.requirement? (Text.trim p.heading.text) = p.required := by
  rw [Property.requirement?, h.contains (by decide), h.contains (by decide), flags]
  rcases p.required with _ | _ | _ <;> rcases p.nullable with _ | _ | _ <;> decide

theorem Expressible.contains_nullableMark (h : p.Expressible) :
    (if Text.contains nullableMark (Text.trim p.heading.text) then some true else none) =
      p.nullable := by
  rw [h.contains (by decide), flags]
  rcases hnullable : p.nullable with _ | _ | _
  · rcases p.required with _ | _ | _ <;> decide
  · exact absurd hnullable h.nullable
  · rcases p.required with _ | _ | _ <;> decide

/-- What the line of a property says of it. -/
theorem Expressible.ofRest_heading (h : p.Expressible) :
    ofRest (Text.trim p.heading.text) =
      { p with description := p.firstLine, sample := none } := by
  have hv := h.valid_heading
  have hname : Text.trim (headline (Text.trim p.heading.text)) = p.name := hv.headline
  have hdatatype : datatypeOf (Text.trim p.heading.text) = p.datatype := hv.datatypeOf
  have hfirst : firstDescription (Text.trim p.heading.text) = p.firstLine := by
    rw [firstDescription, hv.trailing?]
    exact hv.trim_tail
  rw [ofRest, hname, hdatatype, hfirst, h.requirement?, h.contains_nullableMark]

/-! ### Examples -/

theorem isLine_quoted {s : Text} (h : s.IsLine) : (quoted s).IsLine where
  isTrimmed := by
    refine ⟨by rintro _ ⟨⟩; decide, fun c hc => ?_⟩
    obtain rfl : '"' = c := by
      simpa [quoted, List.getLast?_cons, List.getLast?_append] using hc
    decide
  line := by simpa [quoted] using h.line

theorem isProse_quoted {s : Text} (h : s.IsLine) : (quoted s).IsProse where
  isLine := isLine_quoted h
  ne_nil := by simp [quoted]
  plain := by
    rw [Line.classify_written, Text.trim_eq_self (isLine_quoted h).isTrimmed]
    exact Line.ofComment_of_head (by simp [quoted])

theorem unquoted_quoted {s : Text} (h : s.IsLine) (hhead : s.head? ≠ some '"')
    (hlast : s.getLast? ≠ some '"') : unquoted (quoted s) = s := by
  rw [unquoted, Text.trim_eq_self (isLine_quoted h).isTrimmed, quoted,
    Text.trimMarks_surrounded hhead hlast, Text.trim_eq_self h.isTrimmed]

theorem Expressible.valid_comments (h : p.Expressible) : ∀ c ∈ p.comments place, c.Valid := by
  intro c hc
  simp only [comments, more, List.mem_cons, List.mem_append, List.mem_map, List.mem_flatMap,
    Option.mem_toList] at hc
  rcases hc with rfl | ⟨s, hs, rfl⟩ | ⟨s, hs, hc⟩
  · exact ⟨by decide, h.valid_heading.not_mem_text⟩
  · rcases h.description_cases with ⟨hmore, -⟩ | ⟨second, hmore, hsecond, -⟩
    · simp [hmore] at hs
    · obtain rfl : s = second := by simpa [hmore] using hs
      exact hsecond
  · have hline := (h.sample s hs).1
    cases place with
    | inline =>
        obtain rfl := List.mem_singleton.1 hc
        exact ⟨by decide, (isLine_quoted hline).line⟩
    | below =>
        rcases List.mem_cons.1 hc with rfl | hc
        · exact ⟨by decide, by decide⟩
        · obtain rfl := List.mem_singleton.1 hc
          exact isProse_quoted hline

theorem tag_of_mem_comments {tag : Tag} {s : Text} (h : .tagged tag s ∈ p.comments place) :
    tag = .property ∨ tag = .sample := by
  simp only [comments, more, List.mem_cons, List.mem_append, List.mem_map, List.mem_flatMap] at h
  rcases h with h | ⟨_, -, h⟩ | ⟨_, -, h⟩
  · cases h; exact .inl rfl
  · cases h
  · cases place with
    | inline => cases List.mem_singleton.1 h; exact .inr rfl
    | below =>
        rcases List.mem_cons.1 h with h | h
        · cases h; exact .inr rfl
        · cases List.mem_singleton.1 h

/-! ### What the readers find -/

/-- What can stand below a property: nothing, or the next one. -/
def Follows (cs : List Comment) : Prop :=
  ∀ c ∈ cs.head?, ∃ s, c = .tagged .property s

theorem readContinuation_tagged (q : Property) (n : Nat) (tag : Tag) (s : Text)
    (cs : List Comment) :
    readContinuation q (ofComments sp n (.tagged tag s :: cs)) = (q, 0) := rfl

theorem readContinuation_follows (q : Property) (n : Nat) {cs : List Comment} (h : Follows cs) :
    readContinuation q (ofComments sp n cs) = (q, 0) := by
  cases cs with
  | nil => rfl
  | cons c cs =>
      obtain ⟨s, rfl⟩ := h c rfl
      exact readContinuation_tagged q n .property s cs

theorem readContinuation_prose (q : Property) (n : Nat) {s : Text} (hs : s ≠ [])
    (cs : List Comment) :
    readContinuation q (ofComments sp n (.prose s :: cs)) =
      ({ q with description := continued q.description s }, 1) := by
  simp [CommentLine.ofComments_prose_cons, readContinuation, CommentLine.prose?,
    CommentLine.isPlain, hs]

/-- The example of a property is read from its lines, whatever property stands above them. -/
theorem readSample_place (q : Property) (n : Nat) {s : Text} (h : s.IsLine)
    (hhead : s.head? ≠ some '"') (hlast : s.getLast? ≠ some '"') (cs : List Comment) :
    readSample q (ofComments sp n (place.comments s ++ cs)) =
      ({ q with sample := some s }, (place.comments s).length) := by
  have htrim : Text.trim (quoted s) = quoted s := Text.trim_eq_self (isLine_quoted h).isTrimmed
  have hunquoted := unquoted_quoted h hhead hlast
  cases place with
  | inline =>
      have hne : (quoted s).isEmpty = false := rfl
      simp [SamplePlace.comments, CommentLine.ofComments_tagged_cons, readSample, CommentLine.has,
        htrim, hne, hunquoted]
  | below =>
      have hnil : Text.trim [] = [] := rfl
      simp [SamplePlace.comments, CommentLine.ofComments_tagged_cons,
        CommentLine.ofComments_prose_cons, readSample, CommentLine.has, CommentLine.isPlain, hnil,
        hunquoted]

theorem readSample_follows (q : Property) (n : Nat) {cs : List Comment} (h : Follows cs) :
    readSample q (ofComments sp n cs) = (q, 0) := by
  cases cs with
  | nil => rfl
  | cons c cs =>
      obtain ⟨s, rfl⟩ := h c rfl
      rfl

theorem Expressible.readContinuation_more (h : p.Expressible) (n : Nat) {cs : List Comment}
    (hcs : Follows cs) :
    readContinuation { p with description := p.firstLine, sample := none }
        (ofComments sp n (p.more place ++ cs)) =
      ({ p with sample := none }, p.moreLines.length) := by
  rw [more, List.append_assoc]
  rcases h.description_cases with ⟨hmore, hd, -⟩ | ⟨second, hmore, hsecond, hd, -⟩
  · rw [hmore, ← hd, List.map_nil, List.nil_append]
    cases hs : p.sample with
    | none => exact readContinuation_follows _ n hcs
    | some s => cases place <;> exact readContinuation_tagged _ n .sample _ _
  · rw [hmore, List.map_singleton, List.singleton_append,
      readContinuation_prose _ n hsecond.ne_nil, ← hd]
    rfl

theorem Expressible.readSample_sample (h : p.Expressible) (n : Nat) {cs : List Comment}
    (hcs : Follows cs) :
    readSample { p with sample := none }
        (ofComments sp n (p.sample.toList.flatMap place.comments ++ cs)) =
      (p, (p.sample.toList.flatMap place.comments).length) := by
  obtain ⟨name, datatype, description, required, nullable, sample⟩ := p
  cases sample with
  | none => exact readSample_follows _ n hcs
  | some s =>
      obtain ⟨hline, hhead, hlast⟩ := h.sample s rfl
      have hflat : (some s).toList.flatMap place.comments = place.comments s := by simp
      rw [hflat]
      exact readSample_place _ n hline hhead hlast cs

/-- A property comes back from its lines, and leaves the lines below them alone. -/
theorem Expressible.read_comments (h : p.Expressible) (n : Nat) {cs : List Comment}
    (hcs : Follows cs) :
    Property.read (Text.trim p.heading.text) (ofComments sp n (p.more place ++ cs)) =
      (p, (p.more place).length) := by
  have hdrop : (ofComments sp n (p.more place ++ cs)).drop p.moreLines.length =
      ofComments sp (n + p.moreLines.length) (p.sample.toList.flatMap place.comments ++ cs) := by
    have hmap : p.moreLines.length = (p.moreLines.map Comment.prose).length := by simp
    rw [more, List.append_assoc, hmap, CommentLine.drop_ofComments_append]
  have hlength : p.moreLines.length + (p.sample.toList.flatMap place.comments).length =
      (p.more place).length := by
    simp [more]
  rw [Property.read, h.ofRest_heading]
  simp only [h.readContinuation_more n hcs, hdrop, h.readSample_sample _ hcs, hlength]

end Property
end DocTags
