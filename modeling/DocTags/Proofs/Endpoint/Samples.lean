import DocTags.Docs
import DocTags.Proofs.Endpoint.Validity

/-!
Where examples are read. An example is the text behind its tag, on the first line with the tag, or
else the line right below. For a property the line below has to be one of prose; for an endpoint it
may begin with a tag, and is then read twice.
-/

namespace DocTags

/-- The first line with a tag, below these lines. -/
def IsFirst (tag : Tag) (above : List CommentLine) (l : CommentLine) : Prop :=
  l.has tag = true ∧ ∀ m ∈ above, m.has tag = false

/-- The last of these lines is the first one with a tag, and has no text behind the tag. -/
def IsBelowMarker (tag : Tag) (above : List CommentLine) : Prop :=
  ∃ before l, above = before ++ [l] ∧ IsFirst tag before l ∧ ∀ c ∈ l.rest, isBlank c = true

/-- The example of a tag among these lines, where certain lines may be taken for an example. -/
inductive IsSample (takes : CommentLine → Prop) (tag : Tag) (lines : List CommentLine) :
    Text → Prop where
  | inline {above below : List CommentLine} {l : CommentLine} : lines = above ++ l :: below →
      IsFirst tag above l → (∃ c ∈ l.rest, isBlank c = false) →
      IsSample takes tag lines (Text.trim l.rest)
  | below {above below : List CommentLine} {l : CommentLine} : lines = above ++ l :: below →
      IsBelowMarker tag above → (∃ c ∈ l.text, isBlank c = false) → takes l →
      IsSample takes tag lines (Text.trim l.text)

/-- The examples of an operation, with the tag of each. -/
def Operation.samples (o : Operation) : List (Tag × Option Text) :=
  [(.requestSample, o.requestSample), (.sample, o.responseSample)]

/-! ### Examples of endpoints -/

theorem nonempty?_eq_some_iff {s t : Text} : Text.nonempty? s = some t ↔ s ≠ [] ∧ s = t := by
  cases s <;> simp [Text.nonempty?]

theorem IsFirst.splitAt? {tag : Tag} {above below : List CommentLine} {l : CommentLine}
    (h : IsFirst tag above l) :
    Block.splitAt? tag (above ++ l :: below) = some (above, l, below) :=
  Block.splitAt?_append_cons h.2 h.1

theorem IsBelowMarker.exists_splitAt? {tag : Tag} {above : List CommentLine}
    (h : IsBelowMarker tag above) (l : CommentLine) (below : List CommentLine) :
    ∃ before m, Block.splitAt? tag (above ++ l :: below) = some (before, m, l :: below) ∧
      Text.trim m.rest = [] := by
  obtain ⟨before, m, rfl, hfirst, hblank⟩ := h
  exact ⟨before, m, by rw [← List.append_cons, hfirst.splitAt?], Text.trim_eq_nil_iff.2 hblank⟩

/-- The example is on the first line with the tag, or on the line below it. -/
theorem isSample_iff {takes : CommentLine → Prop} {tag : Tag} {lines : List CommentLine}
    {t : Text} :
    IsSample takes tag lines t ↔
      ∃ above l below, Block.splitAt? tag lines = some (above, l, below) ∧
        ((Text.trim l.rest ≠ [] ∧ Text.trim l.rest = t) ∨
          Text.trim l.rest = [] ∧ ∃ next ∈ below.head?, takes next ∧ Text.trim next.text ≠ [] ∧
            Text.trim next.text = t) := by
  constructor
  · intro h
    cases h with
    | @inline above below l hlines hfirst hrest =>
        rw [hlines]
        exact ⟨above, l, below, hfirst.splitAt?, .inl ⟨Text.trim_ne_nil_iff.2 hrest, rfl⟩⟩
    | @below above below l hlines hmarker htext htakes =>
        obtain ⟨before, m, hsplit, hempty⟩ := hmarker.exists_splitAt? l below
        rw [hlines]
        exact ⟨before, m, l :: below, hsplit,
          .inr ⟨hempty, l, rfl, htakes, Text.trim_ne_nil_iff.2 htext, rfl⟩⟩
  · rintro ⟨above, l, below, hsplit, h⟩
    obtain ⟨hlines, hl, habove⟩ := Block.splitAt?_eq_some hsplit
    rcases h with ⟨hrest, rfl⟩ | ⟨hempty, next, hnext, htakes, htext, rfl⟩
    · exact .inline hlines ⟨hl, habove⟩ (Text.trim_ne_nil_iff.1 hrest)
    · obtain ⟨more, rfl⟩ := List.head?_eq_some_iff.1 hnext
      rw [List.append_cons] at hlines
      exact .below hlines ⟨above, l, rfl, ⟨hl, habove⟩, Text.trim_eq_nil_iff.1 hempty⟩
        (Text.trim_ne_nil_iff.1 htext) htakes

theorem sampleOf?_eq_some_iff {tag : Tag} {lines : List CommentLine} {t : Text} :
    Operation.sampleOf? tag lines = some t ↔ IsSample (fun _ => True) tag lines t := by
  rw [isSample_iff, Operation.sampleOf?]
  cases Block.splitAt? tag lines with
  | none => simp
  | some parts =>
      obtain ⟨above, l, below⟩ := parts
      by_cases hrest : Text.trim l.rest = []
      · simp [hrest, Option.bind_eq_some_iff, nonempty?_eq_some_iff]
      · simp [hrest]

/-- Lines of prose only are taken if nothing else stands below the tag. -/
theorem IsSample.of_forall {tag : Tag} {lines : List CommentLine} {takes : CommentLine → Prop}
    (h : ∀ above l below, lines = above ++ l :: below → IsBelowMarker tag above → takes l)
    {t : Text} (ht : IsSample (fun _ => True) tag lines t) : IsSample takes tag lines t := by
  cases ht with
  | inline hlines hfirst hrest => exact .inline hlines hfirst hrest
  | below hlines hmarker htext _ =>
      exact .below hlines hmarker htext (h _ _ _ hlines hmarker)

theorem IsSample.mono {tag : Tag} {lines : List CommentLine} {takes takes' : CommentLine → Prop}
    (h : ∀ l, takes l → takes' l) {t : Text} (ht : IsSample takes tag lines t) :
    IsSample takes' tag lines t := by
  cases ht with
  | inline hlines hfirst hrest => exact .inline hlines hfirst hrest
  | below hlines hmarker htext htakes => exact .below hlines hmarker htext (h _ htakes)

/-! ### Examples of properties -/

namespace Property

/-- The example of a property stands behind its tag, or on a line of prose below it. -/
inductive HasSample (below : List CommentLine) : Text → Prop where
  | inline {above more : List CommentLine} {l : CommentLine} : below = above ++ l :: more →
      l.has .sample = true → (∃ c ∈ l.rest, isBlank c = false) →
      HasSample below (unquoted (Text.trim l.rest))
  | below {above more : List CommentLine} {l next : CommentLine} :
      below = above ++ l :: next :: more → l.has .sample = true →
      (∀ c ∈ l.rest, isBlank c = true) → next.isPlain = true →
      HasSample below (unquoted next.text)

theorem HasSample.append {below : List CommentLine} {t : Text} (h : HasSample below t)
    (above : List CommentLine) : HasSample (above ++ below) t := by
  cases h with
  | inline hbelow hl hrest => exact .inline (by rw [hbelow, ← List.append_assoc]) hl hrest
  | below hbelow hl hblank hplain =>
      exact .below (by rw [hbelow, ← List.append_assoc]) hl hblank hplain

theorem hasSample_of_readSample {p : Property} (hp : p.sample = none) {below : List CommentLine}
    {t : Text} (h : (readSample p below).1.sample = some t) : HasSample below t := by
  cases below with
  | nil => simp [readSample, hp] at h
  | cons l below =>
      simp only [readSample] at h
      split at h
      · next hl =>
          split at h
          · next hempty =>
              have hblank : ∀ c ∈ l.rest, isBlank c = true :=
                Text.trim_eq_nil_iff.1 (by simpa using hempty)
              cases below with
              | nil => simp [hp] at h
              | cons next below =>
                  dsimp only at h
                  split at h
                  · next hplain =>
                      cases h
                      exact .below (List.nil_append _).symm hl hblank hplain
                  · simp [hp] at h
          · next hne =>
              cases h
              exact .inline (List.nil_append _).symm hl
                (Text.trim_ne_nil_iff.1 (by simpa using hne))
      · simp [hp] at h

theorem hasSample_of_read {rest : Text} {below : List CommentLine} {t : Text}
    (h : (read rest below).1.sample = some t) : HasSample below t := by
  have hnone : (readContinuation (ofRest rest) below).1.sample = none := by
    unfold readContinuation
    split
    · rfl
    · split <;> rfl
  have hdrop := hasSample_of_readSample hnone h
  rw [← List.take_append_drop (readContinuation (ofRest rest) below).2 below]
  exact hdrop.append _

end Property

namespace Model

/-- Every property of a model has been read off a line, with the lines below it. -/
theorem exists_of_mem_properties {used : Nat} {lines : List CommentLine} {p : Property}
    (h : p ∈ (readBody used lines).properties) :
    ∃ l below, l :: below <:+ lines ∧ p = (Property.read l.rest below).1 := by
  induction lines generalizing used with
  | nil => cases used <;> simp [readBody] at h
  | cons l below ih =>
      have hbelow {n : Nat} (hp : p ∈ (readBody n below).properties) :
          ∃ k after, k :: after <:+ l :: below ∧ p = (Property.read k.rest after).1 := by
        obtain ⟨k, after, hsuffix, hk⟩ := ih hp
        exact ⟨k, after, hsuffix.trans (List.suffix_cons l below), hk⟩
      cases used with
      | succ used => exact hbelow h
      | zero =>
          rw [readBody] at h
          split at h
          · rcases List.mem_cons.1 h with hp | hp
            · exact ⟨l, below, List.suffix_refl _, hp⟩
            · exact hbelow hp
          · exact hbelow h
          · exact hbelow h
          · exact hbelow h
          · exact hbelow h

theorem hasSample_of_mem_properties {b : Block} {p : Property} (hp : p ∈ (ofBlock b).properties)
    {t : Text} (ht : p.sample = some t) : Property.HasSample b.lines t := by
  unfold ofBlock at hp
  split at hp
  · cases hp
  · next above l below hsplit =>
      obtain ⟨hlines, -, -⟩ := Block.splitAt?_eq_some hsplit
      obtain ⟨k, after, ⟨between, hbelow⟩, rfl⟩ := exists_of_mem_properties hp
      have hb : b.lines = (above ++ l :: between ++ [k]) ++ after := by
        rw [hlines, ← hbelow]
        simp
      rw [hb]
      exact (Property.hasSample_of_read ht).append _

end Model

namespace Endpoint

/-- What the examples of an endpoint are. They are the ones that prose is read for wherever no line
with a tag stands below an example tag without a text; properties have none but these. -/
theorem isSample_of_ofBlock {resource : Resource} {b : Block} {e : Endpoint}
    (h : ofBlock resource b = .ok e) :
    (∀ tag sample, (tag, sample) ∈ e.operation.samples →
      (∀ t, sample = some t ↔ IsSample (fun _ => True) tag b.lines t) ∧
      ((∀ above l below, b.lines = above ++ l :: below → IsBelowMarker tag above →
          l.isPlain = true) →
        ∀ t, sample = some t ↔ IsSample (·.isPlain = true) tag b.lines t)) ∧
    ∀ (m : Block) (p : Property) (t : Text), p ∈ (Model.ofBlock m).properties →
      p.sample = some t → Property.HasSample m.lines t := by
  have hsample {tag : Tag} {sample : Option Text} (hmem : (tag, sample) ∈ e.operation.samples) :
      sample = Operation.sampleOf? tag b.lines := by
    obtain ⟨above, l, below, verb, path, ps, rs, -, -, -, rfl⟩ := ofBlock_eq_ok_iff.1 h
    simp only [Operation.samples, List.mem_cons, List.not_mem_nil, or_false] at hmem
    rcases hmem with hmem | hmem <;> cases hmem <;> rfl
  refine ⟨?_, fun m p t hp ht => Model.hasSample_of_mem_properties hp ht⟩
  intro tag sample hmem
  rw [hsample hmem]
  refine ⟨fun t => sampleOf?_eq_some_iff, ?_⟩
  intro hplain t
  rw [sampleOf?_eq_some_iff]
  constructor
  · exact IsSample.of_forall hplain
  · exact IsSample.mono fun _ _ => trivial

/-- An example tag without a text, with a line of prose below it, and the same for a property. -/
theorem isSample_of_ofBlock_prose_below :
    let b : Block := ⟨[⟨1, some .path, [], "GET /pets".toList⟩,
      ⟨2, some .requestSample, [], " ".toList⟩, ⟨3, none, "{}".toList, "{}".toList⟩]⟩
    let m : Block := ⟨[⟨1, some .model, [], "Pet".toList⟩, ⟨2, some .property, [], "name".toList⟩,
      ⟨3, some .sample, [], []⟩, ⟨4, none, "Rex".toList, "Rex".toList⟩]⟩
    (∃ e, ofBlock ⟨[], []⟩ b = .ok e ∧ e.operation.requestSample = some "{}".toList) ∧
      IsSample (·.isPlain = true) .requestSample b.lines "{}".toList ∧
      Property.HasSample m.lines "Rex".toList := by
  intro b m
  have hok : ofBlock ⟨[], []⟩ b = .ok ⟨⟨[], []⟩, "/pets".toList,
      { verb := .get, description := [], summary := none, operationId := none, parameters := []
        responses := [], responseType := none, requestSample := some "{}".toList
        responseSample := none }⟩ := by decide
  have hplain : ∀ above l below, b.lines = above ++ l :: below → IsBelowMarker .requestSample above →
      l.isPlain = true := by
    intro above l below hlines hmarker
    obtain ⟨before, marker, hsplit, -⟩ := hmarker.exists_splitAt? l below
    rw [← hlines] at hsplit
    cases hsplit
    rfl
  obtain ⟨hendpoint, hmodel⟩ := isSample_of_ofBlock hok
  obtain ⟨-, hprose⟩ := hendpoint .requestSample (some "{}".toList) (by decide)
  refine ⟨⟨_, hok, rfl⟩, (hprose hplain _).1 rfl, ?_⟩
  exact hmodel m { Property.ofRest "name".toList with sample := some "Rex".toList } _ (by decide) rfl

/-- Below an example tag without a text a line with a tag is taken for the example. -/
theorem tagged_line_taken_for_sample :
    ¬∀ (source : Text) (resource : Resource), ∀ b ∈ Block.ofSource .standard source,
      ∀ e, ofBlock resource b = .ok e →
        ∀ t, e.operation.requestSample = some t →
          IsSample (·.isPlain = true) .requestSample b.lines t := by
  intro hsample
  let b : Block := ⟨[⟨1, some .blockStart, [], []⟩,
    ⟨2, some .path, "@path [GET] /widgets".toList, "[GET] /widgets".toList⟩,
    ⟨3, some .requestSample, "@example_request".toList, []⟩,
    ⟨4, some .response, "@response 200 OK".toList, "200 OK".toList⟩]⟩
  have hb : b ∈ Block.ofSource .standard
      "##\n# @path [GET] /widgets\n# @example_request\n# @response 200 OK\n".toList := by decide
  have hok : ofBlock ⟨[], []⟩ b = .ok ⟨⟨[], []⟩, "/widgets".toList,
      { verb := .get, description := [], summary := none, operationId := none, parameters := []
        responses := [⟨"200".toList, "OK".toList⟩], responseType := none
        requestSample := some "@response 200 OK".toList, responseSample := none }⟩ := by decide
  obtain ⟨above, marker, below, hsplit, h⟩ := isSample_iff.1 (hsample _ _ b hb _ hok _ rfl)
  cases hsplit
  rcases h with ⟨hrest, -⟩ | ⟨-, next, hnext, hplain, -⟩
  · exact hrest rfl
  · cases hnext
    cases hplain

end Endpoint
end DocTags
