import DocTags.Proofs.Endpoint.Written

/-!
Endpoints come back from their blocks. The passages of a block may stand in any order that keeps
those of one tag in their order, as long as no parameter stands above the path.
-/

namespace DocTags

namespace Passage

theorem filter_note (tag tag' : Tag) (s : Option Text) :
    (note tag s).filter (·.tag = tag') = if tag = tag' then note tag s else [] := by
  cases s <;> by_cases h : tag = tag' <;> simp [note, h]

theorem head?_note (tag : Tag) (s : Option Text) : (note tag s).head? = s.map (⟨tag, ·, []⟩) := by
  cases s <;> rfl

end Passage

theorem Parameter.filter_passages (ps : List Parameter) (tag : Tag) :
    (ps.map Parameter.passage).filter (·.tag = tag) =
      if tag = .parameter then ps.map Parameter.passage else [] := by
  split
  · next h => subst h; simp [List.filter_eq_self, Parameter.passage]
  · next h => simpa [List.filter_eq_nil_iff, Parameter.passage] using fun _ _ => Ne.symm h

theorem Response.filter_passages (rs : List Response) (tag : Tag) :
    (rs.map Response.passage).filter (·.tag = tag) =
      if tag = .response then rs.map Response.passage else [] := by
  split
  · next h => subst h; simp [List.filter_eq_self, Response.passage]
  · next h => simpa [List.filter_eq_nil_iff, Response.passage] using fun _ _ => Ne.symm h

namespace CommentLine

theorem takeWhile_isPlain_ofComments (sp : Spelling) (n : Nat) (ls : List Text)
    (as : List Passage) :
    ((ofComments sp n (ls.map .prose ++ as.flatMap Passage.comments)).takeWhile (·.isPlain)).map
      (·.text) = ls := by
  induction ls generalizing n with
  | nil => cases as <;> rfl
  | cons s ls ih =>
      rw [List.map_cons, List.cons_append, ofComments_prose_cons,
        List.takeWhile_cons_of_pos (by rfl), List.map_cons, ih]

end CommentLine

namespace Operation

open CommentLine (ofComments)

theorem readItems_prose (sp : Spelling) (n : Nat) (ls : List Text) (cs : List Comment) :
    readItems (ofComments sp n (ls.map .prose ++ cs)) =
      readItems (ofComments sp (n + ls.length) cs) := by
  induction ls generalizing n with
  | nil => rfl
  | cons s ls ih =>
      rw [List.map_cons, List.cons_append, CommentLine.ofComments_prose_cons, readItems, ih,
        List.length_cons, Nat.add_assoc, Nat.add_comm 1]

theorem readItems_passages (sp : Spelling) (n : Nat) {as : List Passage} {ps : List Parameter}
    {rs : List Response} (hps : as.filter (·.tag = .parameter) = ps.map Parameter.passage)
    (hrs : as.filter (·.tag = .response) = rs.map Response.passage)
    (hp : ∀ p ∈ ps, p.Expressible) (hr : ∀ r ∈ rs, r.Expressible) :
    readItems (ofComments sp n (as.flatMap Passage.comments)) = .ok (ps, rs) := by
  induction as generalizing n ps rs with
  | nil =>
      obtain rfl : ps = [] := by simpa using hps.symm
      obtain rfl : rs = [] := by simpa using hrs.symm
      rfl
  | cons a as ih =>
      rw [List.flatMap_cons, Passage.comments, List.cons_append, CommentLine.ofComments_tagged_cons]
      -- A parameter or a response is the next one of its list; other passages are passed over.
      by_cases hparameter : a.tag = .parameter
      · rw [List.filter_cons_of_pos (by simpa using hparameter)] at hps
        rw [List.filter_cons_of_neg (by simp [hparameter])] at hrs
        obtain ⟨p, ps, rfl, ha, hps⟩ := List.map_eq_cons_iff.1 hps.symm
        have hread := (hp p List.mem_cons_self).read_passage
          (CommentLine.takeWhile_isPlain_ofComments sp (n + 1) p.passage.more as)
        rw [ha] at hread
        rw [hparameter,
          readItems_parameter (l := ⟨n, some .parameter, _, Text.trim a.text⟩) rfl hread,
          readItems_prose, ih _ hps.symm hrs (fun q hq => hp q (List.mem_cons_of_mem p hq)) hr]
        rfl
      · rw [List.filter_cons_of_neg (by simpa using hparameter)] at hps
        by_cases hresponse : a.tag = .response
        · rw [List.filter_cons_of_pos (by simpa using hresponse)] at hrs
          obtain ⟨r, rs, rfl, ha, hrs⟩ := List.map_eq_cons_iff.1 hrs.symm
          have hread := (hr r List.mem_cons_self).read_passage
          rw [ha] at hread
          rw [hresponse,
            readItems_response (l := ⟨n, some .response, _, Text.trim a.text⟩) rfl hread,
            readItems_prose, ih _ hps hrs.symm hp fun q hq => hr q (List.mem_cons_of_mem r hq)]
          rfl
        · rw [List.filter_cons_of_neg (by simpa using hresponse)] at hrs
          rw [readItems_other (by simpa using hparameter) (by simpa using hresponse),
            readItems_prose, ih _ hps hrs hp hr]

end Operation

namespace Block

variable {b : Block} {sp : Spelling} {cs : List Comment}

/-- What follows a tag that an optional text is written with. -/
theorem IsMadeOf.restOf?_note {prose : List Text} {as : List Passage}
    (h : b.IsMadeOf sp (prose.map .prose ++ as.flatMap Passage.comments)) {tag : Tag}
    (htag : tag ≠ .blockStart) {s : Option Text} (hs : ∀ t ∈ s, t.IsTrimmed)
    (has : as.filter (·.tag = tag) = Passage.note tag s) :
    Operation.restOf? tag b.lines = s := by
  have hrest : Operation.restOf? tag b.lines =
      ((b.lines.find? (·.has tag)).map (·.rest)).map Text.trim := by
    rw [Option.map_map]
    rfl
  rw [hrest, h.find? htag, List.findSome?_append, Comment.findSome?_rest?_prose, Option.none_or,
    Passage.findSome?_rest?, ← List.head?_filter, has, Passage.head?_note]
  cases s with
  | none => rfl
  | some t => simp [Text.trim_eq_self (hs t rfl)]

theorem sampleOf?_eq {tag : Tag} {s : Option Text} (hs : ∀ t ∈ s, t ≠ [])
    (h : Operation.restOf? tag b.lines = s) : Operation.sampleOf? tag b.lines = s := by
  rw [Operation.restOf?, ← map_splitAt?_eq_find?, Option.map_map] at h
  rw [Operation.sampleOf?]
  cases hsplit : splitAt? tag b.lines with
  | none =>
      rw [hsplit] at h
      exact h
  | some parts =>
      rw [hsplit, Option.map_some] at h
      have hne := hs _ h.symm
      simp only [Function.comp] at h hne
      simp [hne, ← h]

theorem textOf?_eq {tag : Tag} {s : Option Text} (hs : ∀ t ∈ s, t ≠ [])
    (h : Operation.restOf? tag b.lines = s) : Operation.textOf? tag b.lines = s := by
  rw [Operation.textOf?, h]
  cases s with
  | none => rfl
  | some t => simp [Text.nonempty?, hs t rfl]

end Block

namespace Endpoint

def bracketed (s : Text) : Text :=
  '[' :: (s ++ [']'])

theorem isTrimmed_bracketed (s : Text) : (bracketed s).IsTrimmed := by
  refine ⟨by rintro _ ⟨⟩; decide, fun c hc => ?_⟩
  obtain rfl : ']' = c := by
    simpa [bracketed, List.getLast?_cons, List.getLast?_append] using hc
  decide

/-- The parts of an endpoint, its description apart. -/
def passages (e : Endpoint) : List Passage :=
  [⟨.path, PathLine.written e.operation.verb e.path, []⟩] ++
    Passage.note .summary e.operation.summary ++
    Passage.note .operationId e.operation.operationId ++
    e.operation.parameters.map Parameter.passage ++
    e.operation.responses.map Response.passage ++
    Passage.note .responseType (e.operation.responseType.map bracketed) ++
    Passage.note .requestSample e.operation.requestSample ++
    Passage.note .sample e.operation.responseSample

/-- An order in which the parts of an endpoint may be written. Those of one tag keep their order. -/
structure Arranges (e : Endpoint) (as : List Passage) : Prop where
  filter_tag : ∀ tag, as.filter (·.tag = tag) = e.passages.filter (·.tag = tag)
  /-- Prose below a parameter would describe the endpoint if it stood above the path. -/
  above_path : ∀ a ∈ as.takeWhile (·.tag ≠ .path), a.tag ≠ .parameter

/-- The comments of an endpoint block: its description, then its parts. -/
def comments (e : Endpoint) (as : List Passage) : List Comment :=
  (Text.linesOf e.operation.description).map .prose ++ as.flatMap Passage.comments

/-- An endpoint that can be written so that it is read back. -/
structure Expressible (e : Endpoint) : Prop where
  path : e.path.IsLine ∧ e.path ≠ []
  description : ∀ s ∈ Text.linesOf e.operation.description, s.IsProse
  summary : ∀ s ∈ e.operation.summary, s.IsLine ∧ s ≠ []
  operationId : ∀ s ∈ e.operation.operationId, s.IsLine ∧ s ≠ []
  parameters : ∀ p ∈ e.operation.parameters, p.Expressible
  responses : ∀ r ∈ e.operation.responses, r.Expressible
  responseType : ∀ s ∈ e.operation.responseType, s.IsLine ∧ s ≠ [] ∧ ']' ∉ s
  requestSample : ∀ s ∈ e.operation.requestSample, s.IsLine ∧ s ≠ []
  responseSample : ∀ s ∈ e.operation.responseSample, s.IsLine ∧ s ≠ []

variable {e : Endpoint} {as : List Passage}

theorem arranges_passages (e : Endpoint) : e.Arranges e.passages :=
  ⟨fun _ => rfl, by simp [passages]⟩

theorem Arranges.filter_eq (has : e.Arranges as) (tag : Tag) :
    as.filter (·.tag = tag) =
      (match tag with
        | .path => [⟨.path, PathLine.written e.operation.verb e.path, []⟩]
        | .summary => Passage.note .summary e.operation.summary
        | .operationId => Passage.note .operationId e.operation.operationId
        | .parameter => e.operation.parameters.map Parameter.passage
        | .response => e.operation.responses.map Response.passage
        | .responseType => Passage.note .responseType (e.operation.responseType.map bracketed)
        | .requestSample => Passage.note .requestSample e.operation.requestSample
        | .sample => Passage.note .sample e.operation.responseSample
        | _ => []) := by
  rw [has.filter_tag]
  cases tag <;>
    simp [passages, Passage.filter_note, Parameter.filter_passages, Response.filter_passages]

theorem Arranges.mem_passages (has : e.Arranges as) {a : Passage} (ha : a ∈ as) :
    a ∈ e.passages := by
  have hfilter : a ∈ as.filter (·.tag = a.tag) := List.mem_filter.2 ⟨ha, by simp⟩
  rw [has.filter_tag] at hfilter
  exact (List.mem_filter.1 hfilter).1

theorem valid_of_mem_note {tag : Tag} (htag : tag ∈ Tag.declared) {s : Option Text}
    (hs : ∀ t ∈ s, '\n' ∉ t) {a : Passage} (ha : a ∈ Passage.note tag s) : a.Valid := by
  obtain ⟨t, ht, rfl⟩ := List.mem_map.1 ha
  exact ⟨htag, hs t (Option.mem_toList.1 ht), by simp⟩

theorem Expressible.valid_passages (he : e.Expressible) {a : Passage} (ha : a ∈ e.passages) :
    a.Valid := by
  simp only [passages, List.mem_append, List.mem_singleton, List.mem_map, or_assoc] at ha
  rcases ha with rfl | ha | ha | ⟨p, hp, rfl⟩ | ⟨r, hr, rfl⟩ | ha | ha | ha
  · exact ⟨show Tag.path ∈ Tag.declared by decide, PathLine.not_mem_written _ he.path.1.line,
      by simp⟩
  · exact valid_of_mem_note (by decide) (fun s hs => (he.summary s hs).1.line) ha
  · exact valid_of_mem_note (by decide) (fun s hs => (he.operationId s hs).1.line) ha
  · exact (he.parameters p hp).valid_passage
  · exact (he.responses r hr).valid_passage
  · refine valid_of_mem_note (by decide) (fun s hs => ?_) ha
    obtain ⟨t, ht, rfl⟩ := Option.map_eq_some_iff.1 hs
    simpa [bracketed] using (he.responseType t ht).1.line
  · exact valid_of_mem_note (by decide) (fun s hs => (he.requestSample s hs).1.line) ha
  · exact valid_of_mem_note (by decide) (fun s hs => (he.responseSample s hs).1.line) ha

/-- Only parameters are continued below their line. -/
theorem more_of_mem_passages {a : Passage} (ha : a ∈ e.passages) (htag : a.tag ≠ .parameter) :
    a.more = [] := by
  have hnote {tag : Tag} {s : Option Text} (ha : a ∈ Passage.note tag s) : a.more = [] := by
    obtain ⟨t, -, rfl⟩ := List.mem_map.1 ha
    rfl
  simp only [passages, List.mem_append, List.mem_singleton, List.mem_map, or_assoc] at ha
  rcases ha with rfl | ha | ha | ⟨p, hp, rfl⟩ | ⟨r, hr, rfl⟩ | ha | ha | ha
  · rfl
  · exact hnote ha
  · exact hnote ha
  · exact absurd rfl htag
  · rfl
  · exact hnote ha
  · exact hnote ha
  · exact hnote ha

theorem Expressible.valid_comments (he : e.Expressible) (has : e.Arranges as) :
    ∀ c ∈ e.comments as, c.Valid := by
  intro c hc
  rcases List.mem_append.1 hc with hc | hc
  · obtain ⟨s, hs, rfl⟩ := List.mem_map.1 hc
    exact he.description s hs
  · obtain ⟨a, ha, hc⟩ := List.mem_flatMap.1 hc
    exact (he.valid_passages (has.mem_passages ha)).comments c hc

variable {b : Block} {sp : Spelling}

theorem has_of_isMadeOf (hb : b.IsMadeOf sp (e.comments as)) {tag : Tag}
    (htag : tag ≠ .blockStart) : b.has tag = (as.filter (·.tag = tag)).head?.isSome := by
  rw [hb.has htag, comments, List.findSome?_append, Comment.findSome?_rest?_prose, Option.none_or,
    Passage.findSome?_rest?, Option.isSome_map, List.head?_filter]

theorem Arranges.kind (h : e.Arranges as) (hb : b.IsMadeOf sp (e.comments as)) :
    b.kind = .endpoint := by
  have hresource : b.has .resource = false := by
    rw [has_of_isMadeOf hb (by decide), h.filter_eq]
    rfl
  have hpath : b.has .path = true := by
    rw [has_of_isMadeOf hb (by decide), h.filter_eq]
    rfl
  simp [Block.kind, hresource, hpath]

/-- The parts above the path are single lines with other tags. -/
theorem Arranges.exists_eq_append (h : e.Arranges as) :
    ∃ above below, as = above ++ ⟨.path, PathLine.written e.operation.verb e.path, []⟩ :: below ∧
      ∀ a ∈ above, a.tag ≠ .path ∧ a.more = [] := by
  have hfind : as.find? (·.tag = .path) =
      some ⟨.path, PathLine.written e.operation.verb e.path, []⟩ := by
    rw [← List.head?_filter, h.filter_eq]
    rfl
  obtain ⟨-, above, below, rfl, habove⟩ := List.find?_eq_some_iff_append.1 hfind
  have hpath : ∀ a ∈ above, a.tag ≠ .path := fun a ha => by simpa using habove a ha
  refine ⟨above, below, rfl, fun a ha => ⟨hpath a ha, ?_⟩⟩
  have hparameter : a.tag ≠ .parameter := by
    apply h.above_path
    rw [List.takeWhile_append_of_pos (by simpa using hpath)]
    exact List.mem_append_left _ ha
  exact more_of_mem_passages (h.mem_passages (List.mem_append_left _ ha)) hparameter

theorem filterMap_prose?_comments {above : List Passage} (h : ∀ a ∈ above, a.more = []) :
    (above.flatMap Passage.comments).filterMap Comment.prose? = [] := by
  rw [List.filterMap_eq_nil_iff]
  intro c hc
  obtain ⟨a, ha, hc⟩ := List.mem_flatMap.1 hc
  obtain rfl : c = .tagged a.tag a.text := by simpa [Passage.comments, h a ha] using hc
  rfl

/-- The path line of the block of an endpoint, and what stands above it. -/
theorem Expressible.splitAt?_path (he : e.Expressible) (h : e.Arranges as)
    (hb : b.IsMadeOf sp (e.comments as)) :
    ∃ before l below, Block.splitAt? .path b.lines = some (before, l, below) ∧
      PathLine.read l.rest = .ok (e.operation.verb, e.path) ∧
      CommentLine.prose before = e.operation.description := by
  obtain ⟨above, below, has, habove⟩ := h.exists_eq_append
  have hvalid := he.valid_comments h
  have hcomments : e.comments as =
      ((Text.linesOf e.operation.description).map .prose ++ above.flatMap Passage.comments) ++
        .tagged .path (PathLine.written e.operation.verb e.path) ::
          below.flatMap Passage.comments := by
    simp [comments, has, Passage.comments]
  rw [hcomments] at hb hvalid
  have hfirst : ((Text.linesOf e.operation.description).map Comment.prose ++
      above.flatMap Passage.comments).findSome? (Comment.rest? .path) = none := by
    rw [List.findSome?_append, Comment.findSome?_rest?_prose, Option.none_or,
      Passage.findSome?_rest?, Option.map_eq_none_iff, List.find?_eq_none]
    intro a ha
    simpa using (habove a ha).1
  obtain ⟨n, before, l, hsplit, hrest, hprose⟩ :=
    hb.splitAt? (by decide) hfirst fun c hc => hvalid c (List.mem_append_left _ hc)
  refine ⟨before, l, _, hsplit, ?_, ?_⟩
  · rw [hrest]
    exact PathLine.read_written _ he.path.1.isTrimmed he.path.2
  · rw [CommentLine.prose, hprose, List.filterMap_append,
      filterMap_prose?_comments fun a ha => (habove a ha).2, List.append_nil,
      Comment.filterMap_prose?_prose, Text.joinLines_linesOf]

theorem Expressible.readItems (he : e.Expressible) (h : e.Arranges as)
    (hb : b.IsMadeOf sp (e.comments as)) :
    Operation.readItems b.lines = .ok (e.operation.parameters, e.operation.responses) := by
  obtain ⟨n, hn⟩ := hb.exists_lines_eq
  rw [hn, Operation.readItems_other (by simp) (by simp), comments, Operation.readItems_prose]
  exact Operation.readItems_passages sp _ (h.filter_eq .parameter) (h.filter_eq .response)
    he.parameters he.responses

theorem Expressible.typeOf?_eq (he : e.Expressible) (h : e.Arranges as)
    (hb : b.IsMadeOf sp (e.comments as)) :
    Operation.typeOf? .responseType b.lines = e.operation.responseType := by
  have hrest : Operation.restOf? .responseType b.lines =
      e.operation.responseType.map bracketed := by
    refine hb.restOf?_note (by decide) ?_ (h.filter_eq .responseType)
    intro s hs
    obtain ⟨t, -, rfl⟩ := Option.map_eq_some_iff.1 hs
    exact isTrimmed_bracketed t
  rw [Operation.typeOf?, hrest]
  cases hs : e.operation.responseType with
  | none => rfl
  | some t =>
      obtain ⟨hline, hne, hclosed⟩ := he.responseType t hs
      have hgroup : Text.firstGroup? '[' ']' (bracketed t) = some t := by
        rw [Text.firstGroup?, bracketed, Text.groups_cons_append hclosed,
          Text.trim_eq_self hline.isTrimmed]
        rfl
      simp [hgroup, Text.trim_eq_self hline.isTrimmed, Text.nonempty?, hne]

theorem Expressible.ofBlock (he : e.Expressible) (h : e.Arranges as)
    (hb : b.IsMadeOf sp (e.comments as)) : Endpoint.ofBlock e.resource b = .ok e := by
  obtain ⟨before, l, below, hsplit, hpath, hprose⟩ := he.splitAt?_path h hb
  have hsummary : Operation.textOf? .summary b.lines = e.operation.summary :=
    Block.textOf?_eq (fun s hs => (he.summary s hs).2)
      (hb.restOf?_note (by decide) (fun s hs => (he.summary s hs).1.isTrimmed)
        (h.filter_eq .summary))
  have hoperationId : Operation.textOf? .operationId b.lines = e.operation.operationId :=
    Block.textOf?_eq (fun s hs => (he.operationId s hs).2)
      (hb.restOf?_note (by decide) (fun s hs => (he.operationId s hs).1.isTrimmed)
        (h.filter_eq .operationId))
  have hrequestSample : Operation.sampleOf? .requestSample b.lines = e.operation.requestSample :=
    Block.sampleOf?_eq (fun s hs => (he.requestSample s hs).2)
      (hb.restOf?_note (by decide) (fun s hs => (he.requestSample s hs).1.isTrimmed)
        (h.filter_eq .requestSample))
  have hsample : Operation.sampleOf? .sample b.lines = e.operation.responseSample :=
    Block.sampleOf?_eq (fun s hs => (he.responseSample s hs).2)
      (hb.restOf?_note (by decide) (fun s hs => (he.responseSample s hs).1.isTrimmed)
        (h.filter_eq .sample))
  rw [Endpoint.ofBlock, hsplit]
  simp only [hpath, he.readItems h hb, hprose, hsummary, hoperationId, he.typeOf?_eq h hb,
    hrequestSample, hsample]
  rfl

end Endpoint
end DocTags
