import DocTags.Proofs.Endpoint.Acceptance
import DocTags.Proofs.Endpoint.Samples

/-!
What a line of prose in an endpoint block is used for. Below the path line it is part of one thing at
most; above the path line it describes the endpoint, and may be part of one more thing, which is what
the last theorem shows.
-/

namespace DocTags

/-- What a line of prose can be part of. -/
inductive ProseUse where
  | description
  /-- The description of a parameter, by its number in the block. -/
  | parameter (i : Nat)
  | requestSample
  | responseSample
  deriving DecidableEq, Repr

/-- What a line of prose below these lines is part of. -/
inductive IsUsedFor (above : List CommentLine) : ProseUse → Prop where
  | description : (∀ m ∈ above, m.has .path = false) → IsUsedFor above .description
  | parameter {before between : List CommentLine} {l : CommentLine} :
      above = before ++ l :: between → l.has .parameter = true →
      (∀ m ∈ between, m.isPlain = true) →
      IsUsedFor above (.parameter (before.countP (·.has .parameter)))
  | requestSample : IsBelowMarker .requestSample above → IsUsedFor above .requestSample
  | responseSample : IsBelowMarker .sample above → IsUsedFor above .responseSample

def Parameter.undescribed (p : Parameter) : Parameter :=
  { p with description := [] }

/-- The endpoints are the same, apart from these things. -/
structure Endpoint.AgreeBut (uses : ProseUse → Prop) (e f : Endpoint) : Prop where
  resource : e.resource = f.resource
  path : e.path = f.path
  verb : e.operation.verb = f.operation.verb
  description : ¬uses .description → e.operation.description = f.operation.description
  summary : e.operation.summary = f.operation.summary
  operationId : e.operation.operationId = f.operation.operationId
  undescribed : e.operation.parameters.map Parameter.undescribed =
    f.operation.parameters.map Parameter.undescribed
  parameter : ∀ i, ¬uses (.parameter i) → e.operation.parameters[i]? = f.operation.parameters[i]?
  responses : e.operation.responses = f.operation.responses
  responseType : e.operation.responseType = f.operation.responseType
  requestSample : ¬uses .requestSample → e.operation.requestSample = f.operation.requestSample
  responseSample : ¬uses .responseSample → e.operation.responseSample = f.operation.responseSample

theorem Endpoint.AgreeBut.mono {uses uses' : ProseUse → Prop} {e f : Endpoint}
    (h : e.AgreeBut uses f) (hsub : ∀ use, uses use → uses' use) : e.AgreeBut uses' f :=
  { h with
    description := fun hno => h.description fun hyes => hno (hsub _ hyes)
    parameter := fun i hno => h.parameter i fun hyes => hno (hsub _ hyes)
    requestSample := fun hno => h.requestSample fun hyes => hno (hsub _ hyes)
    responseSample := fun hno => h.responseSample fun hyes => hno (hsub _ hyes) }

/-! ### A line has one use besides the description of the endpoint -/

/-- The last line with a tag is found in one way only. -/
theorem eq_of_append_cons_eq {before before' between between' : List CommentLine}
    {l l' : CommentLine} (h : before ++ l :: between = before' ++ l' :: between')
    (hl : l.isPlain = false) (hl' : l'.isPlain = false) (hbetween : ∀ m ∈ between, m.isPlain = true)
    (hbetween' : ∀ m ∈ between', m.isPlain = true) : before = before' ∧ l = l' := by
  rcases List.append_eq_append_iff.1 h with ⟨more, rfl, hmore⟩ | ⟨more, rfl, hmore⟩
  · cases more with
    | nil =>
        obtain ⟨rfl, -⟩ : l = l' ∧ between = between' := by simpa using hmore
        simp
    | cons m more =>
        obtain ⟨rfl, rfl⟩ : l = m ∧ between = more ++ l' :: between' := by simpa using hmore
        simp [hbetween l' (by simp)] at hl'
  · cases more with
    | nil =>
        obtain ⟨rfl, -⟩ : l' = l ∧ between' = between := by simpa using hmore
        simp
    | cons m more =>
        obtain ⟨rfl, rfl⟩ : l' = m ∧ between' = more ++ l :: between := by simpa using hmore
        simp [hbetween' l (by simp)] at hl

/-- A use other than the description of the endpoint comes from the last line with a tag. -/
theorem IsUsedFor.exists_tagged {above : List CommentLine} {use : ProseUse}
    (h : IsUsedFor above use) (hne : use ≠ .description) :
    ∃ before l between, above = before ++ l :: between ∧ (∀ m ∈ between, m.isPlain = true) ∧
      ((l.has .parameter = true ∧ use = .parameter (before.countP (·.has .parameter))) ∨
       (l.has .requestSample = true ∧ use = .requestSample) ∨
       (l.has .sample = true ∧ use = .responseSample)) := by
  cases h with
  | description => exact absurd rfl hne
  | @parameter before between l habove hl hbetween =>
      exact ⟨before, l, between, habove, hbetween, .inl ⟨hl, rfl⟩⟩
  | requestSample h =>
      obtain ⟨before, l, habove, hfirst, -⟩ := h
      exact ⟨before, l, [], habove, by simp, .inr (.inl ⟨hfirst.1, rfl⟩)⟩
  | responseSample h =>
      obtain ⟨before, l, habove, hfirst, -⟩ := h
      exact ⟨before, l, [], habove, by simp, .inr (.inr ⟨hfirst.1, rfl⟩)⟩

theorem IsUsedFor.unique {above : List CommentLine} {use use' : ProseUse}
    (h : IsUsedFor above use) (h' : IsUsedFor above use') (hne : use ≠ .description)
    (hne' : use' ≠ .description) : use = use' := by
  obtain ⟨before, l, between, rfl, hbetween, hl⟩ := h.exists_tagged hne
  obtain ⟨before', l', between', habove, hbetween', hl'⟩ := h'.exists_tagged hne'
  have hplain : l.isPlain = false := by
    rcases hl with ⟨hl, -⟩ | ⟨hl, -⟩ | ⟨hl, -⟩ <;> exact CommentLine.isPlain_eq_false_of_has hl
  have hplain' : l'.isPlain = false := by
    rcases hl' with ⟨hl', -⟩ | ⟨hl', -⟩ | ⟨hl', -⟩ <;> exact CommentLine.isPlain_eq_false_of_has hl'
  obtain ⟨rfl, rfl⟩ := eq_of_append_cons_eq habove hplain hplain' hbetween hbetween'
  simp only [CommentLine.has_iff] at hl hl'
  rcases hl with ⟨htag, rfl⟩ | ⟨htag, rfl⟩ | ⟨htag, rfl⟩ <;>
    rcases hl' with ⟨htag', rfl⟩ | ⟨htag', rfl⟩ | ⟨htag', rfl⟩ <;>
      first | rfl | (rw [htag] at htag'; cases htag')

/-! ### Putting one line of prose in the place of another -/

section Replaced

variable {l k : CommentLine} {above below : List CommentLine}

theorem restOf?_replaced (hl : l.isPlain = true) (hk : k.isPlain = true) (tag : Tag) :
    Operation.restOf? tag (above ++ l :: below) = Operation.restOf? tag (above ++ k :: below) := by
  simp only [Operation.restOf?, List.find?_append, List.find?_cons,
    CommentLine.has_eq_false_of_isPlain hl tag, CommentLine.has_eq_false_of_isPlain hk tag]

theorem Block.splitAt?_append (tag : Tag) (xs ys : List CommentLine) :
    splitAt? tag (xs ++ ys) =
      match splitAt? tag xs with
      | some (before, l, after) => some (before, l, after ++ ys)
      | none => (splitAt? tag ys).map fun (before, l, after) => (xs ++ before, l, after) := by
  induction xs with
  | nil => simp [splitAt?]
  | cons x xs ih =>
      rw [List.cons_append, splitAt?, splitAt?, ih]
      cases x.has tag with
      | true => rfl
      | false => cases splitAt? tag xs <;> cases splitAt? tag ys <;> rfl

theorem Block.splitAt?_plain (hl : l.isPlain = true) (tag : Tag) :
    splitAt? tag (l :: below) =
      (splitAt? tag below).map fun (before, m, after) => (l :: before, m, after) := by
  simp [splitAt?, CommentLine.has_eq_false_of_isPlain hl tag]

theorem sampleOf?_replaced (hl : l.isPlain = true) (hk : k.isPlain = true) {tag : Tag}
    (h : ¬IsBelowMarker tag above) :
    Operation.sampleOf? tag (above ++ l :: below) =
      Operation.sampleOf? tag (above ++ k :: below) := by
  unfold Operation.sampleOf?
  rw [Block.splitAt?_append, Block.splitAt?_append, Block.splitAt?_plain hl,
    Block.splitAt?_plain hk]
  cases hsplit : Block.splitAt? tag above with
  | none => cases Block.splitAt? tag below <;> rfl
  | some parts =>
      obtain ⟨before, m, after⟩ := parts
      obtain ⟨habove, hm, hbefore⟩ := Block.splitAt?_eq_some hsplit
      cases after with
      | cons next after => rfl
      | nil =>
          -- The line stands below the tag, so that the tag has its text on its own line.
          have hrest : Text.trim m.rest ≠ [] := by
            intro hempty
            exact h ⟨before, m, habove, ⟨hm, hbefore⟩, Text.trim_eq_nil_iff.1 hempty⟩
          simp [hrest]

/-- What stands below a parameter line is a matter of its description only. -/
theorem Parameter.exists_read {rest : Text} {below : List CommentLine} {p : Parameter}
    (h : read rest below = .ok p) (below' : List CommentLine) :
    ∃ p', read rest below' = .ok p' ∧ p'.undescribed = p.undescribed ∧
      (below'.takeWhile (·.isPlain) = below.takeWhile (·.isPlain) → p' = p) := by
  unfold read at h ⊢
  dsimp only at h ⊢
  cases hlocation : readLocation (Text.trim (headline rest)) (Text.groups '(' ')' rest) with
  | error fault =>
      rw [hlocation] at h
      cases h
  | ok location =>
      rw [hlocation] at h
      cases h
      refine ⟨_, rfl, rfl, ?_⟩
      intro hplain
      rw [hplain]

theorem takeWhile_isPlain_append {m : CommentLine} (hm : m ∈ above) (hplain : m.isPlain = false)
    (more : List CommentLine) :
    (above ++ more).takeWhile (·.isPlain) = above.takeWhile (·.isPlain) := by
  induction above with
  | nil => cases hm
  | cons n above ih =>
      rw [List.cons_append, List.takeWhile_cons, List.takeWhile_cons]
      cases hn : n.isPlain with
      | false => rfl
      | true =>
          rcases List.mem_cons.1 hm with rfl | hm
          · rw [hplain] at hn
            cases hn
          · rw [ih hm]

theorem IsUsedFor.cons_parameter {i : Nat} (h : IsUsedFor above (.parameter i)) (m : CommentLine) :
    IsUsedFor (m :: above) (.parameter (if m.has .parameter then i + 1 else i)) := by
  cases h with
  | @parameter before between n habove hn hbetween =>
      have hcons : m :: above = (m :: before) ++ n :: between := by rw [habove, List.cons_append]
      have hused := IsUsedFor.parameter hcons hn hbetween
      rw [List.countP_cons] at hused
      split <;> simp_all

/-- A line of prose only matters to the parameter right above it. -/
theorem readItems_replaced (hl : l.isPlain = true) (hk : k.isPlain = true) {ps : List Parameter}
    {rs : List Response} (h : Operation.readItems (above ++ l :: below) = .ok (ps, rs)) :
    ∃ ps', Operation.readItems (above ++ k :: below) = .ok (ps', rs) ∧
      ps'.map Parameter.undescribed = ps.map Parameter.undescribed ∧
      ∀ i, ¬IsUsedFor above (.parameter i) → ps'[i]? = ps[i]? := by
  induction above generalizing ps rs with
  | nil =>
      have hplain {n : CommentLine} (hn : n.isPlain = true) :
          Operation.readItems (n :: below) = Operation.readItems below := by
        rw [CommentLine.isPlain, Option.isNone_iff_eq_none] at hn
        exact Operation.readItems_other (by simp [hn]) (by simp [hn])
      rw [List.nil_append, hplain hl] at h
      exact ⟨ps, by rw [List.nil_append, hplain hk, h], rfl, fun _ _ => rfl⟩
  | cons m above ih =>
      have hlift (hm : m.has .parameter = false) {i : Nat}
          (hi : ¬IsUsedFor (m :: above) (.parameter i)) : ¬IsUsedFor above (.parameter i) := by
        intro hused
        exact hi (by simpa [hm] using hused.cons_parameter m)
      rw [List.cons_append] at h ⊢
      rcases Operation.readItems_cons_cases m (above ++ l :: below) with
        ⟨problem, herror, -⟩ | ⟨-, hcases⟩
      · rw [herror] at h
        cases h
      rcases hcases with ⟨p, htag, hread, heq⟩ | ⟨r, htag, hread, heq⟩ | ⟨hno, hno', heq⟩
      · rw [heq] at h
        obtain ⟨⟨ps, rs⟩, hbelow, he⟩ := ok_of_map_ok h
        cases he
        have hm : m.has .parameter = true := CommentLine.has_iff.2 htag
        obtain ⟨ps', hbelow', hmap, hps⟩ := ih hbelow
        obtain ⟨p', hread', hp, hsame⟩ := Parameter.exists_read hread (above ++ k :: below)
        refine ⟨p' :: ps', ?_, by rw [List.map_cons, List.map_cons, hp, hmap], ?_⟩
        · rw [Operation.readItems_parameter htag hread', hbelow']
          rfl
        · intro i hi
          cases i with
          | zero =>
              -- Some line with a tag stands between the parameter and the line of prose.
              obtain ⟨n, hn, hplain⟩ : ∃ n ∈ above, n.isPlain = false := by
                by_contra hall
                exact hi (.parameter (List.nil_append _).symm hm (by simpa using hall))
              have htake := takeWhile_isPlain_append hn hplain
              simp [hsame (by rw [htake, htake])]
          | succ i =>
              refine hps i ?_
              intro hused
              exact hi (by simpa [hm] using hused.cons_parameter m)
      · rw [heq] at h
        obtain ⟨⟨ps, rs⟩, hbelow, he⟩ := ok_of_map_ok h
        cases he
        have hm : m.has .parameter = false := by simp [CommentLine.has, htag]
        obtain ⟨ps', hbelow', hmap, hps⟩ := ih hbelow
        refine ⟨ps', ?_, hmap, fun i hi => hps i (hlift hm hi)⟩
        rw [Operation.readItems_response htag hread, hbelow']
        rfl
      · rw [heq] at h
        obtain ⟨ps', hbelow', hmap, hps⟩ := ih h
        refine ⟨ps', ?_, hmap, fun i hi => hps i (hlift hno hi)⟩
        rw [Operation.readItems_other (by simpa [CommentLine.has] using hno)
          (by simpa [CommentLine.has] using hno'), hbelow']

end Replaced

namespace Endpoint

/-- The path line is the same, and so is what stands above it if the line of prose does not. -/
theorem splitAt?_path_replaced {l k m : CommentLine} {above below before after : List CommentLine}
    (hl : l.isPlain = true) (hk : k.isPlain = true)
    (h : Block.splitAt? .path (above ++ l :: below) = some (before, m, after)) :
    ∃ before' after', Block.splitAt? .path (above ++ k :: below) = some (before', m, after') ∧
      (¬IsUsedFor above .description → before' = before) := by
  rw [Block.splitAt?_append, Block.splitAt?_plain hl] at h
  rw [Block.splitAt?_append, Block.splitAt?_plain hk]
  cases hsplit : Block.splitAt? .path above with
  | some parts =>
      obtain ⟨first, n, rest⟩ := parts
      rw [hsplit] at h
      cases h
      exact ⟨_, _, rfl, fun _ => rfl⟩
  | none =>
      rw [hsplit] at h
      have hused : IsUsedFor above .description := .description (Block.splitAt?_eq_none_iff.1 hsplit)
      cases hbelow : Block.splitAt? .path below with
      | none => simp [hbelow] at h
      | some parts =>
          obtain ⟨first, n, rest⟩ := parts
          rw [hbelow] at h
          cases h
          exact ⟨_, _, rfl, fun hno => absurd hused hno⟩

theorem agreeBut_of_replaced (resource : Resource) {l k : CommentLine}
    {above below : List CommentLine} (hl : l.isPlain = true) (hk : k.isPlain = true) {e : Endpoint}
    (h : ofBlock resource ⟨above ++ l :: below⟩ = .ok e) :
    ∃ e', ofBlock resource ⟨above ++ k :: below⟩ = .ok e' ∧ e'.AgreeBut (IsUsedFor above) e := by
  obtain ⟨before, m, after, verb, path, ps, rs, hsplit, hread, hitems, rfl⟩ :=
    ofBlock_eq_ok_iff.1 h
  obtain ⟨before', after', hsplit', hbefore⟩ := splitAt?_path_replaced hl hk hsplit
  obtain ⟨ps', hitems', hmap, hps⟩ := readItems_replaced hl hk hitems
  refine ⟨_, ofBlock_eq_ok_iff.2 ⟨before', m, after', verb, path, ps', rs, hsplit', hread,
    hitems', rfl⟩, ?_⟩
  exact {
    resource := rfl
    path := rfl
    verb := rfl
    description := fun hno => congrArg CommentLine.prose (hbefore hno)
    summary := by simp only [assembled, Operation.textOf?, restOf?_replaced hl hk]
    operationId := by simp only [assembled, Operation.textOf?, restOf?_replaced hl hk]
    undescribed := hmap
    parameter := hps
    responses := rfl
    responseType := by simp only [assembled, Operation.typeOf?, restOf?_replaced hl hk]
    requestSample := fun hno => sampleOf?_replaced hk hl fun hyes => hno (.requestSample hyes)
    responseSample := fun hno => sampleOf?_replaced hk hl fun hyes => hno (.responseSample hyes) }

/-- Another line of prose in the place of one changes the description of the endpoint and one more
thing at most, and one thing at most where it stands below the path line, or has no use but to
describe the endpoint. -/
theorem ofBlock_replaced (resource : Resource) (above below : List CommentLine) {l k : CommentLine}
    (hl : l.isPlain = true) (hk : k.isPlain = true) {e : Endpoint}
    (h : ofBlock resource ⟨above ++ l :: below⟩ = .ok e) :
    ∃ e', ofBlock resource ⟨above ++ k :: below⟩ = .ok e' ∧
      (∃ use, (∀ u, IsUsedFor above u → u = .description ∨ u = use) ∧
        e'.AgreeBut (fun u => u = .description ∨ u = use) e) ∧
      ((∃ m ∈ above, m.has .path = true) ∨ (∀ u, IsUsedFor above u → u = .description) →
        ∃ use, e'.AgreeBut (· = use) e) := by
  obtain ⟨e', hok, hagree⟩ := agreeBut_of_replaced resource hl hk h
  obtain ⟨use, huse⟩ : ∃ use, ∀ u, IsUsedFor above u → u = .description ∨ u = use := by
    by_cases hother : ∃ use, IsUsedFor above use ∧ use ≠ .description
    · obtain ⟨use, hused, hne⟩ := hother
      refine ⟨use, ?_⟩
      intro u hu
      by_cases hdescription : u = .description
      · exact .inl hdescription
      · exact .inr (hu.unique hused hdescription hne)
    · refine ⟨.description, ?_⟩
      intro u hu
      by_contra hne
      exact hother ⟨u, hu, fun hu => hne (.inl hu)⟩
  refine ⟨e', hok, ⟨use, huse, hagree.mono huse⟩, ?_⟩
  rintro (⟨m, hm, hpath⟩ | honly)
  · -- Below the path line nothing describes the endpoint.
    refine ⟨use, hagree.mono ?_⟩
    intro u hu
    rcases huse u hu with rfl | hu'
    · cases hu with
      | description habove => simp [habove m hm] at hpath
    · exact hu'
  · exact ⟨.description, hagree.mono honly⟩

/-- The second of two lines of prose below a parameter, which stands below the path line. -/
theorem ofBlock_replaced_below_path :
    let path : CommentLine := ⟨1, some .path, [], "GET /pets/:id".toList⟩
    let parameter : CommentLine := ⟨2, some .parameter, [], "id (path) [integer]".toList⟩
    let first : CommentLine := ⟨3, none, "of the pet".toList, "of the pet".toList⟩
    let second : CommentLine := ⟨4, none, "as on its tag".toList, "as on its tag".toList⟩
    let other : CommentLine := ⟨4, none, "@ (header) [x]".toList, "@ (header) [x]".toList⟩
    ∃ e, ofBlock ⟨[], []⟩ ⟨[path, parameter, first] ++ second :: []⟩ = .ok e ∧
      ∃ e', ofBlock ⟨[], []⟩ ⟨[path, parameter, first] ++ other :: []⟩ = .ok e' ∧
        ∃ use, e'.AgreeBut (· = use) e := by
  intro path parameter first second other
  have hok : ofBlock ⟨[], []⟩ ⟨[path, parameter, first] ++ second :: []⟩ =
      .ok ⟨⟨[], []⟩, "/pets/:id".toList,
        { verb := .get, description := [], summary := none, operationId := none
          parameters := [⟨"id".toList, .path, "integer".toList,
            "of the pet\nas on its tag".toList, true⟩]
          responses := [], responseType := none, requestSample := none
          responseSample := none }⟩ := by decide
  obtain ⟨e', hok', -, honce⟩ := ofBlock_replaced ⟨[], []⟩ _ _ rfl (k := other) rfl hok
  exact ⟨_, hok, e', hok', honce (.inl ⟨path, by decide, by decide⟩)⟩

/-- Between a parameter and the path line a line of prose describes both the parameter and the
endpoint. -/
theorem prose_used_twice :
    ¬∀ (source : Text) (resource : Resource) (above below : List CommentLine) (l : CommentLine)
      (e : Endpoint), ⟨above ++ l :: below⟩ ∈ Block.ofSource .standard source →
        l.isPlain = true → ofBlock resource ⟨above ++ l :: below⟩ = .ok e →
          ∀ s, ∃ e', ofBlock resource ⟨above ++ { l with text := s, rest := s } :: below⟩ = .ok e' ∧
            ∃ use, e'.AgreeBut (· = use) e := by
  intro honce
  let above : List CommentLine := [⟨1, some .blockStart, [], []⟩,
    ⟨2, some .parameter, "@parameter id (path) [integer] widget id".toList,
      "id (path) [integer] widget id".toList⟩]
  let l : CommentLine := ⟨3, none, "shown in the address".toList, "shown in the address".toList⟩
  let below : List CommentLine := [⟨4, some .path, "@path [GET] /widgets/{id}".toList,
    "[GET] /widgets/{id}".toList⟩]
  let endpoint (description parameter : Text) : Endpoint := ⟨⟨[], []⟩, "/widgets/{id}".toList,
    { verb := .get, description, summary := none, operationId := none
      parameters := [⟨"id".toList, .path, "integer".toList, parameter, true⟩]
      responses := [], responseType := none, requestSample := none, responseSample := none }⟩
  have hsource : ⟨above ++ l :: below⟩ ∈ Block.ofSource .standard
      ("##\n# @parameter id (path) [integer] widget id\n".toList ++
        "# shown in the address\n# @path [GET] /widgets/{id}\n".toList) := by decide
  have hok : ofBlock ⟨[], []⟩ ⟨above ++ l :: below⟩ =
      .ok (endpoint "shown in the address".toList "widget id\nshown in the address".toList) := by
    decide
  have hok' : ofBlock ⟨[], []⟩ ⟨above ++ { l with text := [], rest := [] } :: below⟩ =
      .ok (endpoint [] "widget id".toList) := by decide
  obtain ⟨e', he', use, hagree⟩ := honce _ _ above below l _ hsource rfl hok []
  obtain rfl := Except.ok.inj (hok'.symm.trans he')
  by_cases huse : use = .description
  · have hparameter := hagree.parameter 0 (by simp [huse])
    revert hparameter
    decide
  · have hdescription := hagree.description (Ne.symm huse)
    revert hdescription
    decide

end Endpoint
end DocTags
