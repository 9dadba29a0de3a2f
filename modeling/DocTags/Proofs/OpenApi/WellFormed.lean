import DocTags.Proofs.Block.Lines
import DocTags.Proofs.Docs.Blockwise
import DocTags.Proofs.Endpoint.Validity
import DocTags.Proofs.OpenApi.OperationIds
import DocTags.Proofs.OpenApi.Paths

/-!
Well-formed documents. Whatever the sources hold and by whatever grammar they are read, the document
built from them keeps the rules below. Most of them come from what reading guarantees about each
endpoint; they survive because grouping and building only choose between endpoints.
-/

namespace DocTags.OpenApi

mutual

/-- A schema and the schemas of its properties, at any depth. -/
def Schema.parts : Schema → List Schema
  | ⟨reference, type, description, nullable, properties, required, sample⟩ =>
    ⟨reference, type, description, nullable, properties, required, sample⟩ ::
      Schema.partsOfProperties properties

def Schema.partsOfProperties : Option (List (Text × Schema)) → List Schema
  | none => []
  | some properties => Schema.partsOfEntries properties

def Schema.partsOfEntries : List (Text × Schema) → List Schema
  | [] => []
  | (_, schema) :: rest => schema.parts ++ Schema.partsOfEntries rest

end

/-- The schemas of the parameters and bodies of an operation. -/
def Operation.schemas (o : Operation) : List Schema :=
  let contents := o.requestBody.toList.map (·.content) ++ o.responses.values.filterMap (·.content)
  o.parameters.map (·.schema) ++ contents.flatMap fun content => content.values.map (·.schema)

def Document.allSchemas (d : Document) : List Schema :=
  let operations := d.paths.values.flatMap fun item => item.values
  (operations.flatMap Operation.schemas ++ d.schemas.values).flatMap Schema.parts

structure Operation.WellFormed (tags : List ApiTag) (o : Operation) : Prop where
  operationId : o.operationId ≠ []
  parameters : ∀ p ∈ o.parameters, p.location ∈ Location.all.map Location.name ∧
    (p.location = Location.path.name → p.required = true)
  responses : ∀ r ∈ o.responses, r.1 ≠ [] ∧ (∀ c ∈ r.1, isBlank c = false) ∧
    (r.2.content = none ↔ r.1 = "204".toList)
  tags : ∀ t ∈ o.tags, t ≠ [] ∧ t ∈ tags.map (·.name)

/-- A path key is a trimmed text on one line, all parameters of which are in braces. -/
structure IsPathKey (p : Text) : Prop where
  ne_nil : p ≠ []
  isTrimmed : p.IsTrimmed
  line : '\n' ∉ p
  segments : ∀ segment ∈ Text.pieces '/' p, segment.head? ≠ some ':'

structure Document.WellFormed (d : Document) : Prop where
  paths : ∀ p ∈ d.paths.keys, IsPathKey p
  verbs : ∀ item ∈ d.paths.values, ∀ k ∈ item.keys, k ∈ Verb.all.map Verb.key
  operations : ∀ item ∈ d.paths.values, ∀ o ∈ item.values, o.WellFormed d.tags
  tags : (d.tags.map (·.name)).Nodup
  required : ∀ s ∈ d.schemas.values, ∀ names ∈ s.required, ∀ name ∈ names,
    ∃ properties ∈ s.properties, name ∈ OrderedMap.keys properties
  schemas : ∀ s ∈ d.allSchemas, ¬(s.reference.isSome ∧ s.type.isSome)

/-! ### Paths -/

theorem isPathKey_normalizePath {path : Text} (hne : path ≠ []) (htrim : path.IsTrimmed)
    (hline : '\n' ∉ path) : IsPathKey (normalizePath path) where
  ne_nil := fun h => hne (normalizePath_eq_nil_iff.1 h)
  isTrimmed := isTrimmed_normalizePath htrim
  line := by
    intro h
    rcases mem_normalizePath h with h | h | h | h
    · exact hline h
    all_goals exact absurd h (by decide)
  segments := by
    intro segment hs hcolon
    rw [pieces_normalizePath] at hs
    obtain ⟨p, -, rfl⟩ := List.mem_map.1 hs
    exact (head?_normalizeSegment hcolon).1 rfl

/-! ### Operations -/

theorem key_ne_nil (v : Verb) : v.key ≠ [] := by
  cases v <;> decide

theorem defaultOperationId_ne_nil (v : Verb) (path : Text) : defaultOperationId v path ≠ [] := by
  rw [defaultOperationId_eq]
  exact List.append_ne_nil_of_left_ne_nil (key_ne_nil v) _

theorem location_name_injective : Location.name.Injective := by
  intro l m h
  cases l <;> cases m <;> first | rfl | exact absurd h (by decide)

theorem Response.content_ofResponse_eq_none_iff (op : DocTags.Operation) (r : DocTags.Response) :
    (Response.ofResponse op r).content = none ↔ r.code = "204".toList := by
  simp [Response.ofResponse, DocTags.Response.hasNoContent]

theorem Operation.wellFormed_ofEndpoint {path : Text} {e : Endpoint} (h : e.Valid)
    {tags : List ApiTag} (htag : e.resource.name ≠ [] → e.resource.name ∈ tags.map (·.name)) :
    (Operation.ofEndpoint path e).WellFormed tags where
  operationId := by
    cases hid : e.operation.operationId with
    | none => simp [Operation.ofEndpoint, hid, defaultOperationId_ne_nil]
    | some id => simpa [Operation.ofEndpoint, hid] using h.operationId id hid
  parameters := by
    intro p hp
    obtain ⟨q, hq, rfl⟩ := List.mem_map.1 hp
    refine ⟨List.mem_map_of_mem ?_, fun hpath => ?_⟩
    · cases q.location <;> decide
    · exact h.parameters q hq (location_name_injective hpath)
  responses := by
    intro r hr
    obtain ⟨s, hs, rfl⟩ := List.mem_map.1 (OrderedMap.mem_of_mem_ofEntries hr)
    have hvalid := h.responses s hs
    exact ⟨hvalid.code_ne_nil, hvalid.code_word, Response.content_ofResponse_eq_none_iff _ s⟩
  tags := by
    intro t ht
    cases hname : e.resource.name.isEmpty with
    | true => simp [Operation.ofEndpoint, hname] at ht
    | false =>
        obtain rfl : t = e.resource.name := by simpa [Operation.ofEndpoint, hname] using ht
        have hne : e.resource.name ≠ [] := by simpa using hname
        exact ⟨hne, htag hne⟩

/-! ### Tags -/

namespace Document

/-- The tags of grouped operations with the descriptions of their resources, as they come. -/
def tagEntries (groups : List PathGroup) : List (Text × Text) :=
  (groups.flatMap (·.operations)).flatMap fun t =>
    t.tags.map fun name => (name, t.resourceDescription)

theorem tagTable_eq_alterEach (groups : List PathGroup) :
    tagTable groups =
      (OrderedMap.alterEach Prod.fst
        (fun tag old => PathGroup.firstNonempty (old.getD []) tag.2) []
        (tagEntries groups)).map fun (name, description) => ⟨name, description⟩ := by
  simp only [tagTable, OrderedMap.alterEach, tagEntries, List.foldl_flatMap, List.foldl_map]
  rfl

theorem names_tagTable (groups : List PathGroup) :
    (tagTable groups).map (·.name) = ((tagEntries groups).map Prod.fst).eraseDups := by
  rw [tagTable_eq_alterEach, ← OrderedMap.keys_alterEach, OrderedMap.keys, List.map_map]
  rfl

/-- The resource of every endpoint is listed, if it has a name. -/
theorem mem_names_tagTable {es : List Endpoint} {e : Endpoint} (he : e ∈ es)
    (hne : e.resource.name ≠ []) :
    e.resource.name ∈ (tagTable (PathGroup.ofEndpoints es)).map (·.name) := by
  have hgroup : PathGroup.ofMembers e.documentPath
      (es.filter fun f => f.documentPath = e.documentPath) ∈ PathGroup.ofEndpoints es := by
    rw [PathGroup.ofEndpoints_eq_map]
    exact List.mem_map.2 ⟨e.documentPath, by simpa using ⟨e, he, rfl⟩, rfl⟩
  have hop : TaggedOperation.ofEndpoint e ∈
      (PathGroup.ofEndpoints es).flatMap (·.operations) := by
    refine List.mem_flatMap.2 ⟨_, hgroup, ?_⟩
    rw [PathGroup.operations_ofMembers]
    exact List.mem_map_of_mem (by simpa using he)
  have hname : e.resource.name ∈ (TaggedOperation.ofEndpoint e).tags := by
    simp [TaggedOperation.ofEndpoint, Text.nonempty?, hne]
  rw [names_tagTable, List.mem_eraseDups]
  refine List.mem_map.2 ⟨(e.resource.name, e.resource.description), ?_, rfl⟩
  exact List.mem_flatMap.2 ⟨_, hop, List.mem_map.2 ⟨_, hname, rfl⟩⟩

/-- Every path of a document is that of an endpoint. -/
theorem exists_endpoint_of_mem_paths {info : Info} {servers : List Text} {es : List Endpoint}
    {ms : List Model} {p : Text}
    (h : p ∈ (build info servers (PathGroup.ofEndpoints es) ms).paths.keys) :
    ∃ e ∈ es, p = e.documentPath := by
  have hkeys : (build info servers (PathGroup.ofEndpoints es) ms).paths.keys =
      (es.map (·.documentPath)).eraseDups := by
    change OrderedMap.keys ((PathGroup.ofEndpoints es).foldl addGroup []) = _
    rw [foldl_addGroup_eq_map, OrderedMap.keys, List.map_map]
    exact List.map_id _
  rw [hkeys, List.mem_eraseDups] at h
  obtain ⟨e, he, rfl⟩ := List.mem_map.1 h
  exact ⟨e, he, rfl⟩

/-- Every operation of a document is that of an endpoint, under the key of its verb. -/
theorem exists_endpoint_of_mem_item {info : Info} {servers : List Text} {es : List Endpoint}
    {ms : List Model} {item : PathItem}
    (hitem : item ∈ (build info servers (PathGroup.ofEndpoints es) ms).paths.values)
    {entry : Text × Operation} (hentry : entry ∈ item) :
    ∃ p, ∃ e ∈ es, entry = (e.operation.verb.key, Operation.ofEndpoint p e) := by
  obtain ⟨⟨p, item⟩, hmem, rfl⟩ := List.mem_map.1 hitem
  change (p, item) ∈ (PathGroup.ofEndpoints es).foldl addGroup [] at hmem
  rw [foldl_addGroup_eq_map] at hmem
  obtain ⟨q, -, hq⟩ := List.mem_map.1 hmem
  cases hq
  obtain ⟨e, he, rfl⟩ := OrderedMap.exists_of_mem_alterEach hentry
  exact ⟨p, e, (List.mem_filter.1 he).1, rfl⟩

theorem exists_model_of_mem_schemas {info : Info} {servers : List Text} {groups : List PathGroup}
    {ms : List Model} {s : Schema} (h : s ∈ (build info servers groups ms).schemas.values) :
    ∃ m ∈ ms, s = Schema.ofModelRecord m := by
  obtain ⟨entry, hentry, rfl⟩ := List.mem_map.1 h
  obtain ⟨m, hm, rfl⟩ := List.mem_map.1 (OrderedMap.mem_of_mem_ofEntries hentry)
  exact ⟨m, hm, rfl⟩

end Document

/-! ### Schemas -/

namespace Schema

/-- No part of a schema both refers to another schema and has a type of its own. -/
def Sound (s : Schema) : Prop :=
  ∀ t ∈ s.parts, ¬(t.reference.isSome ∧ t.type.isSome)

theorem sound_of_flat {s : Schema} (hflat : s.properties = none)
    (h : s.reference = none ∨ s.type = none) : s.Sound := by
  obtain ⟨reference, type, description, nullable, properties, required, sample⟩ := s
  obtain rfl : properties = none := hflat
  intro t ht
  rcases List.mem_singleton.1 ht with rfl
  rcases h with h | h <;> simp_all

theorem sound_ofDatatype (datatype : Text) : (ofDatatype datatype).Sound := by
  unfold ofDatatype
  dsimp only
  split
  · exact sound_of_flat rfl (.inl rfl)
  · split
    · exact sound_of_flat rfl (.inl rfl)
    · exact sound_of_flat rfl (.inr rfl)

theorem sound_requestSchema (parameters : List DocTags.Parameter) :
    (requestSchema parameters).Sound := by
  unfold requestSchema
  split
  · exact sound_ofDatatype _
  · exact sound_of_flat rfl (.inl rfl)

theorem mem_partsOfEntries {t : Schema} {entries : List (Text × Schema)}
    (h : t ∈ partsOfEntries entries) : ∃ e ∈ entries, t ∈ e.2.parts := by
  induction entries with
  | nil => cases h
  | cons e entries ih =>
      rw [partsOfEntries] at h
      rcases List.mem_append.1 h with h | h
      · exact ⟨e, by simp, h⟩
      · obtain ⟨d, hd, ht⟩ := ih h
        exact ⟨d, by simp [hd], ht⟩

theorem sound_ofModelRecord (m : Model) : (ofModelRecord m).Sound := by
  intro t ht
  rcases List.mem_cons.1 ht with rfl | ht
  · simp
  · obtain ⟨e, he, ht⟩ := mem_partsOfEntries ht
    obtain ⟨p, -, rfl⟩ := List.mem_map.1 (OrderedMap.mem_of_mem_ofEntries he)
    exact sound_of_flat (s := ofProperty p) rfl (.inl rfl) t ht

theorem mem_properties_of_mem_required (m : Model) :
    ∀ names ∈ (ofModelRecord m).required, ∀ name ∈ names,
      ∃ properties ∈ (ofModelRecord m).properties, name ∈ OrderedMap.keys properties := by
  intro names hnames name hname
  refine ⟨_, rfl, ?_⟩
  unfold ofModelRecord at hnames
  dsimp only at hnames
  split at hnames
  · cases hnames
  · cases hnames
    obtain ⟨p, hp, rfl⟩ := List.mem_map.1 hname
    rw [OrderedMap.keys_ofEntries, List.mem_eraseDups, List.map_map]
    exact List.mem_map_of_mem (List.mem_filter.1 hp).1

end Schema

theorem Operation.sound_schemas (path : Text) (e : Endpoint) :
    ∀ s ∈ (Operation.ofEndpoint path e).schemas, s.Sound := by
  intro s hs
  rcases List.mem_append.1 hs with hs | hs
  · obtain ⟨p, hp, rfl⟩ := List.mem_map.1 hs
    obtain ⟨q, -, rfl⟩ := List.mem_map.1 hp
    exact Schema.sound_of_flat rfl (.inl rfl)
  · obtain ⟨content, hcontent, hs⟩ := List.mem_flatMap.1 hs
    rcases List.mem_append.1 hcontent with hcontent | hcontent
    · obtain ⟨body, hbody, rfl⟩ := List.mem_map.1 hcontent
      obtain ⟨raw, -, rfl⟩ := Option.map_eq_some_iff.1 (Option.mem_toList.1 hbody)
      obtain rfl := List.mem_singleton.1 hs
      exact Schema.sound_requestSchema _
    · obtain ⟨response, hresponse, hcontent⟩ := List.mem_filterMap.1 hcontent
      obtain ⟨entry, hentry, rfl⟩ := List.mem_map.1 hresponse
      obtain ⟨r, -, rfl⟩ := List.mem_map.1 (OrderedMap.mem_of_mem_ofEntries hentry)
      unfold Response.ofResponse at hcontent
      dsimp only at hcontent
      split at hcontent
      · cases hcontent
      · cases hcontent
        obtain rfl := List.mem_singleton.1 hs
        exact Schema.sound_ofDatatype _

namespace Document

theorem wellFormed_build_of_valid (info : Info) (servers : List Text) {es : List Endpoint}
    (ms : List Model) (h : ∀ e ∈ es, e.Valid) :
    (build info servers (PathGroup.ofEndpoints es) ms).WellFormed where
  paths := by
    intro p hp
    obtain ⟨e, he, rfl⟩ := exists_endpoint_of_mem_paths hp
    have hvalid := h e he
    exact isPathKey_normalizePath hvalid.path_ne_nil hvalid.path_isTrimmed hvalid.path_line
  verbs := by
    intro item hitem k hk
    obtain ⟨entry, hentry, rfl⟩ := List.mem_map.1 hk
    obtain ⟨p, e, -, rfl⟩ := exists_endpoint_of_mem_item hitem hentry
    refine List.mem_map_of_mem ?_
    cases e.operation.verb <;> decide
  operations := by
    intro item hitem o ho
    obtain ⟨entry, hentry, rfl⟩ := List.mem_map.1 ho
    obtain ⟨p, e, he, rfl⟩ := exists_endpoint_of_mem_item hitem hentry
    exact Operation.wellFormed_ofEndpoint (h e he) (mem_names_tagTable he)
  tags := by
    change ((tagTable (PathGroup.ofEndpoints es)).map (·.name)).Nodup
    rw [names_tagTable]
    exact nodup_eraseDups _
  required := by
    intro s hs
    obtain ⟨m, -, rfl⟩ := exists_model_of_mem_schemas hs
    exact Schema.mem_properties_of_mem_required m
  schemas := by
    intro t ht
    obtain ⟨s, hs, ht⟩ := List.mem_flatMap.1 ht
    rcases List.mem_append.1 hs with hs | hs
    · obtain ⟨o, ho, hs⟩ := List.mem_flatMap.1 hs
      obtain ⟨item, hitem, ho⟩ := List.mem_flatMap.1 ho
      obtain ⟨entry, hentry, rfl⟩ := List.mem_map.1 ho
      obtain ⟨p, e, -, rfl⟩ := exists_endpoint_of_mem_item hitem hentry
      exact Operation.sound_schemas p e s hs t ht
    · obtain ⟨m, -, rfl⟩ := exists_model_of_mem_schemas hs
      exact Schema.sound_ofModelRecord m t ht

end Document
end OpenApi

/-! ### Sources -/

namespace Docs

theorem valid_of_mem_endpoints {g : Grammar} {file source : Text} {e : Endpoint}
    (h : e ∈ (ofSource g file source).endpoints) : e.Valid := by
  rw [ofSource_eq_blockwise] at h
  obtain ⟨result, hresult, hok⟩ := List.mem_filterMap.1 h
  obtain ⟨⟨above, b⟩, hplace, hread⟩ := List.mem_filterMap.1 hresult
  have hb : b ∈ Block.ofSource g source := by
    rw [← Reading.map_snd_placed [] (Block.ofSource g source)]
    exact List.mem_map_of_mem hplace
  obtain ⟨r, hr⟩ := Reading.ofBlock_of_result? hread
  cases result with
  | error p => cases hok
  | ok e' =>
      cases hok
      exact Endpoint.valid_of_ofBlock (fun l hl => Block.not_mem_rest_of_mem hb hl) hr

theorem mem_endpoints_concat {ds : List Docs} {e : Endpoint} (h : e ∈ (concat ds).endpoints) :
    ∃ d ∈ ds, e ∈ d.endpoints := by
  induction ds with
  | nil => cases h
  | cons d ds ih =>
      rcases List.mem_append.1 h with h | h
      · exact ⟨d, List.mem_cons_self, h⟩
      · obtain ⟨c, hc, he⟩ := ih h
        exact ⟨c, List.mem_cons_of_mem d hc, he⟩

end Docs

/-- The document of any list of sources is well formed. -/
theorem OpenApi.Document.wellFormed_build_sources (g : Grammar) (info : Info)
    (servers : List Text) (sources : List (Text × Text)) :
    let docs := Docs.concat (sources.map fun (file, source) => Docs.ofSource g file source)
    (build info servers (PathGroup.ofEndpoints docs.endpoints) docs.models).WellFormed := by
  intro docs
  refine wellFormed_build_of_valid info servers docs.models fun e he => ?_
  obtain ⟨d, hd, he⟩ := Docs.mem_endpoints_concat he
  obtain ⟨source, -, rfl⟩ := List.mem_map.1 hd
  exact Docs.valid_of_mem_endpoints he

end DocTags
