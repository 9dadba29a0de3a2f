import DocTags.Proofs.OpenApi.Records
import DocTags.Run

/-!
Documents come back from their JSON text. A sample that is null is the one thing that is lost,
since an optional field that is null counts as absent.
-/

namespace DocTags.OpenApi

open Json (Tree Value)

/-! ### Samples that are null -/

/-- A sample as it is read: none if it is null. -/
def readableSample : Option Value → Option Value
  | some .null => none
  | sample => sample

mutual

def Schema.withoutNullSamples : Schema → Schema
  | ⟨reference, type, description, nullable, properties, required, sample⟩ =>
    ⟨reference, type, description, nullable, Schema.propertiesWithoutNullSamples properties,
      required, readableSample sample⟩

def Schema.propertiesWithoutNullSamples :
    Option (List (Text × Schema)) → Option (List (Text × Schema))
  | none => none
  | some properties => some (Schema.entriesWithoutNullSamples properties)

def Schema.entriesWithoutNullSamples : List (Text × Schema) → List (Text × Schema)
  | [] => []
  | (name, schema) :: rest =>
    (name, schema.withoutNullSamples) :: Schema.entriesWithoutNullSamples rest

end

theorem Schema.entriesWithoutNullSamples_eq_map (entries : List (Text × Schema)) :
    entriesWithoutNullSamples entries = entries.map fun e => (e.1, e.2.withoutNullSamples) := by
  induction entries with
  | nil => rfl
  | cons e entries ih => rw [entriesWithoutNullSamples, ih, List.map_cons]

def MediaType.withoutNullSamples (m : MediaType) : MediaType :=
  ⟨m.schema.withoutNullSamples, readableSample m.sample⟩

/-- Content by its media types. -/
abbrev Content := OrderedMap MediaType

def Content.withoutNullSamples (c : Content) : Content :=
  c.map fun e => (e.1, e.2.withoutNullSamples)

def Parameter.withoutNullSamples (p : Parameter) : Parameter :=
  { p with schema := p.schema.withoutNullSamples }

def RequestBody.withoutNullSamples (b : RequestBody) : RequestBody :=
  ⟨Content.withoutNullSamples b.content⟩

def Response.withoutNullSamples (r : Response) : Response :=
  { r with content := r.content.map Content.withoutNullSamples }

def Operation.withoutNullSamples (o : Operation) : Operation :=
  { o with
    parameters := o.parameters.map Parameter.withoutNullSamples
    requestBody := o.requestBody.map RequestBody.withoutNullSamples
    responses := o.responses.map fun e => (e.1, e.2.withoutNullSamples) }

def PathItem.withoutNullSamples (item : PathItem) : PathItem :=
  item.map fun e => (e.1, e.2.withoutNullSamples)

/-- The document without the samples of media types and schemas that are null. -/
def Document.withoutNullSamples (d : Document) : Document :=
  { d with
    paths := d.paths.map fun e => (e.1, PathItem.withoutNullSamples e.2)
    schemas := d.schemas.map fun e => (e.1, e.2.withoutNullSamples) }

/-! ### Fields -/

@[simp] theorem required?_some {α : Type} (read : Tree → Option α) (t : Tree) :
    required? read (some t) = read t := rfl

@[simp] theorem text?_tree (s : Text) : text? (Value.string s).tree = some s := rfl

@[simp] theorem bool?_tree (b : Bool) : bool? (Value.bool b).tree = some b := rfl

theorem optional?_some {α : Type} (read : Tree → Option α) {t : Tree} (ht : t ≠ .null) :
    optional? read (some t) = (read t).map some := by
  cases t <;> first | rfl | exact absurd rfl ht

/-- An optional field comes back if it is never null. -/
theorem optional?_map {α β : Type} {read : Tree → Option β} {encode : α → Value} {g : α → β}
    {field : Option α} (hnull : ∀ a, (encode a).tree ≠ .null)
    (h : ∀ a ∈ field, read (encode a).tree = some (g a)) :
    optional? read (field.map (Value.tree ∘ encode)) = some (field.map g) := by
  cases field with
  | none => rfl
  | some a => rw [Option.map_some, Function.comp, optional?_some read (hnull a), h a rfl]; rfl

@[simp] theorem optional?_text (field : Option Text) :
    optional? text? (field.map (Value.tree ∘ Value.string)) = some field := by
  rw [optional?_map (g := id) (by simp [Value.tree]) fun _ _ => rfl, Option.map_id, id]

@[simp] theorem optional?_bool (field : Option Bool) :
    optional? bool? (field.map (Value.tree ∘ Value.bool)) = some field := by
  rw [optional?_map (g := id) (by simp [Value.tree]) fun _ _ => rfl, Option.map_id, id]

theorem texts?_texts {depth : Nat} {xs : List Text} (h : (texts xs).Fits depth) :
    texts? depth (texts xs).tree = some xs :=
  list?_arrayOf_self h fun _ _ _ _ _ => rfl

theorem optional?_value {depth : Nat} {sample : Option Value}
    (h : ∀ v ∈ sample, v.Fits depth) :
    optional? (value? depth) (sample.map Value.tree) = some (readableSample sample) := by
  cases sample with
  | none => rfl
  | some v =>
      by_cases hv : v = .null
      · subst v
        rfl
      · have htree : v.tree ≠ .null := by
          cases v <;> simp_all [Value.tree]
        have hread : value? depth v.tree = some v := (h v rfl).ofTree?_tree
        have hreadable : readableSample (some v) = some v := by
          cases v <;> first | rfl | exact absurd rfl hv
        rw [Option.map_some, optional?_some _ htree, hread, hreadable, Option.map_some]

/-! ### Records -/

def Info.fields (i : Info) : List (String × Option Value) :=
  [("title", some (.string i.title)), ("description", i.description.map .string),
    ("version", some (.string i.version))]

theorem Info.encode_eq_slots (i : Info) : i.encode = .object (slots i.fields) := by
  simp [encode, slots, fields, member, optional]

theorem Info.read?_encode {i : Info} {depth : Nat} (h : i.encode.Fits depth) :
    Info.read? depth i.encode.tree = some i := by
  rw [encode_eq_slots] at h ⊢
  refine record?_slots h rfl (by decide) ?_
  intro d _
  simp [fields]

def Schema.fields (s : Schema) : List (String × Option Value) :=
  [("$ref", s.reference.map .string), ("type", s.type.map .string),
    ("description", s.description.map .string), ("nullable", s.nullable.map .bool),
    ("properties", s.properties.map (objectOf encode)), ("required", s.required.map texts),
    ("example", s.sample)]

theorem Schema.encodeEntries_eq_map (entries : List (Text × Schema)) :
    encodeEntries entries = entries.map fun e => (e.1, e.2.encode) := by
  induction entries with
  | nil => rfl
  | cons e entries ih => rw [encodeEntries, ih, List.map_cons]

theorem Schema.encodeProperties_eq_optional (properties : Option (List (Text × Schema))) :
    encodeProperties properties =
      optional "properties" (properties.map (objectOf Schema.encode)) := by
  cases properties with
  | none => rfl
  | some properties =>
      rw [encodeProperties, encodeEntries_eq_map]
      rfl

theorem Schema.encode_eq_slots (s : Schema) : s.encode = .object (slots s.fields) := by
  obtain ⟨reference, type, description, nullable, properties, required, sample⟩ := s
  simp [encode, slots, fields, encodeProperties_eq_optional]

theorem Schema.readProperties?_eq_map? (depth : Nat) :
    Schema.readProperties? depth = map? Schema.read? depth := by
  funext t
  cases depth <;> cases t <;> simp [readProperties?, map?]

theorem Schema.propertiesWithoutNullSamples_eq_map (properties : Option (OrderedMap Schema)) :
    propertiesWithoutNullSamples properties =
      properties.map (List.map fun e => (e.1, e.2.withoutNullSamples)) := by
  cases properties with
  | none => rfl
  | some properties =>
      rw [propertiesWithoutNullSamples, entriesWithoutNullSamples_eq_map, Option.map_some]

theorem Schema.read?_encode {s : Schema} {depth : Nat} (h : s.encode.Fits depth) :
    Schema.read? depth s.encode.tree = some s.withoutNullSamples := by
  -- The schemas of properties stand two levels deeper than the schema itself.
  induction depth using Nat.strong_induction_on generalizing s with
  | _ depth ih =>
      rw [encode_eq_slots] at h ⊢
      obtain ⟨d, rfl, hd⟩ := fits_of_fits_slots h
      have hproperties : optional? (readProperties? d)
          (s.properties.map (Value.tree ∘ objectOf encode)) =
            some (propertiesWithoutNullSamples s.properties) := by
        rw [propertiesWithoutNullSamples_eq_map, readProperties?_eq_map?]
        refine optional?_map (by simp [objectOf, Value.tree]) fun ps hps => ?_
        have hps : (objectOf encode ps).Fits d :=
          hd ("properties", s.properties.map _) (by simp [fields]) _ (Option.mem_map_of_mem _ hps)
        exact map?_objectOf hps fun _ _ n hn hfits => ih n (by omega) hfits
      have hrequired : optional? (texts? d) (s.required.map (Value.tree ∘ texts)) =
          some s.required := by
        rw [optional?_map (g := id) (by simp [texts, arrayOf, Value.tree]), Option.map_id, id]
        intro xs hxs
        exact texts?_texts
          (hd ("required", s.required.map _) (by simp [fields]) _ (Option.mem_map_of_mem _ hxs))
      have hsample : ∀ v ∈ s.sample, v.Fits d := hd ("example", s.sample) (by simp [fields])
      have hfields : Fields.ofTree? schemaFields (Value.object (slots s.fields)).tree =
          some (s.fields.map fun f => f.2.map Value.tree) :=
        Fields.ofTree?_slots (by simp [fields])
      rw [read?, hfields]
      obtain ⟨reference, type, description, nullable, properties, required, sample⟩ := s
      simp [fields, hproperties, hrequired, optional?_value hsample, withoutNullSamples]

def MediaType.fields (m : MediaType) : List (String × Option Value) :=
  [("schema", some m.schema.encode), ("example", m.sample)]

theorem MediaType.encode_eq_slots (m : MediaType) : m.encode = .object (slots m.fields) := by
  simp [encode, slots, fields, member, optional]

theorem MediaType.read?_encode {m : MediaType} {depth : Nat} (h : m.encode.Fits depth) :
    MediaType.read? depth m.encode.tree = some m.withoutNullSamples := by
  rw [encode_eq_slots] at h ⊢
  refine record?_slots h rfl (by decide) ?_
  intro d hd
  have hschema : m.schema.encode.Fits d := hd ("schema", some _) (by simp [fields]) _ rfl
  have hsample : ∀ v ∈ m.sample, v.Fits d := hd ("example", m.sample) (by simp [fields])
  simp [fields, Schema.read?_encode hschema, optional?_value hsample, withoutNullSamples]

theorem Content.read?_encode {c : Content} {depth : Nat}
    (h : (objectOf MediaType.encode c).Fits depth) :
    map? MediaType.read? depth (objectOf MediaType.encode c).tree =
      some (withoutNullSamples c) :=
  map?_objectOf h fun _ _ _ _ => MediaType.read?_encode

def Parameter.fields (p : Parameter) : List (String × Option Value) :=
  [("name", some (.string p.name)), ("description", some (.string p.description)),
    ("required", some (.bool p.required)), ("in", some (.string p.location)),
    ("schema", some p.schema.encode)]

theorem Parameter.encode_eq_slots (p : Parameter) : p.encode = .object (slots p.fields) := rfl

theorem Parameter.read?_encode {p : Parameter} {depth : Nat} (h : p.encode.Fits depth) :
    Parameter.read? depth p.encode.tree = some p.withoutNullSamples := by
  rw [encode_eq_slots] at h ⊢
  refine record?_slots h rfl (by decide) ?_
  intro d hd
  have hschema : p.schema.encode.Fits d := hd ("schema", some _) (by simp [fields]) _ rfl
  simp [fields, Schema.read?_encode hschema, withoutNullSamples]

def RequestBody.fields (b : RequestBody) : List (String × Option Value) :=
  [("content", some (objectOf MediaType.encode b.content))]

theorem RequestBody.encode_eq_slots (b : RequestBody) : b.encode = .object (slots b.fields) := rfl

theorem RequestBody.read?_encode {b : RequestBody} {depth : Nat} (h : b.encode.Fits depth) :
    RequestBody.read? depth b.encode.tree = some b.withoutNullSamples := by
  rw [encode_eq_slots] at h ⊢
  refine record?_slots h rfl (by decide) ?_
  intro d hd
  have hcontent : (objectOf MediaType.encode b.content).Fits d :=
    hd ("content", some _) (by simp [fields]) _ rfl
  simp [fields, Content.read?_encode hcontent, withoutNullSamples]

def Response.fields (r : Response) : List (String × Option Value) :=
  [("description", some (.string r.description)),
    ("content", r.content.map (objectOf MediaType.encode))]

theorem Response.encode_eq_slots (r : Response) : r.encode = .object (slots r.fields) := by
  simp [encode, slots, fields, member, optional]

theorem Response.read?_encode {r : Response} {depth : Nat} (h : r.encode.Fits depth) :
    Response.read? depth r.encode.tree = some r.withoutNullSamples := by
  rw [encode_eq_slots] at h ⊢
  refine record?_slots h rfl (by decide) ?_
  intro d hd
  have hcontent : optional? (map? MediaType.read? d)
      (r.content.map (Value.tree ∘ objectOf MediaType.encode)) =
        some (r.content.map Content.withoutNullSamples) := by
    refine optional?_map (by simp [objectOf, Value.tree]) fun c hc => ?_
    exact Content.read?_encode (hd ("content", r.content.map _) (by simp [fields]) _
      (Option.mem_map_of_mem _ hc))
  simp [fields, hcontent, withoutNullSamples]

def Operation.fields (o : Operation) : List (String × Option Value) :=
  [("tags", some (texts o.tags)), ("operationId", some (.string o.operationId)),
    ("parameters", some (arrayOf Parameter.encode o.parameters)),
    ("requestBody", o.requestBody.map RequestBody.encode),
    ("responses", some (objectOf Response.encode o.responses)),
    ("description", some (.string o.description)), ("summary", some (.string o.summary))]

theorem Operation.encode_eq_slots (o : Operation) : o.encode = .object (slots o.fields) := by
  simp [encode, slots, fields, member, optional]

theorem Operation.read?_encode {o : Operation} {depth : Nat} (h : o.encode.Fits depth) :
    Operation.read? depth o.encode.tree = some o.withoutNullSamples := by
  rw [encode_eq_slots] at h ⊢
  refine record?_slots h rfl (by decide) ?_
  intro d hd
  have htags : (texts o.tags).Fits d := hd ("tags", some _) (by simp [fields]) _ rfl
  have hparameters : list? Parameter.read? d (arrayOf Parameter.encode o.parameters).tree =
      some (o.parameters.map Parameter.withoutNullSamples) :=
    list?_arrayOf (hd ("parameters", some _) (by simp [fields]) _ rfl)
      fun _ _ _ _ => Parameter.read?_encode
  have hrequestBody : optional? (RequestBody.read? d)
      (o.requestBody.map (Value.tree ∘ RequestBody.encode)) =
        some (o.requestBody.map RequestBody.withoutNullSamples) := by
    refine optional?_map (by simp [RequestBody.encode, Value.tree]) fun b hb => ?_
    exact RequestBody.read?_encode (hd ("requestBody", o.requestBody.map _) (by simp [fields]) _
      (Option.mem_map_of_mem _ hb))
  have hresponses : map? Response.read? d (objectOf Response.encode o.responses).tree =
      some (o.responses.map fun e => (e.1, e.2.withoutNullSamples)) :=
    map?_objectOf (hd ("responses", some _) (by simp [fields]) _ rfl)
      fun _ _ _ _ => Response.read?_encode
  simp [fields, texts?_texts htags, hparameters, hrequestBody, hresponses, withoutNullSamples]

theorem PathItem.readPathItem?_encode {item : PathItem} {depth : Nat}
    (h : (objectOf Operation.encode item).Fits depth) :
    readPathItem? depth (objectOf Operation.encode item).tree =
      some (withoutNullSamples item) := by
  have hvalue : value? depth (objectOf Operation.encode item).tree =
      some (objectOf Operation.encode item) := h.ofTree?_tree
  rw [readPathItem?, hvalue]
  exact map?_objectOf h fun _ _ _ _ => Operation.read?_encode

def ApiTag.fields (t : ApiTag) : List (String × Option Value) :=
  [("name", some (.string t.name)), ("description", some (.string t.description))]

theorem ApiTag.encode_eq_slots (t : ApiTag) : t.encode = .object (slots t.fields) := rfl

theorem ApiTag.read?_encode {t : ApiTag} {depth : Nat} (h : t.encode.Fits depth) :
    ApiTag.read? depth t.encode.tree = some t := by
  rw [encode_eq_slots] at h ⊢
  refine record?_slots h rfl (by decide) ?_
  intro d _
  simp [fields]

theorem readServer?_encodeServer {url : Text} {depth : Nat} (h : (encodeServer url).Fits depth) :
    readServer? depth (encodeServer url).tree = some url := by
  have hencode : encodeServer url = .object (slots [("url", some (.string url))]) := rfl
  rw [hencode] at h ⊢
  exact record?_slots h rfl (by decide) fun _ _ => rfl

def encodeComponents (schemas : OrderedMap Schema) : Value :=
  .object (slots [("schemas", some (objectOf Schema.encode schemas))])

theorem readComponents?_encode {schemas : OrderedMap Schema} {depth : Nat}
    (h : (encodeComponents schemas).Fits depth) :
    readComponents? depth (encodeComponents schemas).tree =
      some (schemas.map fun e => (e.1, e.2.withoutNullSamples)) := by
  refine record?_slots h rfl (by decide) fun d hd => ?_
  exact map?_objectOf (hd _ List.mem_cons_self _ rfl) fun _ _ _ _ => Schema.read?_encode

def Document.fields (d : Document) : List (String × Option Value) :=
  [("openapi", some (.string d.openapi)), ("info", some d.info.encode),
    ("servers", some (arrayOf encodeServer d.servers)),
    ("paths", some (objectOf (objectOf Operation.encode) d.paths)),
    ("tags", some (arrayOf ApiTag.encode d.tags)),
    ("components", some (encodeComponents d.schemas))]

theorem Document.encode_eq_slots (d : Document) : d.encode = .object (slots d.fields) := rfl

theorem Document.read?_encode {d : Document} {depth : Nat} (h : d.encode.Fits depth) :
    Document.read? depth d.encode.tree = some d.withoutNullSamples := by
  rw [encode_eq_slots] at h ⊢
  refine record?_slots h rfl (by decide) ?_
  intro n hn
  have hinfo : d.info.encode.Fits n := hn ("info", some _) (by simp [fields]) _ rfl
  have hservers : list? readServer? n (arrayOf encodeServer d.servers).tree = some d.servers :=
    list?_arrayOf_self (hn ("servers", some _) (by simp [fields]) _ rfl)
      fun _ _ _ _ => readServer?_encodeServer
  have hpaths : map? readPathItem? n (objectOf (objectOf Operation.encode) d.paths).tree =
      some (d.paths.map fun e => (e.1, PathItem.withoutNullSamples e.2)) :=
    map?_objectOf (hn ("paths", some _) (by simp [fields]) _ rfl)
      fun _ _ _ _ => PathItem.readPathItem?_encode
  have htags : list? ApiTag.read? n (arrayOf ApiTag.encode d.tags).tree = some d.tags :=
    list?_arrayOf_self (hn ("tags", some _) (by simp [fields]) _ rfl)
      fun _ _ _ _ => ApiTag.read?_encode
  have hcomponents : (encodeComponents d.schemas).Fits n :=
    hn ("components", some _) (by simp [fields]) _ rfl
  have hschemas := readComponents?_encode hcomponents
  simp [fields, Info.read?_encode hinfo, hservers, hpaths, htags, hschemas, withoutNullSamples]

/-- A document comes back from its JSON text, without its samples that are null, if its maps have
distinct keys, the numbers of its samples are integers of 64 bits, and its text has at most 127
arrays and objects inside each other. -/
theorem Document.ofText?_text {d : Document} (h : d.encode.Fits Json.maxDepth) :
    Document.ofText? (d.text .json) = some d.withoutNullSamples := by
  rw [ofText?, text, h.tree_ofText?, Option.bind_some, Document.read?_encode h]

/-- One operation whose response has a null sample, and a schema with a negative integer. -/
def Document.ofNullSample : Document where
  openapi := "3.0.0".toList
  info := ⟨"Pets".toList, none, "1".toList⟩
  servers := ["/v1".toList]
  paths := [("/pets".toList, [("get".toList, {
    tags := ["Pets".toList]
    operationId := "list".toList
    parameters := [⟨"age".toList, [], false, "query".toList, .ofType "integer".toList⟩]
    requestBody := none
    responses := [("200".toList, ⟨"ok".toList,
      some [("application/json".toList, ⟨.ofModel "Pet".toList, some .null⟩)]⟩)]
    description := []
    summary := [] })])]
  tags := [⟨"Pets".toList, []⟩]
  schemas := [("Pet".toList, { Schema.ofType "object".toList with
    properties := some [("age".toList, { Schema.ofType "integer".toList with
      sample := some (.array [.number (.integer (-3)), .object [("b".toList, .null),
        ("a".toList, .number (.integer 18446744073709551615))]]) })]
    sample := some .null })]

theorem Document.ofText?_text_ofNullSample :
    Document.ofNullSample.encode.Fits Json.maxDepth ∧
      Document.ofText? (Document.ofNullSample.text .json) =
        some Document.ofNullSample.withoutNullSamples := by
  have h : Document.ofNullSample.encode.Fits Json.maxDepth := by decide
  exact ⟨h, Document.ofText?_text h⟩

end DocTags.OpenApi
