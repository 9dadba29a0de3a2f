import DocTags.OpenApi.Build
import DocTags.Proofs.Json.Denotes
import DocTags.Proofs.OrderedMap
import DocTags.Proofs.Text.Trim

/-!
What an operation of a document says of bodies. Its responses are those that are documented, one for
each status code, with a body unless the code is 204; it has a request body if and only if there is
an example request. Both have one media type, whose schema follows a documented data type, and an
example that is JSON where the documented text is JSON and that text as a string elsewhere.
-/

namespace DocTags.OpenApi

/-! ### Data types and examples -/

/-- A schema with this reference and this type, either of which may be missing, and nothing else. -/
structure Schema.HasOnly (reference type : Option Text) (s : Schema) : Prop where
  reference_eq : s.reference = reference
  type_eq : s.type = type
  description : s.description = none
  nullable : s.nullable = none
  properties : s.properties = none
  required : s.required = none
  sample : s.sample = none

/-- A token for a primitive type is the name of one, with letters in any case. -/
structure IsPrimitiveToken (token name : Text) : Prop where
  name_mem : name ∈ ["array".toList, "integer".toList, "string".toList, "double".toList,
    "long".toList, "short".toList, "char".toList, "number".toList]
  small_letters : token.map Char.toLower = name

/-- The schema of a documented data type, which may be missing: an object where it is missing or
blank, a primitive type in small letters, and a reference to a model for any other name. -/
inductive Schema.Describes : (datatype : Option Text) → Schema → Prop where
  | missing {s : Schema} (fields : s.HasOnly none (some "object".toList)) : Describes none s
  | blank {d : Text} {s : Schema} (blank : ∀ c ∈ d, isBlank c = true)
      (fields : s.HasOnly none (some "object".toList)) : Describes (some d) s
  | primitive {d name : Text} {s : Schema} (primitive : IsPrimitiveToken (Text.trim d) name)
      (fields : s.HasOnly none (some name)) : Describes (some d) s
  | model {d : Text} {s : Schema} (filled : ∃ c ∈ d, isBlank c = false)
      (other : ∀ name, ¬IsPrimitiveToken (Text.trim d) name)
      (fields : s.HasOnly (some ("#/components/schemas/".toList ++ Text.trim d)) none) :
      Describes (some d) s

theorem Schema.hasOnly_iff {reference type : Option Text} {s : Schema} :
    s.HasOnly reference type ↔ s = { any with reference, type } := by
  constructor
  · rintro ⟨hreference, htype, hdescription, hnullable, hproperties, hrequired, hsample⟩
    obtain ⟨reference, type, description, nullable, properties, required, sample⟩ := s
    simp_all [any]
  · rintro rfl
    exact ⟨rfl, rfl, rfl, rfl, rfl, rfl, rfl⟩

theorem Schema.ofDatatype_of_isBlank {d : Text} (h : ∀ c ∈ d, isBlank c = true) :
    ofDatatype d = ofType "object".toList := by
  simp [ofDatatype, Text.trim_eq_nil_iff.2 h]

theorem Schema.ofDatatype_of_isPrimitiveToken {d name : Text}
    (h : IsPrimitiveToken (Text.trim d) name) : ofDatatype d = ofType name := by
  obtain ⟨hname, rfl⟩ := h
  have hprimitive : Text.lower (Text.trim d) ∈ primitiveTypes := hname
  have hne : Text.trim d ≠ [] := by
    intro hempty
    rw [hempty] at hprimitive
    exact absurd hprimitive (by decide)
  have hdatatype : ofDatatype d = ofType (Text.lower (Text.trim d)) := by
    simp [ofDatatype, hne, hprimitive]
  exact hdatatype

theorem Schema.ofDatatype_of_not_isPrimitiveToken {d : Text} (hfilled : ∃ c ∈ d, isBlank c = false)
    (h : ∀ name, ¬IsPrimitiveToken (Text.trim d) name) : ofDatatype d = ofModel (Text.trim d) := by
  have hne : Text.trim d ≠ [] := Text.trim_ne_nil_iff.2 hfilled
  have hother : Text.lower (Text.trim d) ∉ primitiveTypes := fun hname => h _ ⟨hname, rfl⟩
  simp [ofDatatype, hne, hother]

theorem Schema.describes_iff {datatype : Option Text} {s : Schema} :
    Describes datatype s ↔ s = ofDatatype (datatype.getD []) := by
  constructor
  · intro h
    cases h with
    | missing fields => exact hasOnly_iff.1 fields
    | blank hblank fields =>
        exact (hasOnly_iff.1 fields).trans (ofDatatype_of_isBlank hblank).symm
    | primitive hprimitive fields =>
        exact (hasOnly_iff.1 fields).trans (ofDatatype_of_isPrimitiveToken hprimitive).symm
    | model hfilled hother fields =>
        exact (hasOnly_iff.1 fields).trans (ofDatatype_of_not_isPrimitiveToken hfilled hother).symm
  · rintro rfl
    cases datatype with
    | none => exact .missing (hasOnly_iff.2 rfl)
    | some d =>
        rw [Option.getD_some]
        by_cases hempty : Text.trim d = []
        · have hblank := Text.trim_eq_nil_iff.1 hempty
          exact .blank hblank (hasOnly_iff.2 (ofDatatype_of_isBlank hblank))
        · by_cases hprimitive : ∃ name, IsPrimitiveToken (Text.trim d) name
          · obtain ⟨name, hname⟩ := hprimitive
            exact .primitive hname (hasOnly_iff.2 (ofDatatype_of_isPrimitiveToken hname))
          · have hfilled := Text.trim_ne_nil_iff.1 hempty
            have hother := not_exists.1 hprimitive
            exact .model hfilled hother
              (hasOnly_iff.2 (ofDatatype_of_not_isPrimitiveToken hfilled hother))

/-- The value of an example: what it says where it is JSON, and the text itself elsewhere. -/
inductive IsSampleValue (raw : Text) : Json.Value → Prop where
  | json {v : Json.Value} (denotes : Json.Denotes raw v) : IsSampleValue raw v
  | text (other : ∀ v, ¬Json.Denotes raw v) : IsSampleValue raw (.string raw)

theorem isSampleValue_iff {raw : Text} {v : Json.Value} :
    IsSampleValue raw v ↔ v = sampleValue raw := by
  simp only [sampleValue]
  cases hread : Json.Value.ofText? raw with
  | none =>
      have hother : ∀ v, ¬Json.Denotes raw v := by
        intro v hv
        rw [← Json.Value.ofText?_eq_some_iff, hread] at hv
        cases hv
      constructor
      · rintro (hv | -)
        · exact absurd hv (hother v)
        · rfl
      · rintro rfl
        exact .text hother
  | some w =>
      have hdenotes := Json.Value.ofText?_eq_some_iff.1 hread
      constructor
      · rintro (hv | hother)
        · rw [← Json.Value.ofText?_eq_some_iff, hread] at hv
          exact (Option.some.inj hv).symm
        · exact absurd hdenotes (hother w)
      · rintro rfl
        exact .json hdenotes

/-! ### Responses -/

/-- The response of a document that a documented response of an operation comes to. -/
structure Response.IsOfResponse (op : DocTags.Operation) (r : DocTags.Response) (s : Response) :
    Prop where
  description : s.description = r.description
  content_none_iff : s.content = none ↔ r.code = "204".toList
  content_some : ∀ c, s.content = some c → ∃ media : MediaType,
    c = [("application/json".toList, media)] ∧ Schema.Describes op.responseType media.schema ∧
    (media.sample.isSome ↔ op.responseSample.isSome ∧ r.code.head? = some '2') ∧
    ∀ v ∈ media.sample, ∃ raw ∈ op.responseSample, IsSampleValue raw v

/-- An example is there under a condition, and then it is that of a text. -/
theorem eq_map_sampleValue_iff {x : Option Json.Value} {raw : Option Text} {p : Prop}
    [Decidable p] :
    x = (if p then raw else none).map sampleValue ↔
      (x.isSome ↔ raw.isSome ∧ p) ∧ ∀ v ∈ x, ∃ t ∈ raw, IsSampleValue t v := by
  simp only [isSampleValue_iff]
  by_cases hp : p <;> cases x <;> cases raw <;> simp [hp]

theorem Response.content_ofResponse (op : DocTags.Operation) (r : DocTags.Response) :
    (ofResponse op r).content =
      if r.code = "204".toList then none
      else some [("application/json".toList, ⟨Schema.ofDatatype (op.responseType.getD []),
        (if r.code.head? = some '2' then op.responseSample else none).map sampleValue⟩)] := by
  simp only [ofResponse, DocTags.Response.hasNoContent, beq_iff_eq]
  rfl

theorem Response.isOfResponse_iff (op : DocTags.Operation) (r : DocTags.Response) (s : Response) :
    s.IsOfResponse op r ↔ s = ofResponse op r := by
  have hcontent := content_ofResponse op r
  constructor
  · rintro ⟨hdescription, hnone, hsome⟩
    have hsame : s.content = (ofResponse op r).content := by
      rw [hcontent]
      split
      · next hcode => exact hnone.2 hcode
      · next hcode =>
          obtain ⟨c, hc⟩ := Option.ne_none_iff_exists'.1 fun h => hcode (hnone.1 h)
          obtain ⟨⟨schema, sample⟩, rfl, hschema, hsample⟩ := hsome c hc
          obtain rfl := Schema.describes_iff.1 hschema
          obtain rfl := eq_map_sampleValue_iff.2 hsample
          exact hc
    obtain ⟨description, content⟩ := s
    obtain rfl : description = r.description := hdescription
    exact congrArg (Response.mk r.description) hsame
  · rintro rfl
    refine ⟨rfl, ?_, ?_⟩
    · rw [hcontent]
      split
      · next hcode => exact ⟨fun _ => hcode, fun _ => rfl⟩
      · next hcode => exact ⟨fun h => absurd h (Option.some_ne_none _), fun h => absurd h hcode⟩
    · intro c hc
      rw [hcontent] at hc
      split at hc
      · cases hc
      · cases hc
        exact ⟨_, rfl, Schema.describes_iff.2 rfl, eq_map_sampleValue_iff.1 rfl⟩

/-! ### Request bodies -/

/-- The first body parameter, wherever it stands among the parameters. -/
inductive IsFirstBody (ps : List DocTags.Parameter) : Option DocTags.Parameter → Prop where
  | none (other : ∀ p ∈ ps, p.location ≠ .body) : IsFirstBody ps none
  | some {before after : List DocTags.Parameter} {p : DocTags.Parameter}
      (parameters_eq : ps = before ++ p :: after) (body : p.location = .body)
      (first : ∀ q ∈ before, q.location ≠ .body) : IsFirstBody ps (some p)

/-- The request body that an operation comes to. -/
inductive IsRequestBody (op : DocTags.Operation) : Option RequestBody → Prop where
  | none (sample : op.requestSample = none) : IsRequestBody op none
  | some {raw : Text} {p : Option DocTags.Parameter} {schema : Schema} {v : Json.Value}
      (sample : op.requestSample = some raw) (first : IsFirstBody op.parameters p)
      (describes : Schema.Describes (p.map (·.datatype)) schema) (value : IsSampleValue raw v) :
      IsRequestBody op (some ⟨[("application/json".toList, ⟨schema, some v⟩)]⟩)

theorem isFirstBody_find? (ps : List DocTags.Parameter) :
    IsFirstBody ps (ps.find? fun p => p.location = .body) := by
  cases hfind : ps.find? fun p => p.location = .body with
  | none => exact .none (by simpa using hfind)
  | some p =>
      obtain ⟨hbody, before, after, hps, hbefore⟩ := List.find?_eq_some_iff_append.1 hfind
      exact .some hps (by simpa using hbody) (by simpa using hbefore)

theorem requestSchema_eq (ps : List DocTags.Parameter) :
    requestSchema ps =
      Schema.ofDatatype (((ps.find? fun p => p.location = .body).map (·.datatype)).getD []) := by
  unfold requestSchema
  cases ps.find? fun p => p.location = .body <;> rfl

namespace Operation

theorem isRequestBody_ofTagged (path : Text) (t : TaggedOperation) :
    IsRequestBody t.operation (ofTagged path t).requestBody := by
  cases hsample : t.operation.requestSample with
  | none =>
      have hbody : (ofTagged path t).requestBody = none := by simp [ofTagged, hsample]
      rw [hbody]
      exact .none hsample
  | some raw =>
      have hbody : (ofTagged path t).requestBody =
          some ⟨jsonContent (requestSchema t.operation.parameters) (some (sampleValue raw))⟩ := by
        simp [ofTagged, hsample]
      rw [hbody]
      exact .some hsample (isFirstBody_find? _) (Schema.describes_iff.2 (requestSchema_eq _))
        (isSampleValue_iff.2 rfl)

/-- The responses and the request body of an operation, for every operation and at every path. -/
theorem bodies_ofTagged (path : Text) (t : TaggedOperation) :
    (ofTagged path t).responses.IsFilled (·.code) (fun r s => s.IsOfResponse t.operation r)
      t.operation.responses ∧
    IsRequestBody t.operation (ofTagged path t).requestBody := by
  constructor
  · exact OrderedMap.isFilled_ofEntries (Response.isOfResponse_iff t.operation)
      t.operation.responses
  · exact isRequestBody_ofTagged path t

end Operation
end DocTags.OpenApi
