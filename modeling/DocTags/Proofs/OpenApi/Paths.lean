import DocTags.OpenApi.Build
import DocTags.Proofs.PathGroup.Grouping

/-!
The paths of a document that is built from endpoints. Grouping keeps every endpoint of a path and
building lets later operations replace earlier ones, so the two orders have to be told apart: an
operation stands where the first endpoint with its path and verb stands, and says what the last one
says.
-/

namespace DocTags

theorem Verb.key_injective : Verb.key.Injective := by
  intro v w h
  cases v <;> cases w <;> first | rfl | exact absurd h (by decide)

namespace OpenApi

/-- The account of an endpoint in a document, field by field. -/
def Operation.ofEndpoint (path : Text) (e : Endpoint) : Operation where
  tags := if e.resource.name.isEmpty then [] else [e.resource.name]
  operationId := e.operation.operationId.getD (defaultOperationId e.operation.verb path)
  parameters := e.operation.parameters.map fun p =>
    { name := p.name
      description := p.description
      required := p.required
      location := p.location.name
      schema :=
        { reference := none
          type := if p.datatype = [] then none else some p.datatype
          description := none
          nullable := none
          properties := none
          required := none
          sample := none } }
  requestBody := e.operation.requestSample.map fun raw =>
    ⟨jsonContent (requestSchema e.operation.parameters) (some (sampleValue raw))⟩
  responses := OrderedMap.ofEntries
    (e.operation.responses.map fun r => (r.code, Response.ofResponse e.operation r))
  description := e.operation.description
  summary := e.operation.summary.getD []

theorem Parameter.schema_ofParameter (p : DocTags.Parameter) :
    (ofParameter p).schema =
      { Schema.any with type := if p.datatype = [] then none else some p.datatype } := by
  by_cases h : p.datatype = [] <;> simp [ofParameter, h, Schema.any, Schema.ofType]

theorem Operation.ofTagged_ofEndpoint (path : Text) (e : Endpoint) :
    Operation.ofTagged path (.ofEndpoint e) = Operation.ofEndpoint path e := by
  have hparameter (p : DocTags.Parameter) : Parameter.ofParameter p =
      ⟨p.name, p.description, p.required, p.location.name, (Parameter.ofParameter p).schema⟩ := rfl
  unfold Operation.ofTagged Operation.ofEndpoint TaggedOperation.ofEndpoint Text.nonempty?
  rw [funext hparameter]
  simp only [Parameter.schema_ofParameter]
  cases e.resource.name.isEmpty <;> simp [Schema.any]

namespace PathItem

/-- The operations that endpoints of one path add up to. -/
def ofMembers (path : Text) (members : List Endpoint) : PathItem :=
  OrderedMap.alterEach (fun e : Endpoint => e.operation.verb.key)
    (fun e _ => Operation.ofEndpoint path e) [] members

theorem keys_ofMembers (path : Text) (members : List Endpoint) :
    (ofMembers path members).keys =
      (members.map (·.operation.verb)).eraseDups.map Verb.key := by
  rw [ofMembers, OrderedMap.keys_alterEach, ← eraseDups_map Verb.key_injective, List.map_map]
  rfl

theorem get?_ofMembers (path : Text) (members : List Endpoint) (v : Verb) :
    (ofMembers path members).get? v.key =
      (members.findRev? fun e => e.operation.verb = v).map (Operation.ofEndpoint path) := by
  rw [ofMembers, OrderedMap.get?_alterEach, OrderedMap.foldl_some_const, List.getLast?_filter,
    List.findRev?_eq_find?_reverse]
  simp [OrderedMap.get?, Verb.key_injective.eq_iff]

end PathItem

namespace Document

/-- The operations of a group are those of its endpoints. -/
theorem foldl_insert_ofMembers (path : Text) (members : List Endpoint) :
    (PathGroup.ofMembers path members).operations.foldl
        (fun (item : PathItem) t =>
          item.insert t.operation.verb.key (Operation.ofTagged path t)) [] =
      PathItem.ofMembers path members := by
  rw [PathGroup.operations_ofMembers, List.foldl_map]
  simp only [Operation.ofTagged_ofEndpoint]
  rfl

theorem foldl_addGroup_eq_alterEach (groups : List PathGroup) :
    groups.foldl addGroup [] =
      OrderedMap.alterEach (·.path)
        (fun p item => p.operations.foldl
          (fun (item : PathItem) t =>
            item.insert t.operation.verb.key (Operation.ofTagged p.path t))
          (item.getD [])) [] groups := rfl

/-- Each path has one group. -/
theorem filter_map_path {ps : List Text} (hps : ps.Nodup) {p : Text} (hp : p ∈ ps)
    (members : Text → List Endpoint) :
    (ps.map fun q => PathGroup.ofMembers q (members q)).filter (fun g => g.path = p) =
      [PathGroup.ofMembers p (members p)] := by
  have hone : ps.filter (fun q => q = p) = [p] := by
    rw [List.filter_eq, List.count_eq_one_of_mem hps hp, List.replicate_one]
  rw [List.filter_map]
  simp [Function.comp_def, hone]

theorem foldl_addGroup_eq_map (es : List Endpoint) :
    (PathGroup.ofEndpoints es).foldl addGroup [] =
      (es.map (·.documentPath)).eraseDups.map fun p =>
        (p, PathItem.ofMembers p (es.filter fun e => e.documentPath = p)) := by
  have hpaths : (PathGroup.ofEndpoints es).map (·.path) =
      (es.map (·.documentPath)).eraseDups := by
    simp [PathGroup.ofEndpoints_eq_map, Function.comp_def]
  have hnodup := nodup_eraseDups (es.map (·.documentPath))
  rw [foldl_addGroup_eq_alterEach]
  refine (OrderedMap.alterEach_eq_map ?_).trans (by rw [hpaths, eraseDups_of_nodup hnodup])
  intro p hp
  rw [hpaths] at hp
  rw [PathGroup.ofEndpoints_eq_map, filter_map_path hnodup hp]
  simp [foldl_insert_ofMembers]

/-- The paths are the normalised paths of the endpoints and the operations of a path are the verbs
documented for it, both in the order in which they first come; each operation is what the last
endpoint with its path and verb says. -/
theorem paths_build_ofEndpoints (info : Info) (servers : List Text) (es : List Endpoint)
    (ms : List Model) :
    ∃ item : Text → PathItem,
      (build info servers (PathGroup.ofEndpoints es) ms).paths =
        (es.map (·.documentPath)).eraseDups.map (fun p => (p, item p)) ∧
      ∀ p : Text,
        (item p).keys = ((es.filter fun e => e.documentPath = p).map
          (·.operation.verb)).eraseDups.map Verb.key ∧
        ∀ v : Verb, (item p).get? v.key =
          (es.findRev? fun e => e.documentPath = p ∧ e.operation.verb = v).map
            (Operation.ofEndpoint p) := by
  refine ⟨fun p => .ofMembers p (es.filter fun e => e.documentPath = p),
    foldl_addGroup_eq_map es, fun p => ⟨PathItem.keys_ofMembers _ _, fun v => ?_⟩⟩
  rw [PathItem.get?_ofMembers, List.findRev?_eq_find?_reverse, List.findRev?_eq_find?_reverse,
    ← List.filter_reverse, List.find?_filter]
  simp

end Document
end OpenApi
end DocTags
