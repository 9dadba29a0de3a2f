import DocTags.Proofs.PathGroup.Grouping
import DocTags.Proofs.PathGroup.Normalize

/-!
Grouping by path as a partition. Each path has one group, each endpoint is in the group of its path
and in no other, and the order of the endpoints is kept inside the groups. A group takes the name
and the description of its resource each from the first endpoint that has one, so that the two may
come from different endpoints.
-/

namespace DocTags

/-- The endpoint with the parameters of its path in braces. -/
def Endpoint.normalized (e : Endpoint) : Endpoint :=
  { e with path := normalizePath e.path }

/-- Elements that are taken key by key are taken once each. -/
theorem flatMap_filter_perm {α κ : Type} [DecidableEq κ] (key : α → κ) {ks : List κ}
    (hks : ks.Nodup) {xs : List α} (h : ∀ x ∈ xs, key x ∈ ks) :
    (ks.flatMap fun k => xs.filter fun x => key x = k).Perm xs := by
  induction ks generalizing xs with
  | nil =>
      obtain rfl : xs = [] := List.eq_nil_iff_forall_not_mem.2 fun x hx => by simpa using h x hx
      exact .refl []
  | cons k ks ih =>
      obtain ⟨hk, hks⟩ := List.nodup_cons.1 hks
      have hothers : ∀ x ∈ xs.filter (fun x => !decide (key x = k)), key x ∈ ks := by
        intro x hx
        obtain ⟨hx, hne⟩ := List.mem_filter.1 hx
        exact List.mem_of_ne_of_mem (by simpa using hne) (h x hx)
      have hsame : (ks.flatMap fun k' => xs.filter fun x => key x = k') =
          ks.flatMap fun k' =>
            (xs.filter fun x => !decide (key x = k)).filter fun x => key x = k' := by
        refine List.flatMap_congr fun k' hk' => ?_
        rw [List.filter_filter]
        refine List.filter_congr fun x _ => ?_
        have hne : k' ≠ k := fun he => hk (he ▸ hk')
        by_cases hx : key x = k' <;> simp [hx, hne]
      rw [List.flatMap_cons, hsame]
      exact ((ih hks hothers).append_left _).trans (List.filter_append_perm _ xs)

namespace PathGroup

/-! ### The first text that is not empty -/

/-- The first of these texts that is not empty, and the empty text if all of them are. -/
def firstFilled (texts : List Text) : Text :=
  (texts.find? fun s => !s.isEmpty).getD []

theorem firstFilled_cons (s : Text) (texts : List Text) :
    firstFilled (s :: texts) = firstNonempty s (firstFilled texts) := by
  cases s <;> rfl

theorem foldl_firstNonempty (texts : List Text) (s : Text) :
    texts.foldl firstNonempty s = firstNonempty s (firstFilled texts) := by
  induction texts generalizing s with
  | nil => cases s <;> rfl
  | cons t texts ih =>
      rw [List.foldl_cons, ih, firstFilled_cons]
      cases s <;> rfl

theorem firstFilled_append (texts more : List Text) :
    firstFilled (texts ++ more) = firstNonempty (firstFilled texts) (firstFilled more) := by
  have hfold := foldl_firstNonempty (texts ++ more) []
  rw [List.foldl_append, foldl_firstNonempty, foldl_firstNonempty] at hfold
  exact hfold.symm

theorem firstFilled_mem {texts : List Text} (h : firstFilled texts ≠ []) :
    firstFilled texts ∈ texts := by
  unfold firstFilled at h ⊢
  cases hfind : texts.find? fun s => !s.isEmpty with
  | none => simp [hfind] at h
  | some s => exact List.mem_of_find?_eq_some hfind

/-! ### The groups -/

theorem resource_foldl_push (p : PathGroup) (members : List Endpoint) :
    (members.foldl push p).resource =
      ⟨(members.map (·.resource.name)).foldl firstNonempty p.resource.name,
        (members.map (·.resource.description)).foldl firstNonempty p.resource.description⟩ := by
  induction members generalizing p with
  | nil => rfl
  | cons e members ih => exact ih (p.push e)

theorem resource_ofMembers (path : Text) (members : List Endpoint) :
    (ofMembers path members).resource =
      ⟨firstFilled (members.map (·.resource.name)),
        firstFilled (members.map (·.resource.description))⟩ := by
  rw [ofMembers, resource_foldl_push, foldl_firstNonempty, foldl_firstNonempty]
  rfl

theorem documentPath_normalized (e : Endpoint) : e.normalized.documentPath = e.documentPath :=
  normalizePath_normalizePath e.path

/-- A group does not depend on how its endpoints write their paths. -/
theorem ofMembers_map_normalized (path : Text) (members : List Endpoint) :
    ofMembers path (members.map Endpoint.normalized) = ofMembers path members := by
  rw [ofMembers, List.foldl_map]
  rfl

theorem ofEndpoints_map_normalized (es : List Endpoint) :
    ofEndpoints (es.map Endpoint.normalized) = ofEndpoints es := by
  have hpaths : (es.map Endpoint.normalized).map (·.documentPath) = es.map (·.documentPath) := by
    rw [List.map_map]
    exact List.map_congr_left fun e _ => documentPath_normalized e
  rw [ofEndpoints_eq_map, ofEndpoints_eq_map, hpaths]
  refine List.map_congr_left fun p _ => ?_
  rw [List.filter_map, ofMembers_map_normalized]
  simp only [Function.comp_def, documentPath_normalized]

/-- All operations of all groups are the operations of the endpoints. -/
theorem flatMap_operations_perm (es : List Endpoint) :
    ((ofEndpoints es).flatMap (·.operations)).Perm (es.map .ofEndpoint) := by
  have hall : ∀ e ∈ es, e.documentPath ∈ (es.map (·.documentPath)).eraseDups := by
    intro e he
    simpa using ⟨e, he, rfl⟩
  have hsorted := flatMap_filter_perm Endpoint.documentPath (nodup_eraseDups _) hall
  have hoperations : (ofEndpoints es).flatMap (·.operations) =
      ((es.map (·.documentPath)).eraseDups.flatMap fun p =>
        es.filter fun e => e.documentPath = p).map .ofEndpoint := by
    simp only [ofEndpoints_eq_map, List.flatMap_map, List.map_flatMap, operations_ofMembers]
  rw [hoperations]
  exact hsorted.map _

/-- There is one group for each path, in the order in which the paths first come. It holds the
operations of the endpoints with that path, all of them and in their order, and the first name and
the first description of a resource that they give. How a path writes its parameters does not
matter. -/
theorem ofEndpoints_partition (es : List Endpoint) :
    (ofEndpoints es).map (·.path) = (es.map (·.documentPath)).eraseDups ∧
    ((ofEndpoints es).map (·.path)).Nodup ∧
    (∀ p ∈ ofEndpoints es,
      let members := es.filter fun e => e.documentPath = p.path
      members ≠ [] ∧ p.operations = members.map .ofEndpoint ∧
      p.resource.name = firstFilled (members.map (·.resource.name)) ∧
      p.resource.description = firstFilled (members.map (·.resource.description))) ∧
    ((ofEndpoints es).flatMap (·.operations)).Perm (es.map .ofEndpoint) ∧
    ofEndpoints (es.map Endpoint.normalized) = ofEndpoints es := by
  have hpaths : (ofEndpoints es).map (·.path) = (es.map (·.documentPath)).eraseDups := by
    simp [ofEndpoints_eq_map, Function.comp_def]
  refine ⟨hpaths, by rw [hpaths]; exact nodup_eraseDups _, ?_, flatMap_operations_perm es,
    ofEndpoints_map_normalized es⟩
  intro p hp members
  have hmem : p.path ∈ es.map (·.documentPath) := by
    rw [← List.mem_eraseDups, ← hpaths]
    exact List.mem_map_of_mem hp
  have hp' : p = ofMembers p.path members := by
    rw [ofEndpoints_eq_map] at hp
    obtain ⟨path, -, rfl⟩ := List.mem_map.1 hp
    simp only [members, path_ofMembers]
  have hresource := resource_ofMembers p.path members
  rw [← hp'] at hresource
  refine ⟨?_, ?_, by rw [hresource], by rw [hresource]⟩
  · obtain ⟨e, he, hpath⟩ := List.mem_map.1 hmem
    exact List.ne_nil_of_mem (List.mem_filter.2 ⟨he, by simpa using hpath⟩)
  · have hoperations := operations_ofMembers p.path members
    rwa [← hp'] at hoperations

end PathGroup
end DocTags
