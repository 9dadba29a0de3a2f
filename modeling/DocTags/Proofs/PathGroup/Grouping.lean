import DocTags.PathGroup
import DocTags.Proofs.OrderedMap

/-!
Path groups in closed form: one group for each distinct path, in the order in which the paths first
come, made of the endpoints of that path in their order.
-/

namespace DocTags

/-- The path under which an endpoint is documented. -/
def Endpoint.documentPath (e : Endpoint) : Text :=
  normalizePath e.path

namespace PathGroup

/-- The group that endpoints of one path make. -/
def ofMembers (path : Text) (members : List Endpoint) : PathGroup :=
  members.foldl push (empty path)

@[simp] theorem path_ofMembers (path : Text) (members : List Endpoint) :
    (ofMembers path members).path = path := by
  induction members using List.reverseRecOn with
  | nil => rfl
  | append_singleton members e ih => simpa [ofMembers, push] using ih

theorem operations_ofMembers (path : Text) (members : List Endpoint) :
    (ofMembers path members).operations = members.map .ofEndpoint := by
  induction members using List.reverseRecOn with
  | nil => rfl
  | append_singleton members e ih =>
      rw [List.map_append, ← ih]
      simp [ofMembers, push]

/-- The endpoints of one path are pushed, in their order, on the group that holds nothing yet. -/
theorem foldl_push_members (es : List Endpoint) (p : Text) (hp : p ∈ es.map (·.documentPath)) :
    (es.filter fun e => e.documentPath = p).foldl
        (fun g e => some ((g.getD (empty e.documentPath)).push e)) none =
      some (ofMembers p (es.filter fun e => e.documentPath = p)) := by
  have hne : (es.filter fun e => e.documentPath = p) ≠ [] := by
    obtain ⟨e, he, rfl⟩ := List.mem_map.1 hp
    exact List.ne_nil_of_mem (List.mem_filter.2 ⟨he, by simp⟩)
  refine Eq.trans ?_ (OrderedMap.foldl_some_getD (fun e g => push g e) (empty p) _ hne)
  apply List.foldl_ext
  intro g e he
  have hpath : e.documentPath = p := by simpa using (List.mem_filter.1 he).2
  rw [hpath]

theorem ofEndpoints_eq_map (es : List Endpoint) :
    ofEndpoints es = (es.map (·.documentPath)).eraseDups.map fun p =>
      ofMembers p (es.filter fun e => e.documentPath = p) := by
  have hfold : es.foldl add [] =
      OrderedMap.alterEach (·.documentPath)
        (fun e g => (g.getD (empty e.documentPath)).push e) [] es := rfl
  rw [ofEndpoints, hfold, OrderedMap.alterEach_eq_map (foldl_push_members es), OrderedMap.values,
    List.map_map]
  rfl

end PathGroup
end DocTags
