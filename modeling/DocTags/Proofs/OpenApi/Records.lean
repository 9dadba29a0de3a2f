import DocTags.OpenApi.Encoding
import DocTags.OpenApi.Reader
import DocTags.Proofs.Json.RoundTrip

/-!
Records, arrays and maps in JSON. What is read from the syntax of an encoded record are its fields
in the order of their declaration, those that are left out among them. Arrays and maps are read
item by item.
-/

namespace DocTags.OpenApi

open Json (Tree Value)

/-- The members of a record, given its fields. -/
def slots (fields : List (String × Option Value)) : List (Text × Value) :=
  fields.flatMap fun f => optional f.1 f.2

theorem slots_cons (f : String × Option Value) (fields : List (String × Option Value)) :
    slots (f :: fields) = optional f.1 f.2 ++ slots fields := rfl

theorem mem_slots {fields : List (String × Option Value)} {m : Text × Value} :
    m ∈ slots fields ↔ ∃ f ∈ fields, f.1.toList = m.1 ∧ f.2 = some m.2 := by
  rw [slots, List.mem_flatMap]
  refine exists_congr fun f => and_congr_right fun _ => ?_
  cases h : f.2 with
  | none => simp [optional]
  | some v =>
      simp only [optional, List.mem_singleton, Option.some.injEq]
      exact ⟨fun e => by simp [e], fun ⟨h₁, h₂⟩ => by rw [h₁, h₂]⟩

theorem filter_slots {fields : List (String × Option Value)}
    (hnames : (fields.map Prod.fst).Nodup) {f : String × Option Value} (hf : f ∈ fields) :
    (slots fields).filter (fun m => m.1 == f.1.toList) = optional f.1 f.2 := by
  have hown : (optional f.1 f.2).filter (fun m => m.1 == f.1.toList) = optional f.1 f.2 := by
    cases f.2 <;> simp [optional]
  have hother {g : String × Option Value} (hg : g.1 ≠ f.1) :
      (optional g.1 g.2).filter (fun m => m.1 == f.1.toList) = [] := by
    cases g.2 <;> simp [optional, String.toList_inj, hg]
  induction fields with
  | nil => cases hf
  | cons g fields ih =>
      obtain ⟨hg, hnames⟩ := List.nodup_cons.1 hnames
      rw [slots_cons, List.filter_append]
      rcases List.mem_cons.1 hf with rfl | hf
      · have hrest : (slots fields).filter (fun m => m.1 == f.1.toList) = [] := by
          rw [List.filter_eq_nil_iff]
          intro m hm he
          obtain ⟨h, hh, hname, -⟩ := mem_slots.1 hm
          have : h.1 = f.1 := String.toList_inj.1 (hname.trans (by simpa using he))
          exact hg (this ▸ List.mem_map_of_mem hh)
        rw [hown, hrest, List.append_nil]
      · have hne : g.1 ≠ f.1 := fun e => hg (e ▸ List.mem_map_of_mem hf)
        rw [hother hne, List.nil_append, ih hnames hf]

theorem field?_slots {fields : List (String × Option Value)}
    (hnames : (fields.map Prod.fst).Nodup) {f : String × Option Value} (hf : f ∈ fields) :
    field? ((slots fields).map fun m => (m.1, m.2.tree)) f.1.toList =
      some (f.2.map Value.tree) := by
  rw [field?, List.filter_map, Function.comp_def, filter_slots hnames hf]
  cases f.2 <;> rfl

theorem mapM_named_members (members : List (Text × Value)) :
    ((members.map fun m => (some m.1, m.2.tree)).mapM fun (key, t) => key.map fun key => (key, t)) =
      some (members.map fun m => (m.1, m.2.tree)) :=
  Json.mapM_map_eq_some fun _ _ => rfl

theorem Fields.ofTree?_slots {fields : List (String × Option Value)}
    (hnames : (fields.map Prod.fst).Nodup) :
    Fields.ofTree? (fields.map Prod.fst) (Value.object (slots fields)).tree =
      some (fields.map fun f => f.2.map Value.tree) := by
  rw [Value.tree, Value.treeMembers_eq_map, Fields.ofTree?, mapM_named_members]
  exact Json.mapM_map_eq_some fun f hf => field?_slots hnames hf

/-- The fields of a record stand one level deeper than the record. -/
theorem fits_of_fits_slots {fields : List (String × Option Value)} {depth : Nat}
    (h : (Value.object (slots fields)).Fits depth) :
    ∃ d, depth = d + 1 ∧ ∀ f ∈ fields, ∀ v ∈ f.2, v.Fits d := by
  cases h with
  | @object d _ _ hmembers =>
      refine ⟨d, rfl, ?_⟩
      intro f hf v hv
      exact hmembers (f.1.toList, v) (mem_slots.2 ⟨f, hf, rfl, hv⟩)

theorem record?_slots {α : Type} {fields : List (String × Option Value)} {names : List String}
    {read : Nat → Fields → Option α} {depth : Nat} {a : α}
    (h : (Value.object (slots fields)).Fits depth) (hnames : fields.map Prod.fst = names)
    (hdistinct : names.Nodup)
    (hread : ∀ d, (∀ f ∈ fields, ∀ v ∈ f.2, v.Fits d) →
      read d (fields.map fun f => f.2.map Value.tree) = some a) :
    record? names read depth (Value.object (slots fields)).tree = some a := by
  obtain ⟨d, rfl, hd⟩ := fits_of_fits_slots h
  subst hnames
  rw [record?, Fields.ofTree?_slots hdistinct, Option.bind_some, hread d hd]

theorem list?_arrayOf {α β : Type} {encode : α → Value} {read : Nat → Tree → Option β} {g : α → β}
    {xs : List α} {depth : Nat} (h : (arrayOf encode xs).Fits depth)
    (hread : ∀ x ∈ xs, ∀ d < depth, (encode x).Fits d → read d (encode x).tree = some (g x)) :
    list? read depth (arrayOf encode xs).tree = some (xs.map g) := by
  cases h with
  | @array d _ hitems =>
      rw [arrayOf, Value.tree, Value.treeItems_eq_map, List.map_map, list?]
      exact Json.mapM_map_eq_some fun x hx =>
        hread x hx d (Nat.lt_succ_self d) (hitems (encode x) (List.mem_map_of_mem hx))

theorem list?_arrayOf_self {α : Type} {encode : α → Value} {read : Nat → Tree → Option α}
    {xs : List α} {depth : Nat} (h : (arrayOf encode xs).Fits depth)
    (hread : ∀ x ∈ xs, ∀ d < depth, (encode x).Fits d → read d (encode x).tree = some x) :
    list? read depth (arrayOf encode xs).tree = some xs := by
  rw [list?_arrayOf (g := id) h hread, List.map_id]

theorem map?_objectOf {α β : Type} {encode : α → Value} {read : Nat → Tree → Option β} {g : α → β}
    {m : OrderedMap α} {depth : Nat} (h : (objectOf encode m).Fits depth)
    (hread : ∀ e ∈ m, ∀ d < depth, (encode e.2).Fits d → read d (encode e.2).tree = some (g e.2)) :
    map? read depth (objectOf encode m).tree = some (m.map fun e => (e.1, g e.2)) := by
  cases h with
  | @object d _ hkeys hmembers =>
      have hentries := Json.mapM_members_eq_some (fun a => (encode a).tree) fun e he =>
        hread e he d (Nat.lt_succ_self d) (hmembers (e.1, encode e.2) (List.mem_map_of_mem he))
      have hdistinct : (OrderedMap.keys (m.map fun e => (e.1, g e.2))).Nodup := by
        simpa [OrderedMap.keys, Function.comp_def] using hkeys
      rw [objectOf, Value.tree, Value.treeMembers_eq_map, List.map_map, map?]
      simp only [Function.comp_def]
      rw [hentries]
      simp [OrderedMap.ofEntries_eq_self hdistinct]

end DocTags.OpenApi
