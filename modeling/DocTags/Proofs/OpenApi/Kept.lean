import DocTags.Proofs.OpenApi.Losses

/-!
What a document keeps. An operation is what the last endpoint of its path and verb says, a schema
what the last model of its name says; where no two of them share a place, each one is kept.
-/

namespace DocTags

namespace OrderedMap

variable {α β : Type}

theorem get?_map (f : Text → α) (ks : List Text) (k : Text) :
    get? k (ks.map fun k => (k, f k)) = if k ∈ ks then some (f k) else none := by
  induction ks with
  | nil => rfl
  | cons k' ks ih =>
      by_cases h : k' = k
      · simp [get?, h]
      · have hbeq : (k' == k) = false := by simpa using h
        simp only [get?, List.map_cons, List.find?_cons, hbeq, List.mem_cons, Ne.symm h, false_or]
          at ih ⊢
        exact ih

end OrderedMap

/-- What is there once is found, also from the end. -/
theorem findRev?_of_countP_le_one {α : Type} {p : α → Bool} {xs : List α} (h : xs.countP p ≤ 1)
    {x : α} (hx : x ∈ xs) (hp : p x = true) : xs.findRev? p = some x := by
  have hmem : x ∈ xs.filter p := List.mem_filter.2 ⟨hx, hp⟩
  rw [List.countP_eq_length_filter] at h
  rw [List.findRev?_eq_find?_reverse, ← List.getLast?_filter]
  obtain ⟨y, hy⟩ := List.length_eq_one_iff.1 (Nat.le_antisymm h (List.length_pos_of_mem hmem))
  rw [hy] at hmem ⊢
  rw [List.mem_singleton.1 hmem]
  rfl

namespace OpenApi.Document

/-! ### Operations -/

def operation? (d : Document) (path : Text) (v : Verb) : Option Operation :=
  (d.paths.get? path).bind (OrderedMap.get? v.key)

theorem operation?_build (info : Info) (servers : List Text) (es : List Endpoint)
    (ms : List Model) (path : Text) (v : Verb) :
    (build info servers (PathGroup.ofEndpoints es) ms).operation? path v =
      (es.findRev? fun e => e.place = (path, v)).map (Operation.ofEndpoint path) := by
  change (((PathGroup.ofEndpoints es).foldl addGroup []).get? path).bind _ = _
  rw [foldl_addGroup_eq_map, OrderedMap.get?_map, List.findRev?_eq_find?_reverse]
  split_ifs with hpath
  · rw [Option.bind_some, PathItem.get?_ofMembers, List.findRev?_eq_find?_reverse,
      ← List.filter_reverse, List.find?_filter]
    simp [Endpoint.place]
  · have hnone : ∀ e ∈ es, e.documentPath ≠ path := by simpa using hpath
    rw [List.find?_eq_none.2]
    · rfl
    · intro e he
      simp [Endpoint.place, hnone e (List.mem_reverse.1 he)]

theorem countP_place_le_one {es : List Endpoint}
    (h : PathGroup.duplicates (PathGroup.ofEndpoints es) = []) (q : Text × Verb) :
    es.countP (fun e => e.place = q) ≤ 1 := by
  rw [PathGroup.duplicates_eq_map, List.map_eq_nil_iff] at h
  have hq := mt (PathGroup.mem_duplicatePlaces_iff es q).2 (by simp [h])
  omega

theorem nodup_place_of_duplicates {es : List Endpoint}
    (h : PathGroup.duplicates (PathGroup.ofEndpoints es) = []) : (es.map Endpoint.place).Nodup := by
  rw [List.nodup_iff_count_le_one]
  intro q
  rw [List.count, List.countP_map]
  exact (List.countP_congr fun e _ => by simp).trans_le (countP_place_le_one h q)

/-! ### Schemas -/

theorem get?_modelSchemas (ms : List Model) (name : Text) :
    (modelSchemas ms).get? name =
      (ms.findRev? fun m => m.name = name).map Schema.ofModelRecord :=
  OrderedMap.get?_ofEntries_map Model.name Schema.ofModelRecord ms name

theorem length_modelSchemas (ms : List Model) :
    (modelSchemas ms).length = (ms.map (·.name)).eraseDups.length := by
  have hkeys := congrArg List.length
    (OrderedMap.keys_ofEntries (ms.map fun m => (m.name, Schema.ofModelRecord m)))
  simpa [OrderedMap.keys, modelSchemas, Function.comp_def] using hkeys

theorem repeatedModels_concat (seen : List Text) (ms : List Model) (m : Model) :
    repeatedModels seen (ms ++ [m]) =
      repeatedModels seen ms ++
        if m.name ∈ seen ∨ m.name ∈ ms.map (·.name) then [m.name] else [] := by
  induction ms generalizing seen with
  | nil => simp [repeatedModels]
  | cons m' ms ih =>
      by_cases h : m'.name ∈ seen
      · have hseen : m.name ∈ seen ∨ m.name = m'.name ∨ m.name ∈ ms.map (·.name) ↔
            m.name ∈ seen ∨ m.name ∈ ms.map (·.name) := by
          constructor
          · rintro (hm | hm | hm)
            · exact .inl hm
            · exact .inl (hm ▸ h)
            · exact .inr hm
          · exact Or.imp_right .inr
        simp only [List.cons_append, repeatedModels, List.contains_iff_mem, h, if_true, ih,
          List.map_cons, List.mem_cons, hseen]
      · simp only [List.cons_append, repeatedModels, List.contains_iff_mem, h, if_false, ih,
          List.map_cons, List.mem_cons, or_assoc, or_left_comm]

/-- The models are those that have a schema and those that are reported as replacing one. -/
theorem length_eq_length_modelSchemas_add (ms : List Model) :
    ms.length = (modelSchemas ms).length + (repeatedModels [] ms).length := by
  rw [length_modelSchemas]
  induction ms using List.reverseRecOn with
  | nil => rfl
  | append_singleton ms m ih =>
      rw [List.map_append, List.map_singleton, eraseDups_concat, repeatedModels_concat]
      by_cases h : m.name ∈ ms.map (·.name) <;> simp [h] <;> omega

theorem mem_repeatedModels_iff (ms : List Model) (name : Text) :
    name ∈ repeatedModels [] ms ↔ 2 ≤ ms.countP fun m => m.name = name := by
  induction ms using List.reverseRecOn with
  | nil => simp [repeatedModels]
  | append_singleton ms m ih =>
      have hpos : 0 < ms.countP (fun m => m.name = name) ↔ name ∈ ms.map (·.name) := by
        simp [List.countP_pos_iff]
      rw [repeatedModels_concat, List.mem_append, ih, List.countP_append]
      by_cases hm : m.name = name
      · subst hm
        have hlast : [m].countP (fun m' => m'.name = m.name) = 1 := by simp
        rw [hlast]
        by_cases h : m.name ∈ ms.map (·.name)
        · have hone := hpos.2 h
          rw [if_pos (.inr h)]
          exact ⟨fun _ => by omega, fun _ => .inr (List.mem_singleton_self m.name)⟩
        · have hzero := mt hpos.1 h
          rw [if_neg (by simpa using h)]
          simp only [List.not_mem_nil, or_false]
          omega
      · have hne : name ≠ m.name := Ne.symm hm
        split_ifs <;> simp [hm, hne]

end OpenApi.Document
end DocTags
