import DocTags.Proofs.PathGroup.Grouping

/-!
Operations that are documented more than once. A verb of a path is found when it comes for the
second time, and at no other time; the lists of findings grow at their ends, so their laws are
stated for verbs that are continued at the end.
-/

namespace DocTags

/-- The position of an occurrence in a list that is continued. -/
theorem idxOfNth_append {α : Type} [BEq α] [LawfulBEq α] (xs ys : List α) (x : α) (n : Nat) :
    (xs ++ ys).idxOfNth x n =
      if n < xs.count x then xs.idxOfNth x n
      else xs.length + ys.idxOfNth x (n - xs.count x) := by
  induction xs generalizing n with
  | nil => simp
  | cons y xs ih =>
      rw [List.cons_append, List.idxOfNth_cons, List.idxOfNth_cons, ih, ih, List.count_cons]
      grind

/-- What tells operations apart in a document: the path and the verb. -/
def Endpoint.place (e : Endpoint) : Text × Verb :=
  (e.documentPath, e.operation.verb)

namespace PathGroup

/-! ### Verbs of one path -/

theorem repeatedFrom_concat (seen twice vs : List Verb) (v : Verb) :
    repeatedFrom seen twice (vs ++ [v]) = repeatedFrom seen twice vs ++
      if (v ∈ seen ∨ v ∈ vs) ∧ v ∉ twice ∧ v ∉ repeatedFrom seen twice vs then [v] else [] := by
  induction vs generalizing seen twice with
  | nil => by_cases h : v ∈ seen ∧ v ∉ twice <;> simp [repeatedFrom, h]
  | cons w vs ih =>
      rw [List.cons_append, repeatedFrom, repeatedFrom]
      split
      -- a verb that is found has been seen, so the condition on `v` stays what it was
      · rw [ih, List.cons_append]
        grind
      · rw [ih]
        grind

theorem mem_repeatedFrom_iff (vs : List Verb) (v : Verb) :
    v ∈ repeatedFrom [] [] vs ↔ 2 ≤ vs.count v := by
  induction vs using List.reverseRecOn with
  | nil => simp [repeatedFrom]
  | append_singleton vs w ih =>
      have hmem : w ∈ vs ↔ 0 < vs.count w := List.count_pos_iff.symm
      rw [repeatedFrom_concat, List.count_append, List.mem_append, ih]
      by_cases hw : w = v
      · subst hw
        grind
      · grind

theorem repeatedFrom_nil_concat (vs : List Verb) (v : Verb) :
    repeatedFrom [] [] (vs ++ [v]) =
      repeatedFrom [] [] vs ++ if vs.count v = 1 then [v] else [] := by
  have hmem : v ∈ vs ↔ 0 < vs.count v := List.count_pos_iff.symm
  simp only [repeatedFrom_concat, mem_repeatedFrom_iff, hmem, List.not_mem_nil, false_or,
    not_false_eq_true, true_and]
  congr 1
  grind

theorem pairwise_repeatedFrom (vs : List Verb) :
    (repeatedFrom [] [] vs).Pairwise fun v w => vs.idxOfNth v 1 < vs.idxOfNth w 1 := by
  induction vs using List.reverseRecOn with
  | nil => simp [repeatedFrom]
  | append_singleton vs w ih =>
      have htwice : ∀ v ∈ repeatedFrom [] [] vs, 1 < vs.count v :=
        fun v hv => (mem_repeatedFrom_iff vs v).1 hv
      have hkeep : ∀ v ∈ repeatedFrom [] [] vs, (vs ++ [w]).idxOfNth v 1 = vs.idxOfNth v 1 := by
        intro v hv
        rw [idxOfNth_append, if_pos (htwice v hv)]
      have hold : (repeatedFrom [] [] vs).Pairwise
          fun v u => (vs ++ [w]).idxOfNth v 1 < (vs ++ [w]).idxOfNth u 1 := by
        refine ih.imp_of_mem ?_
        intro v u hv hu h
        rwa [hkeep v hv, hkeep u hu]
      rw [repeatedFrom_nil_concat]
      split
      · next hcount =>
          refine List.pairwise_append.2 ⟨hold, List.pairwise_singleton _ _, ?_⟩
          intro v hv u hu
          rw [List.mem_singleton.1 hu, hkeep v hv, idxOfNth_append, hcount, if_neg (by omega)]
          exact Nat.lt_add_right _ (List.idxOfNth_lt_length_iff.2 (htwice v hv))
      · simpa using hold

/-! ### Operations of all paths -/

/-- The verbs of the endpoints of a path, in their order. -/
def verbsAt (es : List Endpoint) (path : Text) : List Verb :=
  (es.filter fun e => e.documentPath = path).map (·.operation.verb)

/-- The groups in their order, and in a group the verbs in the order of their second occurrences. -/
def Precedes (es : List Endpoint) (q r : Text × Verb) : Prop :=
  let paths := (ofEndpoints es).map (·.path)
  paths.idxOf q.1 < paths.idxOf r.1 ∨
    q.1 = r.1 ∧ (verbsAt es q.1).idxOfNth q.2 1 < (verbsAt es q.1).idxOfNth r.2 1

/-- The places that duplicates are reported for, as they are reported. -/
def duplicatePlaces (groups : List PathGroup) : List (Text × Verb) :=
  groups.flatMap fun p => p.repeatedVerbs.map fun v => (p.path, v)

theorem duplicates_eq_map (groups : List PathGroup) :
    duplicates groups =
      (duplicatePlaces groups).map fun q => .duplicateOperation q.1 q.2.name := by
  simp [duplicates, duplicatePlaces, List.map_flatMap, Function.comp_def]

theorem map_path_ofEndpoints (es : List Endpoint) :
    (ofEndpoints es).map (·.path) = (es.map (·.documentPath)).eraseDups := by
  simp [ofEndpoints_eq_map, Function.comp_def]

theorem duplicatePlaces_ofEndpoints (es : List Endpoint) :
    duplicatePlaces (ofEndpoints es) =
      (es.map (·.documentPath)).eraseDups.flatMap fun p =>
        (repeatedFrom [] [] (verbsAt es p)).map fun v => (p, v) := by
  simp [duplicatePlaces, ofEndpoints_eq_map, List.flatMap_map, repeatedVerbs,
    operations_ofMembers, verbsAt, TaggedOperation.ofEndpoint, Function.comp_def]

theorem count_verbsAt (es : List Endpoint) (p : Text) (v : Verb) :
    (verbsAt es p).count v = es.countP fun e => e.place = (p, v) := by
  rw [verbsAt, List.count, List.countP_map, List.countP_filter]
  refine List.countP_congr fun e _ => ?_
  simp [Endpoint.place, and_comm]

theorem mem_verbsAt_iff (es : List Endpoint) (p : Text) (v : Verb) :
    v ∈ verbsAt es p ↔ (p, v) ∈ es.map Endpoint.place := by
  simp [verbsAt, Endpoint.place, and_assoc]

theorem mem_duplicatePlaces_iff (es : List Endpoint) (q : Text × Verb) :
    q ∈ duplicatePlaces (ofEndpoints es) ↔ 2 ≤ es.countP fun e => e.place = q := by
  obtain ⟨p, v⟩ := q
  rw [duplicatePlaces_ofEndpoints, ← count_verbsAt, ← mem_repeatedFrom_iff]
  constructor
  · intro h
    obtain ⟨p', -, h⟩ := List.mem_flatMap.1 h
    obtain ⟨v', hv, heq⟩ := List.mem_map.1 h
    cases heq
    exact hv
  · intro hv
    have hcount := (mem_repeatedFrom_iff _ _).1 hv
    have hmem := (mem_verbsAt_iff es p v).1 (List.count_pos_iff.1 (Nat.lt_of_succ_lt hcount))
    obtain ⟨e, he, heq⟩ := List.mem_map.1 hmem
    have hp : p ∈ (es.map (·.documentPath)).eraseDups := by
      rw [List.mem_eraseDups]
      exact List.mem_map.2 ⟨e, he, congrArg Prod.fst heq⟩
    exact List.mem_flatMap.2 ⟨p, hp, List.mem_map_of_mem hv⟩

/-- In a list without repetition positions tell the order of elements. -/
theorem pairwise_idxOf {α : Type} [BEq α] [LawfulBEq α] {xs : List α} (h : xs.Nodup) :
    xs.Pairwise fun x y => xs.idxOf x < xs.idxOf y := by
  rw [List.pairwise_iff_getElem]
  intro i j hi hj hij
  rwa [h.idxOf_getElem, h.idxOf_getElem]

theorem pairwise_duplicatePlaces (es : List Endpoint) :
    (duplicatePlaces (ofEndpoints es)).Pairwise (Precedes es) := by
  rw [duplicatePlaces_ofEndpoints, List.pairwise_flatMap]
  refine ⟨fun p _ => ?_, ?_⟩
  · rw [List.pairwise_map]
    exact (pairwise_repeatedFrom (verbsAt es p)).imp fun h => .inr ⟨rfl, h⟩
  · refine (pairwise_idxOf (nodup_eraseDups _)).imp ?_
    intro p p' h q hq r hr
    obtain ⟨v, -, rfl⟩ := List.mem_map.1 hq
    obtain ⟨w, -, rfl⟩ := List.mem_map.1 hr
    exact .inl (by rwa [map_path_ofEndpoints])

theorem nodup_duplicatePlaces (es : List Endpoint) :
    (duplicatePlaces (ofEndpoints es)).Nodup := by
  refine (pairwise_duplicatePlaces es).imp ?_
  rintro q _ (h | ⟨-, h⟩) rfl <;> exact Nat.lt_irrefl _ h

end PathGroup
end DocTags
