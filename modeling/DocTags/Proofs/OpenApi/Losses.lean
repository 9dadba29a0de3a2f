import DocTags.Proofs.OpenApi.Paths
import DocTags.Proofs.PathGroup.Duplicates

/-!
What a document loses. Operations with the same path and verb replace each other, and nothing else
is left out: the endpoints that a document does not hold are the repeated ones of the places that
duplicates are reported for.
-/

namespace DocTags.OpenApi.Document

/-- The number of operations of a document. -/
def operationCount (d : Document) : Nat :=
  (d.paths.values.map List.length).sum

/-- The places of endpoints path by path, each once, are their distinct places. -/
theorem perm_eraseDups_place (es : List Endpoint) :
    ((es.map (·.documentPath)).eraseDups.flatMap fun p =>
      (PathGroup.verbsAt es p).eraseDups.map fun v => (p, v)).Perm
        (es.map Endpoint.place).eraseDups := by
  have hnodup : ((es.map (·.documentPath)).eraseDups.flatMap fun p =>
      (PathGroup.verbsAt es p).eraseDups.map fun v => (p, v)).Nodup := by
    refine List.nodup_flatMap.2 ⟨fun p _ => ?_, ?_⟩
    · exact (nodup_eraseDups _).map (Prod.mk_right_injective p)
    · refine (nodup_eraseDups _).imp fun hne => ?_
      intro q hq hr
      obtain ⟨v, -, rfl⟩ := List.mem_map.1 hq
      obtain ⟨w, -, heq⟩ := List.mem_map.1 hr
      exact hne (congrArg Prod.fst heq).symm
  refine (List.perm_ext_iff_of_nodup hnodup (nodup_eraseDups _)).2 ?_
  rintro ⟨p, v⟩
  rw [List.mem_eraseDups]
  constructor
  · intro h
    obtain ⟨p', -, h⟩ := List.mem_flatMap.1 h
    obtain ⟨v', hv, heq⟩ := List.mem_map.1 h
    cases heq
    rw [List.mem_eraseDups] at hv
    exact (PathGroup.mem_verbsAt_iff es p v).1 hv
  · intro h
    obtain ⟨e, he, heq⟩ := List.mem_map.1 h
    refine List.mem_flatMap.2 ⟨p, ?_, List.mem_map_of_mem ?_⟩
    · rw [List.mem_eraseDups]
      exact List.mem_map.2 ⟨e, he, congrArg Prod.fst heq⟩
    · rw [List.mem_eraseDups]
      exact (PathGroup.mem_verbsAt_iff es p v).2 h

theorem operationCount_build (info : Info) (servers : List Text) (es : List Endpoint)
    (ms : List Model) :
    (build info servers (PathGroup.ofEndpoints es) ms).operationCount =
      (es.map Endpoint.place).eraseDups.length := by
  have hlength (p : Text) :
      (PathItem.ofMembers p (es.filter fun e => e.documentPath = p)).length =
        (PathGroup.verbsAt es p).eraseDups.length := by
    have hkeys := congrArg List.length
      (PathItem.keys_ofMembers p (es.filter fun e => e.documentPath = p))
    simpa only [OrderedMap.keys, List.length_map, PathGroup.verbsAt] using hkeys
  rw [← (perm_eraseDups_place es).length_eq]
  change (((PathGroup.ofEndpoints es).foldl addGroup []).values.map List.length).sum = _
  rw [foldl_addGroup_eq_map, OrderedMap.values, List.map_map, List.map_map, List.length_flatMap]
  congr 1
  refine List.map_congr_left fun p _ => ?_
  simp [hlength]

/-- The endpoints are the operations of the document and the repeated ones of the places that are
reported. Every place with at least two endpoints is reported once, in the order of the groups and
of second occurrences. -/
theorem duplicates_eq_lost (info : Info) (servers : List Text) (es : List Endpoint)
    (ms : List Model) :
    ∃ places : List (Text × Verb),
      PathGroup.duplicates (PathGroup.ofEndpoints es) =
        places.map (fun q => .duplicateOperation q.1 q.2.name) ∧
      (∀ q, q ∈ places ↔ 2 ≤ es.countP fun e => e.place = q) ∧
      places.Nodup ∧ places.Pairwise (PathGroup.Precedes es) ∧
      (PathGroup.duplicates (PathGroup.ofEndpoints es) = [] ↔
        (build info servers (PathGroup.ofEndpoints es) ms).operationCount = es.length) ∧
      es.length = (build info servers (PathGroup.ofEndpoints es) ms).operationCount +
        (places.map fun q => es.countP (fun e => e.place = q) - 1).sum := by
  have hmem := PathGroup.mem_duplicatePlaces_iff es
  have hnodup := PathGroup.nodup_duplicatePlaces es
  have hcount (q : Text × Verb) :
      (es.map Endpoint.place).countP (fun r => r = q) = es.countP fun e => e.place = q :=
    List.countP_map
  have hplaces : ∀ q, q ∈ PathGroup.duplicatePlaces (PathGroup.ofEndpoints es) ↔
      2 ≤ (es.map Endpoint.place).countP fun r => r = q := by
    simpa only [hcount] using hmem
  have hsum := length_eq_length_eraseDups_add hnodup hplaces
  rw [List.length_map, ← operationCount_build info servers es ms] at hsum
  simp only [hcount] at hsum
  refine ⟨PathGroup.duplicatePlaces (PathGroup.ofEndpoints es),
    PathGroup.duplicates_eq_map _, hmem, hnodup, PathGroup.pairwise_duplicatePlaces es, ?_, hsum⟩
  rw [PathGroup.duplicates_eq_map, List.map_eq_nil_iff]
  constructor
  · intro hnil
    simpa [hnil] using hsum.symm
  · intro hall
    cases hplaces : PathGroup.duplicatePlaces (PathGroup.ofEndpoints es) with
    | nil => rfl
    | cons q places =>
        have htwice := (hmem q).1 (by simp [hplaces])
        rw [hplaces, List.map_cons, List.sum_cons] at hsum
        omega

end DocTags.OpenApi.Document
