import DocTags.Proofs.OpenApi.WellFormed
import DocTags.Proofs.PathGroup.Partition

/-!
The table of tags. It is filled operation by operation in the order of the groups, and an entry that
was made without a description may get one later, but only from an operation with that tag. The
paths of a document are filled in a traversal of their own, in which operations replace each other;
the table has the tags of all of them.
-/

namespace DocTags

namespace PathGroup

theorem firstFilled_replicate_succ (n : Nat) (s : Text) :
    firstFilled (List.replicate (n + 1) s) = s := by
  cases s <;> simp [firstFilled]

/-- It does not matter how often in a row a text is there. -/
theorem firstFilled_flatMap_replicate {α : Type} (times : α → Nat) (text : α → Text)
    (xs : List α) :
    firstFilled (xs.flatMap fun x => List.replicate (times x) (text x)) =
      firstFilled ((xs.filter fun x => 0 < times x).map text) := by
  induction xs with
  | nil => rfl
  | cons x xs ih =>
      rw [List.flatMap_cons, firstFilled_append, ih]
      cases htimes : times x with
      | zero =>
          rw [List.filter_cons_of_neg (by simp [htimes])]
          rfl
      | succ n =>
          rw [firstFilled_replicate_succ, List.filter_cons_of_pos (by simp [htimes]),
            List.map_cons, firstFilled_cons]

end PathGroup

namespace OpenApi.Document

open PathGroup (firstFilled)

/-! ### The table -/

theorem map_fst_tagEntries (groups : List PathGroup) :
    (tagEntries groups).map Prod.fst = (groups.flatMap (·.operations)).flatMap (·.tags) := by
  simp [tagEntries, List.map_flatMap, Function.comp_def]

/-- An operation describes each of its tags as often as it has it. -/
theorem map_snd_tagEntries (groups : List PathGroup) (name : Text) :
    ((tagEntries groups).filter fun tag => tag.1 = name).map Prod.snd =
      (groups.flatMap (·.operations)).flatMap fun t =>
        List.replicate (t.tags.count name) t.resourceDescription := by
  rw [tagEntries, List.filter_flatMap, List.map_flatMap]
  refine List.flatMap_congr fun t _ => ?_
  have hcount : t.tags.filter (fun tag => tag = name) = List.replicate (t.tags.count name) name :=
    List.filter_eq _
  rw [List.filter_map, List.map_map]
  simp [Function.comp_def, hcount]

/-- What the operations with a tag add up to is the first description among theirs. -/
theorem foldl_firstNonempty_tagEntries (groups : List PathGroup) {name : Text}
    (h : name ∈ (tagEntries groups).map Prod.fst) :
    ((tagEntries groups).filter fun tag => tag.1 = name).foldl
        (fun old tag => some (PathGroup.firstNonempty (old.getD []) tag.2)) none =
      some (firstFilled (((groups.flatMap (·.operations)).filter fun t =>
        name ∈ t.tags).map (·.resourceDescription))) := by
  have hne : ((tagEntries groups).filter fun tag => tag.1 = name) ≠ [] := by
    obtain ⟨tag, htag, rfl⟩ := List.mem_map.1 h
    exact List.ne_nil_of_mem (List.mem_filter.2 ⟨htag, by simp⟩)
  rw [OrderedMap.foldl_some_getD (fun tag old => PathGroup.firstNonempty old tag.2) [] _ hne,
    ← List.foldl_map (f := Prod.snd) (g := PathGroup.firstNonempty), map_snd_tagEntries,
    PathGroup.foldl_firstNonempty, PathGroup.firstFilled_flatMap_replicate]
  simp only [List.count_pos_iff]
  rfl

theorem tagTable_eq_map (groups : List PathGroup) :
    tagTable groups =
      ((groups.flatMap (·.operations)).flatMap (·.tags)).eraseDups.map fun name =>
        ⟨name, firstFilled (((groups.flatMap (·.operations)).filter fun t =>
          name ∈ t.tags).map (·.resourceDescription))⟩ := by
  rw [tagTable_eq_alterEach,
    OrderedMap.alterEach_eq_map fun name => foldl_firstNonempty_tagEntries groups,
    map_fst_tagEntries, List.map_map]
  rfl

/-! ### The paths -/

/-- Every operation of a document is that of a group, whatever groups share their paths. -/
theorem exists_tagged_of_mem_paths {groups : List PathGroup} {item : PathItem}
    (hitem : item ∈ (groups.foldl addGroup []).values) {o : Operation} (ho : o ∈ item.values) :
    ∃ p ∈ groups, ∃ t ∈ p.operations, o = Operation.ofTagged p.path t := by
  let IsOfGroup (o : Operation) : Prop :=
    ∃ p ∈ groups, ∃ t ∈ p.operations, o = Operation.ofTagged p.path t
  have hpaths : ∀ entry ∈ groups.foldl addGroup [], ∀ e ∈ entry.2, IsOfGroup e.2 := by
    rw [foldl_addGroup_eq_alterEach]
    apply OrderedMap.forall_mem_alterEach (P := fun item : PathItem => ∀ e ∈ item, IsOfGroup e.2)
    · intro p hp old hold
      change ∀ e ∈ OrderedMap.alterEach (fun t : TaggedOperation => t.operation.verb.key)
        (fun t _ => Operation.ofTagged p.path t) (old.getD []) p.operations, IsOfGroup e.2
      apply OrderedMap.forall_mem_alterEach
      · exact fun t ht _ _ => ⟨p, hp, t, ht, rfl⟩
      · cases old with
        | none => simp
        | some item => exact hold item rfl
    · simp
  obtain ⟨entry, hentry, rfl⟩ := List.mem_map.1 hitem
  obtain ⟨e, he, rfl⟩ := List.mem_map.1 ho
  exact hpaths entry hentry e he

/-- The table has the tags of all operations in the order in which they first come, each with the
first description that an operation with this tag gives. An operation of the paths has no tag that
is not in the table. -/
theorem tags_build (info : Info) (servers : List Text) (groups : List PathGroup)
    (ms : List Model) :
    let operations := groups.flatMap (·.operations)
    let document := build info servers groups ms
    document.tags = (operations.flatMap (·.tags)).eraseDups.map (fun name =>
      ⟨name, firstFilled ((operations.filter fun t => name ∈ t.tags).map
        (·.resourceDescription))⟩) ∧
    (document.tags.map (·.name)).Nodup ∧
    (∀ tag ∈ document.tags, tag.description ≠ [] →
      ∃ t ∈ operations, tag.name ∈ t.tags ∧ tag.description = t.resourceDescription) ∧
    ∀ item ∈ document.paths.values, ∀ o ∈ item.values, ∀ name ∈ o.tags,
      name ∈ document.tags.map (·.name) := by
  intro operations document
  have htags : document.tags = _ := tagTable_eq_map groups
  have hnames : document.tags.map (·.name) = (operations.flatMap (·.tags)).eraseDups := by
    rw [htags, List.map_map]
    exact List.map_id _
  refine ⟨htags, by rw [hnames]; exact nodup_eraseDups _, ?_, ?_⟩
  · intro tag htag hne
    rw [htags] at htag
    obtain ⟨name, -, rfl⟩ := List.mem_map.1 htag
    obtain ⟨t, ht, hdescription⟩ := List.mem_map.1 (PathGroup.firstFilled_mem hne)
    obtain ⟨ht, hname⟩ := List.mem_filter.1 ht
    exact ⟨t, ht, by simpa using hname, hdescription.symm⟩
  · intro item hitem o ho name hname
    obtain ⟨p, hp, t, ht, rfl⟩ := exists_tagged_of_mem_paths hitem ho
    rw [hnames, List.mem_eraseDups]
    exact List.mem_flatMap.2 ⟨t, List.mem_flatMap.2 ⟨p, hp, ht⟩, hname⟩

end OpenApi.Document
end DocTags
