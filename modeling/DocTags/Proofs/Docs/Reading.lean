import DocTags.Docs
import DocTags.Proofs.Endpoint.Faults
import Mathlib.Data.List.Induction
import Mathlib.Data.List.TakeWhile

/-!
What the blocks of a source say, block by block. A block is read in the context of the nearest
resource block above it and of nothing else, so that the reading of a source is put together from
one reading for each block.
-/

namespace DocTags

namespace Reading

/-- What one list of blocks says, then what the list below it says. -/
def append (r s : Reading) : Reading where
  endpoints := r.endpoints ++ s.endpoints
  models := r.models ++ s.models
  faults := r.faults ++ s.faults
  orphan := r.orphan.or s.orphan
  warnings := r.warnings ++ s.warnings

/-- The resource of the nearest resource block above. -/
def context (above : List Block) : Option Resource :=
  (above.findRev? fun b => b.kind = .resource).map Resource.ofBlock

theorem context_concat (above : List Block) (b : Block) :
    context (above ++ [b]) =
      if b.kind = .resource then some (Resource.ofBlock b) else context above := by
  by_cases h : b.kind = .resource <;> simp [context, h]

/-- Each block together with the blocks above it. -/
def placed : (above : List Block) → List Block → List (List Block × Block)
  | _, [] => []
  | above, b :: below => (above, b) :: placed (above ++ [b]) below

/-- What a block says in its place. -/
def record (g : Grammar) (place : List Block × Block) : Reading :=
  ofBlocks g (context place.1) [place.2]

/-- What each block of a list says. -/
def records (g : Grammar) (bs : List Block) : List Reading :=
  (placed [] bs).map (record g)

theorem ofBlocks_cons (g : Grammar) (above : List Block) (b : Block) (below : List Block) :
    ofBlocks g (context above) (b :: below) =
      (record g (above, b)).append (ofBlocks g (context (above ++ [b])) below) := by
  rw [context_concat]
  cases hk : b.kind with
  | resource | model | commentary =>
      simp [record, ofBlocks, hk, append, pushModel, empty]
  | endpoint =>
      cases hc : context above with
      | none => simp [record, ofBlocks, hk, hc, append, pushEndpoint, empty]
      | some r =>
          cases he : Endpoint.ofBlock r b <;>
            simp [record, ofBlocks, hk, hc, he, append, pushEndpoint, empty]

/-- A reading is put together from what each block says in its place. -/
theorem ofBlocks_eq_foldr (g : Grammar) (above below : List Block) :
    ofBlocks g (context above) below =
      ((placed above below).map (record g)).foldr append empty := by
  induction below generalizing above with
  | nil => rfl
  | cons b below ih => rw [ofBlocks_cons, ih, placed, List.map_cons, List.foldr_cons]

/-- What an endpoint block comes to, provided that a resource block stands above it. -/
def result? (place : List Block × Block) : Option (Except Problem Endpoint) :=
  if place.2.kind = .endpoint then
    (context place.1).map fun resource => Endpoint.ofBlock resource place.2
  else none

def fault? : Except Problem Endpoint → Option Problem
  | .ok _ => none
  | .error p => some p

theorem has_path_of_kind {b : Block} (h : b.kind = .endpoint) : b.has .path = true := by
  unfold Block.kind at h
  split_ifs at h with h₁ h₂
  exact h₂

theorem ofBlock_of_result? {place : List Block × Block} {result : Except Problem Endpoint}
    (h : result? place = some result) : ∃ r, Endpoint.ofBlock r place.2 = result := by
  unfold result? at h
  split at h
  · obtain ⟨r, -, hr⟩ := Option.map_eq_some_iff.1 h
    exact ⟨r, hr⟩
  · simp at h

theorem liesIn_of_result?_error {place : List Block × Block} {p : Problem}
    (h : result? place = some (.error p)) : p.LiesIn place.2.lines := by
  unfold result? at h
  split at h
  · next hk =>
      obtain ⟨r, -, hr⟩ := Option.map_eq_some_iff.1 h
      exact Endpoint.liesIn_of_ofBlock_error (has_path_of_kind hk) hr
  · simp at h

/-- The endpoint blocks above every resource block. -/
def orphans (bs : List Block) : List Block :=
  (bs.takeWhile fun b => b.kind ≠ .resource).filter fun b => b.kind = .endpoint

theorem orphans_cons (b : Block) (bs : List Block) :
    orphans (b :: bs) =
      match b.kind with
      | .resource => []
      | .endpoint => b :: orphans bs
      | .model | .commentary => orphans bs := by
  cases hk : b.kind <;> simp [orphans, hk]

theorem mem_orphans {above : List Block} (h : ∀ a ∈ above, a.kind ≠ .resource) {b : Block}
    (hk : b.kind = .endpoint) (below : List Block) : b ∈ orphans (above ++ b :: below) := by
  rw [orphans, List.takeWhile_append_of_pos (by simpa using h)]
  simp [hk]

theorem exists_of_mem_orphans {bs : List Block} {b : Block} (h : b ∈ orphans bs) :
    b.kind = .endpoint ∧
      ∃ above below, bs = above ++ b :: below ∧ ∀ a ∈ above, a.kind ≠ .resource := by
  obtain ⟨hb, hk⟩ := List.mem_filter.1 h
  obtain ⟨above, below, hsplit⟩ := List.append_of_mem hb
  refine ⟨by simpa using hk, above, below ++ bs.dropWhile fun b => b.kind ≠ .resource, ?_, ?_⟩
  · rw [← List.cons_append, ← List.append_assoc, ← hsplit, List.takeWhile_append_dropWhile]
  · intro a ha
    have hmem : a ∈ bs.takeWhile fun b => b.kind ≠ .resource := by
      rw [hsplit]
      exact List.mem_append_left _ ha
    simpa using List.mem_takeWhile_imp hmem

/-- The fields of a reading, each from the blocks that it is about. -/
theorem ofBlocks_eq (g : Grammar) (above below : List Block) :
    ofBlocks g (context above) below =
      { endpoints := ((placed above below).filterMap result?).filterMap Except.toOption
        models := (below.filter fun b => b.kind = .model).map Model.ofBlock
        faults := ((placed above below).filterMap result?).filterMap fault?
        orphan :=
          if (context above).isSome then none
          else (orphans below).head?.map Block.startLine
        warnings := (below.filter fun b => b.kind = .model).flatMap (Model.warnings g) } := by
  induction below generalizing above with
  | nil => simp [ofBlocks, placed, empty, orphans]
  | cons b below ih =>
      rw [ofBlocks_cons, ih, context_concat, placed]
      cases hk : b.kind with
      | resource | model | commentary =>
          simp [record, ofBlocks, hk, append, pushModel, empty, result?, orphans]
      | endpoint =>
          cases hc : context above with
          | none => simp [record, ofBlocks, hk, hc, append, pushEndpoint, empty, result?, orphans]
          | some r =>
              cases he : Endpoint.ofBlock r b <;>
                simp [record, ofBlocks, hk, hc, he, append, pushEndpoint, empty, result?,
                  List.filterMap_cons, fault?, Except.toOption]

/-! ### Endpoint blocks without a resource -/

/-- The one problem that endpoint blocks above every resource block come to: it has the line of the
first endpoint block. -/
def missing (bs : List Block) : List Problem :=
  if orphans bs = [] then []
  else ((bs.find? fun b => b.kind = .endpoint).map fun b => .missingResource b.startLine).toList

theorem head?_orphans (bs : List Block) :
    (orphans bs).head? =
      if orphans bs = [] then none else bs.find? fun b => b.kind = .endpoint := by
  induction bs with
  | nil => simp [orphans]
  | cons b bs ih =>
      rw [orphans_cons]
      cases hk : b.kind with
      | resource => rfl
      | endpoint => simp [hk]
      | model | commentary => simp [hk, ih]

theorem missing_eq (bs : List Block) :
    missing bs = ((orphans bs).head?.map Block.startLine).toList.map .missingResource := by
  rw [missing, head?_orphans]
  split
  · rfl
  · cases bs.find? fun b => b.kind = .endpoint <;> rfl

theorem not_isMalformed_of_mem_missing {bs : List Block} {p : Problem} (hp : p ∈ missing bs) :
    p.isMalformed = false := by
  rw [missing_eq] at hp
  obtain ⟨line, -, rfl⟩ := List.mem_map.1 hp
  rfl

/-! ### Counting endpoint blocks -/

/-- Every endpoint block is above all resource blocks or comes to an endpoint or a problem. -/
theorem countP_endpoint (above below : List Block) :
    below.countP (fun b => b.kind = .endpoint) =
      ((placed above below).filterMap result?).length +
        if (context above).isSome then 0 else (orphans below).length := by
  induction below generalizing above with
  | nil => simp [placed, orphans]
  | cons b below ih =>
      rw [List.countP_cons, ih (above ++ [b]), context_concat, placed]
      cases hk : b.kind with
      | resource | model | commentary => simp [result?, hk, orphans]
      | endpoint =>
          cases hc : context above with
          | none =>
              simp [result?, hk, hc, orphans]
              omega
          | some r => simp [result?, hk, hc]

theorem length_results (rs : List (Except Problem Endpoint)) :
    rs.length = (rs.filterMap Except.toOption).length + (rs.filterMap fault?).length := by
  induction rs with
  | nil => rfl
  | cons r rs ih =>
      cases r <;> simp [List.filterMap_cons, Except.toOption, fault?] <;> omega

theorem isMalformed_of_mem_faults {places : List (List Block × Block)} {p : Problem}
    (hp : p ∈ (places.filterMap result?).filterMap fault?) : p.isMalformed = true := by
  obtain ⟨r, hr, hfault⟩ := List.mem_filterMap.1 hp
  obtain ⟨⟨above, b⟩, -, hplace⟩ := List.mem_filterMap.1 hr
  cases r with
  | ok e => simp [fault?] at hfault
  | error q =>
      obtain rfl : q = p := by simpa [fault?] using hfault
      exact (liesIn_of_result?_error hplace).isMalformed

theorem exists_eq_of_mem_warnings {g : Grammar} {b : Block} {p : Problem}
    (hp : p ∈ Model.warnings g b) : ∃ line model, p = .ambiguousModel line model := by
  unfold Model.warnings at hp
  split at hp
  · simp at hp
  · obtain ⟨l, -, rfl⟩ := List.mem_map.1 hp
    exact ⟨_, _, rfl⟩

theorem not_isMalformed_of_mem_warnings {g : Grammar} {b : Block} {p : Problem}
    (hp : p ∈ Model.warnings g b) : p.isMalformed = false := by
  obtain ⟨line, model, rfl⟩ := exists_eq_of_mem_warnings hp
  rfl

/-! ### Changing one block -/

theorem map_record_placed (g : Grammar) {above other : List Block}
    (h : context above = context other) (below : List Block) :
    (placed above below).map (record g) = (placed other below).map (record g) := by
  induction below generalizing above other with
  | nil => rfl
  | cons b below ih =>
      have hnext : context (above ++ [b]) = context (other ++ [b]) := by
        rw [context_concat, context_concat, h]
      simp only [placed, List.map_cons, ih hnext, record, h]

theorem placed_append (above xs ys : List Block) :
    placed above (xs ++ ys) = placed above xs ++ placed (above ++ xs) ys := by
  induction xs generalizing above with
  | nil => simp [placed]
  | cons b xs ih => simp [placed, ih]

theorem map_snd_placed (above below : List Block) :
    (placed above below).map Prod.snd = below := by
  induction below generalizing above with
  | nil => rfl
  | cons b below ih => simp [placed, ih]

theorem snd_mem_of_mem_placed {above bs : List Block} {place : List Block × Block}
    (h : place ∈ placed above bs) : place.2 ∈ bs := by
  rw [← map_snd_placed above bs]
  exact List.mem_map_of_mem h

/-- A block in its place stands below the blocks of that place. -/
theorem exists_of_mem_placed {above bs : List Block} {place : List Block × Block}
    (h : place ∈ placed above bs) : ∃ below, above ++ bs = place.1 ++ place.2 :: below := by
  induction bs generalizing above with
  | nil => cases h
  | cons b bs ih =>
      rcases List.mem_cons.1 h with rfl | h
      · exact ⟨bs, rfl⟩
      · obtain ⟨below, hbelow⟩ := ih h
        exact ⟨below, by rw [← hbelow, List.append_assoc, List.singleton_append]⟩

theorem length_placed (above below : List Block) :
    (placed above below).length = below.length := by
  induction below generalizing above with
  | nil => rfl
  | cons b below ih => simp [placed, ih]

/-- A block that stays of its kind, and whose resource stays the same if it is a resource block,
changes nothing of what the other blocks say. -/
theorem records_change (g : Grammar) (above : List Block) {b c : Block} (below : List Block)
    (hkind : c.kind = b.kind)
    (hres : b.kind = .resource → Resource.ofBlock c = Resource.ofBlock b) :
    records g (above ++ c :: below) =
      (records g (above ++ b :: below)).set above.length (record g (above, c)) := by
  have hctx : context (above ++ [c]) = context (above ++ [b]) := by
    rw [context_concat, context_concat, hkind]
    by_cases h : b.kind = .resource
    · simp [h, hres h]
    · simp [h]
  simp only [records, placed_append, placed, List.nil_append, List.map_append, List.map_cons,
    map_record_placed g hctx]
  rw [List.set_append_right _ _ (by simp [length_placed])]
  simp [length_placed]

end Reading
end DocTags
