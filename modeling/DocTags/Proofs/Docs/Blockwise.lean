import DocTags.Proofs.Docs.Reading

/-!
What a source says in terms of its blocks alone. The pass over the blocks keeps a resource, a mark
for endpoints without one, and the warnings about models for the end; here each kind of record and
of problem is read off the list of blocks on its own.
-/

namespace DocTags.Docs

open Reading

/-- What blocks say, each kind of record and of problem on its own. -/
def blockwise (g : Grammar) (file : Text) (bs : List Block) : Docs where
  endpoints := ((placed [] bs).filterMap result?).filterMap Except.toOption
  models := (bs.filter fun b => b.kind = .model).map Model.ofBlock
  diagnostics :=
    (((placed [] bs).filterMap result?).filterMap fault? ++ missing bs ++
      (bs.filter fun b => b.kind = .model).flatMap (Model.warnings g)).map fun p => ⟨file, p⟩

/-- What a reading says of a file. -/
def ofReading (file : Text) (r : Reading) : Docs where
  endpoints := r.endpoints
  models := r.models
  diagnostics := r.problems.map fun p => ⟨file, p⟩

theorem ofSource_eq_blockwise (g : Grammar) (file source : Text) :
    ofSource g file source = blockwise g file (Block.ofSource g source) := by
  have hreading := ofBlocks_eq g [] (Block.ofSource g source)
  have hnone : context [] = none := rfl
  rw [hnone] at hreading
  simp only [ofSource, hreading, blockwise, Reading.problems, missing_eq]
  simp

/-- Problems of endpoint blocks are counted among these alone. -/
theorem countP_blockwise {q : Problem → Bool} (hq : ∀ p, p.isMalformed = false → q p = false)
    (g : Grammar) (file : Text) (bs : List Block) :
    (blockwise g file bs).diagnostics.countP (fun d => q d.problem) =
      (((placed [] bs).filterMap result?).filterMap fault?).countP q := by
  have hmissing : (missing bs).countP q = 0 :=
    List.countP_eq_zero.2 fun p hp => by simp [hq p (not_isMalformed_of_mem_missing hp)]
  have hwarnings : ((bs.filter fun b => b.kind = .model).flatMap (Model.warnings g)).countP q =
      0 := by
    rw [List.countP_eq_zero]
    intro p hp
    obtain ⟨b, -, hb⟩ := List.mem_flatMap.1 hp
    simp [hq p (not_isMalformed_of_mem_warnings hb)]
  rw [blockwise, List.countP_map, List.countP_append, List.countP_append]
  simp only [Function.comp_def]
  rw [hmissing, hwarnings, Nat.add_zero]

theorem countP_isMalformed_blockwise (g : Grammar) (file : Text) (bs : List Block) :
    (blockwise g file bs).diagnostics.countP (·.problem.isMalformed) =
      (((placed [] bs).filterMap result?).filterMap fault?).length := by
  rw [countP_blockwise fun _ h => h, List.countP_eq_length]
  exact fun p hp => isMalformed_of_mem_faults hp

/-- The reading of a source in terms of its blocks: the records and problems of each kind, in order;
the account of every endpoint block; and the independence of the blocks from each other. -/
theorem ofSource_blockwise (g : Grammar) (file source : Text) :
    let docs := ofSource g file source
    let bs := Block.ofSource g source
    docs = blockwise g file bs ∧
    bs.countP (fun b => b.kind = .endpoint) =
      docs.endpoints.length + docs.diagnostics.countP (·.problem.isMalformed) +
        (orphans bs).length ∧
    docs = ofReading file ((records g bs).foldr Reading.append Reading.empty) ∧
    ∀ (above : List Block) (b c : Block) (below : List Block), bs = above ++ b :: below →
      c.kind = b.kind → (b.kind = .resource → Resource.ofBlock c = Resource.ofBlock b) →
      records g (above ++ c :: below) = (records g bs).set above.length (record g (above, c)) := by
  intro docs bs
  have hdocs : docs = blockwise g file bs := ofSource_eq_blockwise g file source
  refine ⟨hdocs, ?_, ?_, ?_⟩
  · rw [hdocs, countP_isMalformed_blockwise, countP_endpoint [] bs, length_results]
    rfl
  · exact congrArg (ofReading file) (ofBlocks_eq_foldr g [] bs)
  · rintro above b c below hbs hkind hres
    rw [hbs]
    exact records_change g above below hkind hres

end DocTags.Docs
