import DocTags.Proofs.Docs.Blockwise

/-!
No documented operation gets lost silently. A block with a path line that is read as an endpoint
block leaves an endpoint or a problem behind. A resource line takes precedence over a path line, so
that a block with both is a resource block and its path line is commentary.
-/

namespace DocTags.Docs

open Reading

/-- The endpoint of a block is kept, or a problem tells of a line of the block, or no resource block
stands above it and a problem tells of that. -/
def Accounts (d : Docs) (file : Text) (above : List Block) (b : Block) : Prop :=
  (∃ r e, context above = some r ∧ Endpoint.ofBlock r b = .ok e ∧ e ∈ d.endpoints) ∨
  (∃ p : Problem, ⟨file, p⟩ ∈ d.diagnostics ∧ p.LiesIn b.lines) ∨
  (context above = none ∧ ∃ line, ⟨file, .missingResource line⟩ ∈ d.diagnostics)

theorem mem_placed (above : List Block) (b : Block) (below : List Block) :
    (above, b) ∈ placed [] (above ++ b :: below) := by
  simp [placed_append, placed]

theorem missing_of_context_eq_none {above : List Block} {b : Block} (below : List Block)
    (hk : b.kind = .endpoint) (hc : context above = none) :
    ∃ line, .missingResource line ∈ missing (above ++ b :: below) := by
  have habove : ∀ a ∈ above, a.kind ≠ .resource := by
    simpa [context] using hc
  have hne : orphans (above ++ b :: below) ≠ [] := List.ne_nil_of_mem (mem_orphans habove hk below)
  cases hfirst : (above ++ b :: below).find? fun c => c.kind = .endpoint with
  | none =>
      have hb := List.find?_eq_none.1 hfirst b (by simp)
      simp [hk] at hb
  | some c => exact ⟨c.startLine, by simp [missing, hne, hfirst]⟩

theorem accounts_of_kind_endpoint (g : Grammar) (file source : Text) (above : List Block)
    (b : Block) (below : List Block) (hb : Block.ofSource g source = above ++ b :: below)
    (hk : b.kind = .endpoint) : (ofSource g file source).Accounts file above b := by
  have hmem := mem_placed above b below
  rw [ofSource_eq_blockwise, hb]
  cases hc : context above with
  | none =>
      obtain ⟨line, hline⟩ := missing_of_context_eq_none below hk hc
      exact .inr (.inr ⟨hc, line, List.mem_map_of_mem (by simp [hline])⟩)
  | some r =>
      have hresult : result? (above, b) = some (Endpoint.ofBlock r b) := by
        simp [result?, hk, hc]
      cases he : Endpoint.ofBlock r b with
      | ok e =>
          rw [he] at hresult
          have hok := List.mem_filterMap.2 ⟨_, hmem, hresult⟩
          exact .inl ⟨r, e, hc, he, List.mem_filterMap.2 ⟨_, hok, rfl⟩⟩
      | error p =>
          rw [he] at hresult
          have herror := List.mem_filterMap.2 ⟨_, hmem, hresult⟩
          have hfault := List.mem_filterMap.2 ⟨_, herror, (rfl : fault? (.error p) = some p)⟩
          refine .inr (.inl ⟨p, List.mem_map_of_mem ?_, liesIn_of_result?_error hresult⟩)
          exact List.mem_append_left _ (List.mem_append_left _ hfault)

/-- A block with a path line is accounted for, unless it also has a resource line: then it is the
resource of the blocks below it and nothing else. -/
theorem accounts_of_has_path (g : Grammar) (file source : Text) (above : List Block)
    (b : Block) (below : List Block) (hb : Block.ofSource g source = above ++ b :: below)
    (hpath : b.has .path = true) :
    (b.has .resource = false → (ofSource g file source).Accounts file above b) ∧
    (b.has .resource = true →
      record g (above, b) = Reading.empty ∧
      context (above ++ [b]) = some (Resource.ofBlock b)) := by
  refine ⟨fun hres => ?_, fun hres => ?_⟩
  · have hk : b.kind = .endpoint := by simp [Block.kind, hpath, hres]
    exact accounts_of_kind_endpoint g file source above b below hb hk
  · have hk : b.kind = .resource := by simp [Block.kind, hres]
    exact ⟨by simp [record, ofBlocks, hk], by simp [context_concat, hk]⟩

/-- A block that also has a model line, and a parameter that can not be read. -/
theorem accounts_of_has_path_model_and_bad_parameter :
    (ofSource .standard "api.rb".toList
      "##\n# @resource R\n##\n# @model M\n# @path [GET] /r\n# @parameter x (cookie)".toList).Accounts
        "api.rb".toList
        [⟨[⟨1, some .blockStart, [], []⟩,
          ⟨2, some .resource, "@resource R".toList, "R".toList⟩]⟩]
        ⟨[⟨3, some .blockStart, [], []⟩,
          ⟨4, some .model, "@model M".toList, "M".toList⟩,
          ⟨5, some .path, "@path [GET] /r".toList, "[GET] /r".toList⟩,
          ⟨6, some .parameter, "@parameter x (cookie)".toList, "x (cookie)".toList⟩]⟩ :=
  (accounts_of_has_path .standard _ _ _ _ [] (by decide) (by decide)).1 (by decide)

/-- A source with a resource line and a path line in its last block. -/
def resourceAndPath : Text :=
  "##\n# @resource Widgets\n\n##\n# @resource Gadgets\n# @path [GET] /gadgets\n".toList

/-- The precedence of resource lines leaves a path line without an account. -/
theorem path_beside_resource_not_accounted :
    ∃ above b, Block.ofSource .standard resourceAndPath = above ++ [b] ∧ b.has .path = true ∧
      ofSource .standard "api.rb".toList resourceAndPath = Docs.empty ∧
      ¬(ofSource .standard "api.rb".toList resourceAndPath).Accounts "api.rb".toList above b := by
  have hdocs : ofSource .standard "api.rb".toList resourceAndPath = Docs.empty := by decide
  refine ⟨[⟨[⟨1, some .blockStart, [], []⟩,
      ⟨2, some .resource, "@resource Widgets".toList, "Widgets".toList⟩]⟩],
    ⟨[⟨4, some .blockStart, [], []⟩,
      ⟨5, some .resource, "@resource Gadgets".toList, "Gadgets".toList⟩,
      ⟨6, some .path, "@path [GET] /gadgets".toList, "[GET] /gadgets".toList⟩]⟩,
    by decide, by decide, hdocs, ?_⟩
  rw [hdocs]
  rintro (⟨_, _, _, _, h⟩ | ⟨_, h, _⟩ | ⟨_, _, h⟩) <;> exact absurd h List.not_mem_nil

end DocTags.Docs
