import DocTags.Proofs.Docs.Reading

/-!
What a resource reaches. Of the resource that stands above a list of blocks only the endpoint blocks
above its first resource block take notice; everything else of the reading is the same under every
resource, and without one.
-/

namespace DocTags.Reading

theorem append_assoc (r s t : Reading) : (r.append s).append t = r.append (s.append t) := by
  simp [append, Option.or_assoc]

theorem ofBlocks_append (g : Grammar) (above bs cs : List Block) :
    ofBlocks g (context above) (bs ++ cs) =
      (ofBlocks g (context above) bs).append (ofBlocks g (context (above ++ bs)) cs) := by
  induction bs generalizing above with
  | nil => simp [ofBlocks, append, empty]
  | cons b bs ih =>
      rw [List.cons_append, ofBlocks_cons, ih, ofBlocks_cons, append_assoc, List.append_assoc,
        List.singleton_append]

/-- Every endpoint block has a resource block above it. -/
def Settled (bs : List Block) : Prop :=
  ∀ above b below, bs = above ++ b :: below → b.kind = .endpoint →
    ∃ c ∈ above, c.kind = .resource

theorem orphans_eq_nil_iff (bs : List Block) : orphans bs = [] ↔ Settled bs := by
  constructor
  · intro h above b below hbs hk
    by_contra hnone
    have habove : ∀ c ∈ above, c.kind ≠ .resource := fun c hc hres => hnone ⟨c, hc, hres⟩
    have hb := mem_orphans habove hk below
    rw [← hbs, h] at hb
    cases hb
  · intro h
    rw [List.eq_nil_iff_forall_not_mem]
    intro b hb
    obtain ⟨hk, above, below, hbs, habove⟩ := exists_of_mem_orphans hb
    obtain ⟨c, hc, hres⟩ := h above b below hbs hk
    exact habove c hc hres

theorem orphan_ofBlocks_some (g : Grammar) (resource : Resource) (bs : List Block) :
    (ofBlocks g (some resource) bs).orphan = none := by
  induction bs generalizing resource with
  | nil => rfl
  | cons b bs ih =>
      rw [ofBlocks]
      cases b.kind with
      | resource | model | commentary => exact ih _
      | endpoint => cases he : Endpoint.ofBlock resource b <;> simp [pushEndpoint, he, ih]

/-- Of the resource above a list of blocks only the orphans among them take notice. -/
theorem ofBlocks_eq_of_orphans (g : Grammar) (resource : Option Resource) (bs : List Block) :
    ofBlocks g resource bs =
      { ofBlocks g none bs with
        endpoints := (ofBlocks g resource (orphans bs)).endpoints ++ (ofBlocks g none bs).endpoints
        faults := (ofBlocks g resource (orphans bs)).faults ++ (ofBlocks g none bs).faults
        orphan := (ofBlocks g resource (orphans bs)).orphan } := by
  induction bs with
  | nil => rfl
  | cons b bs ih =>
      rw [orphans_cons]
      cases hk : b.kind with
      | resource =>
          -- from here on both readings are in the context of this block
          have horphan := orphan_ofBlocks_some g (Resource.ofBlock b) bs
          simp [ofBlocks, hk, empty, ← horphan]
      | model =>
          simp only [ofBlocks, hk]
          rw [ih]
          rfl
      | commentary => simpa only [ofBlocks, hk] using ih
      | endpoint =>
          simp only [ofBlocks, hk]
          rw [ih]
          cases resource with
          | none => rfl
          | some resource => cases he : Endpoint.ofBlock resource b <;> simp [pushEndpoint, he]

/-- The endpoints of blocks that all document endpoints. -/
theorem endpoints_ofBlocks_orphans (g : Grammar) (resource : Option Resource) (bs : List Block) :
    (ofBlocks g resource (orphans bs)).endpoints =
      (orphans bs).filterMap fun b =>
        resource.bind fun resource => (Endpoint.ofBlock resource b).toOption := by
  induction bs with
  | nil => rfl
  | cons b bs ih =>
      rw [orphans_cons]
      cases hk : b.kind with
      | resource => rfl
      | model | commentary => exact ih
      | endpoint =>
          simp only [ofBlocks, hk, List.filterMap_cons, ← ih]
          cases resource with
          | none => rfl
          | some resource =>
              cases he : Endpoint.ofBlock resource b <;>
                simp [pushEndpoint, he, Except.toOption]

theorem orphan_ofBlocks_none (g : Grammar) {bs : List Block} (h : orphans bs = []) :
    (ofBlocks g none bs).orphan = none := by
  rw [ofBlocks_eq_of_orphans, h]
  rfl

end DocTags.Reading
