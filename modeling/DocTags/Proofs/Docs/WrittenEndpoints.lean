import DocTags.Docs
import DocTags.Proofs.Endpoint.RoundTrip

/-!
Sources that are written from a resource and its endpoints. They are read as these endpoints, in
their order, without a problem.
-/

namespace DocTags

open Grammar (standard)

namespace Resource

structure Expressible (r : Resource) : Prop where
  name : r.name.IsLine
  description : ∀ s ∈ Text.linesOf r.description, s.IsProse

def comments (r : Resource) : List Comment :=
  .tagged .resource r.name :: (Text.linesOf r.description).map .prose

variable {r : Resource} {b : Block} {sp : Spelling}

theorem Expressible.valid_comments (h : r.Expressible) : ∀ c ∈ r.comments, c.Valid := by
  intro c hc
  rcases List.mem_cons.1 hc with rfl | hc
  · exact ⟨by decide, h.name.line⟩
  · obtain ⟨s, hs, rfl⟩ := List.mem_map.1 hc
    exact h.description s hs

theorem kind_of_isMadeOf (hb : b.IsMadeOf sp r.comments) : b.kind = .resource := by
  have hresource : b.has .resource = true := by
    rw [hb.has (by decide)]
    rfl
  simp [Block.kind, hresource]

theorem Expressible.ofBlock (h : r.Expressible) (hb : b.IsMadeOf sp r.comments) :
    Resource.ofBlock b = r := by
  have hfirst : b.IsMadeOf sp
      ([] ++ .tagged .resource r.name :: (Text.linesOf r.description).map .prose) := hb
  obtain ⟨n, before, l, hsplit, hrest, -⟩ := hfirst.splitAt? (by decide) rfl (by simp)
  have hvalid : ∀ c ∈ (Text.linesOf r.description).map Comment.prose, c.Valid := fun c hc =>
    h.valid_comments c (List.mem_cons_of_mem _ hc)
  rw [Resource.ofBlock, hsplit]
  simp only [hrest, Text.trim_eq_self h.name.isTrimmed, CommentLine.prose,
    CommentLine.filterMap_prose?_ofComments n hvalid, Comment.filterMap_prose?_prose,
    Text.joinLines_linesOf]

end Resource

namespace Reading

variable {resource : Resource} {es : List Endpoint} {arrange : Endpoint → List Passage}
  {sp : Spelling} {bs : List Block}

theorem ofBlocks_endpoints
    (hes : ∀ e ∈ es, e.resource = resource ∧ e.Expressible ∧ e.Arranges (arrange e))
    (hbs : List.Forall₂ (fun b e => b.IsMadeOf sp (e.comments (arrange e))) bs es) :
    ofBlocks standard (some resource) bs = { empty with endpoints := es } := by
  induction hbs with
  | nil => rfl
  | @cons b e bs es hb _ ih =>
      obtain ⟨hresource, he, harrange⟩ := hes e List.mem_cons_self
      have hread := he.ofBlock harrange hb
      rw [hresource] at hread
      rw [ofBlocks, harrange.kind hb]
      simp only [pushEndpoint, hread, ih fun f hf => hes f (List.mem_cons_of_mem e hf)]

end Reading

namespace Docs

/-- A resource and its endpoints as they are written: the block of the resource, then for each
endpoint some blank lines and its block. -/
def endpointSource (sp : Spelling) (gap : Nat) (resource : Resource)
    (arrange : Endpoint → List Passage) (es : List Endpoint) : Text :=
  WrittenBlock.source (.ofComments 0 sp resource.comments ::
    es.map fun e => .ofComments gap sp (e.comments (arrange e)))

/-- Endpoints come back from their source, whatever spellings it has and in what order the parts of
an endpoint are written. -/
theorem ofSource_endpointSource (file : Text) (sp : Spelling) (gap : Nat) {resource : Resource}
    {arrange : Endpoint → List Passage} {es : List Endpoint} (hresource : resource.Expressible)
    (hes : ∀ e ∈ es, e.resource = resource ∧ e.Expressible ∧ e.Arranges (arrange e)) :
    ofSource standard file (endpointSource sp gap resource arrange es) = ⟨es, [], []⟩ := by
  have hvalid : ∀ part ∈ (0, resource.comments) ::
      es.map fun e => (gap, e.comments (arrange e)), ∀ c ∈ part.2, c.Valid := by
    intro part hpart
    rcases List.mem_cons.1 hpart with rfl | hpart
    · exact hresource.valid_comments
    · obtain ⟨e, he, rfl⟩ := List.mem_map.1 hpart
      exact (hes e he).2.1.valid_comments (hes e he).2.2
  have hblocks := Block.forall₂_isMadeOf sp hvalid
  have hsource : (((0, resource.comments) :: es.map fun e => (gap, e.comments (arrange e))).map
      fun part => WrittenBlock.ofComments part.1 sp part.2) =
        .ofComments 0 sp resource.comments ::
          es.map fun e => .ofComments gap sp (e.comments (arrange e)) := by
    simp
  rw [hsource, ← endpointSource] at hblocks
  obtain ⟨b, bs, hb, hbs, hall⟩ := List.forall₂_cons_right_iff.1 hblocks
  rw [List.forall₂_map_right_iff] at hbs
  have hread : Reading.ofBlocks standard none (b :: bs) =
      { Reading.empty with endpoints := es } := by
    rw [Reading.ofBlocks, Resource.kind_of_isMadeOf hb]
    simp only [hresource.ofBlock hb]
    exact Reading.ofBlocks_endpoints hes hbs
  rw [ofSource, hall, hread]
  rfl

/-- An endpoint with marks, brackets and tags in its texts. -/
def petEndpoint : Endpoint where
  resource := ⟨"Pets".toList, "All [pets]\nand (their) owners".toList⟩
  path := "/pets/{id} [draft]".toList
  operation := {
    verb := .get
    description := "Reads one pet.\nSee @path and ## below.".toList
    summary := some "One (pet)".toList
    operationId := none
    parameters := [
      ⟨"id".toList, .path, "integer".toList, "@response [of] the (pet)\nand no other".toList, true⟩,
      ⟨"dry run".toList, .query, [], [], false⟩]
    responses := [⟨"200".toList, "the [pet]".toList⟩, ⟨"404".toList, []⟩]
    responseType := some "Pet".toList
    requestSample := none
    responseSample := some "@summary: 1".toList }

theorem ofSource_endpointSource_pet :
    petEndpoint.resource.Expressible ∧ petEndpoint.Expressible ∧
      ofSource standard [] (endpointSource .first 1 petEndpoint.resource Endpoint.passages
        [petEndpoint]) = ⟨[petEndpoint], [], []⟩ := by
  have hresource : petEndpoint.resource.Expressible := ⟨by decide, by decide⟩
  have hparameters : ∀ p ∈ petEndpoint.operation.parameters, p.Expressible := by
    rintro p (_ | ⟨_, _ | ⟨_, _ | _⟩⟩)
    · exact ⟨fun _ => rfl, by decide, by decide, by decide, by decide, by decide, by decide,
        by decide⟩
    · exact ⟨fun h => (nomatch h), by decide, by decide, by decide, by decide, by decide,
        by decide, by decide⟩
  have hresponses : ∀ r ∈ petEndpoint.operation.responses, r.Expressible := by
    rintro r (_ | ⟨_, _ | ⟨_, _ | _⟩⟩)
    · exact ⟨⟨by decide, by decide⟩, by decide⟩
    · exact ⟨⟨by decide, by decide⟩, by decide⟩
  have he : petEndpoint.Expressible :=
    ⟨by decide, by decide, by decide, by decide, hparameters, hresponses, by decide, by decide,
      by decide⟩
  refine ⟨hresource, he, ofSource_endpointSource [] .first 1 hresource ?_⟩
  intro e hmem
  obtain rfl := List.mem_singleton.1 hmem
  exact ⟨rfl, he, petEndpoint.arranges_passages⟩

end Docs
end DocTags
