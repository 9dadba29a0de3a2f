import DocTags.Proofs.Docs.Orphans
import DocTags.Proofs.Docs.Renumber

/-!
Two sources in one file, with an empty line between them. The blocks are those of both sources, and
of what stands above the empty line only the resource reaches below it. It does not matter how the
upper source ends, whether in a block or behind a line break.
-/

namespace DocTags

namespace Problem

def isMissing : Problem → Bool
  | missingResource _ => true
  | _ => false

def isAmbiguous : Problem → Bool
  | ambiguousModel _ _ => true
  | _ => false

theorem isMissing_of_isMalformed {p : Problem} (h : p.isMalformed = true) :
    p.isMissing = false := by
  cases p <;> simp_all [isMalformed, isMissing]

theorem isAmbiguous_of_isMalformed {p : Problem} (h : p.isMalformed = true) :
    p.isAmbiguous = false := by
  cases p <;> simp_all [isMalformed, isAmbiguous]

theorem isMissing_of_isAmbiguous {p : Problem} (h : p.isAmbiguous = true) :
    p.isMissing = false := by
  cases p <;> simp_all [isAmbiguous, isMissing]

end Problem

/-- The diagnostics about problems of one kind. -/
def Docs.diagnosticsOf (kind : Problem → Bool) (d : Docs) : List Diagnostic :=
  d.diagnostics.filter fun e => kind e.problem

theorem Block.ofSource_append (g : Grammar) (a b : Text) :
    ofSource g (a ++ "\n\n".toList ++ b) =
      ofSource g a ++
        (ofSource g b).map (Block.renumber (· + (a ++ "\n\n".toList).count '\n')) := by
  have hpieces : Text.pieces '\n' (a ++ "\n\n".toList ++ b) =
      Text.pieces '\n' a ++ [] :: Text.pieces '\n' b := by
    have hsource : a ++ "\n\n".toList ++ b = a ++ '\n' :: ([] ++ '\n' :: b) := by simp
    rw [hsource, Text.pieces_append, Text.pieces_append]
    rfl
  have hcount : (a ++ "\n\n".toList).count '\n' = (Text.pieces '\n' a).length + 1 := by
    rw [Text.length_pieces, List.count_append]
    rfl
  rw [ofSource_eq_ofLines_pieces, hpieces, hcount,
    ofLines_append_code (Line.classify_of_trim_eq_nil g rfl), ← ofSource_eq_ofLines_pieces,
    ← ofSource_eq_ofLines_pieces]

/-! ### Readings -/

namespace Reading

/-- Blocks and more blocks below them, with other line numbers. -/
theorem ofBlocks_append_renumber (g : Grammar) (bs cs : List Block) (f : Nat → Nat) :
    let upper := ofBlocks g none bs
    let lower := (ofBlocks g none cs).renumber f
    let adopted := (ofBlocks g (context bs) (orphans cs)).renumber f
    ofBlocks g none (bs ++ cs.map (Block.renumber f)) =
      { endpoints := upper.endpoints ++ adopted.endpoints ++ lower.endpoints
        models := upper.models ++ lower.models
        faults := upper.faults ++ adopted.faults ++ lower.faults
        orphan := upper.orphan.or adopted.orphan
        warnings := upper.warnings ++ lower.warnings } := by
  intro upper lower adopted
  have happend := ofBlocks_append g [] bs (cs.map (Block.renumber f))
  rw [List.nil_append, ofBlocks_renumber, ofBlocks_eq_of_orphans g (context bs) cs] at happend
  refine happend.trans ?_
  simp [append, renumber, upper, lower, adopted, context]

/-- Every problem of a reading is kept with those of its kind. -/
structure Sorted (r : Reading) : Prop where
  faults : ∀ p ∈ r.faults, p.isMalformed = true
  warnings : ∀ p ∈ r.warnings, p.isAmbiguous = true

theorem sorted_ofBlocks (g : Grammar) (above below : List Block) :
    (ofBlocks g (context above) below).Sorted := by
  rw [ofBlocks_eq]
  refine ⟨fun p hp => isMalformed_of_mem_faults hp, fun p hp => ?_⟩
  obtain ⟨b, -, hb⟩ := List.mem_flatMap.1 hp
  obtain ⟨line, model, rfl⟩ := exists_eq_of_mem_warnings hb
  rfl

theorem Sorted.renumber {r : Reading} (h : r.Sorted) (f : Nat → Nat) : (r.renumber f).Sorted := by
  refine ⟨fun p hp => ?_, fun p hp => ?_⟩
  · obtain ⟨q, hq, rfl⟩ := List.mem_map.1 hp
    have hkind := h.faults q hq
    cases q <;> exact hkind
  · obtain ⟨q, hq, rfl⟩ := List.mem_map.1 hp
    have hkind := h.warnings q hq
    cases q <;> exact hkind

end Reading

namespace Docs

open Reading Problem

/-! ### Diagnostics by kind -/

theorem diagnosticsOf_ofReading (kind : Problem → Bool) (file : Text) (r : Reading) :
    (ofReading file r).diagnosticsOf kind =
      (r.faults.filter kind ++ (r.orphan.toList.map missingResource).filter kind ++
        r.warnings.filter kind).map (Diagnostic.mk file) := by
  simp [diagnosticsOf, ofReading, problems, List.filter_map, Function.comp_def]

section

variable {r : Reading} (h : r.Sorted) (file : Text)
include h

theorem diagnosticsOf_isMalformed :
    (ofReading file r).diagnosticsOf isMalformed = r.faults.map (Diagnostic.mk file) := by
  have horphan : (r.orphan.toList.map missingResource).filter isMalformed = [] := by
    cases r.orphan <;> rfl
  have hwarnings : r.warnings.filter isMalformed = [] := by
    refine List.filter_eq_nil_iff.2 fun p hp hmalformed => ?_
    exact absurd (h.warnings p hp) (by simp [isAmbiguous_of_isMalformed hmalformed])
  rw [diagnosticsOf_ofReading, List.filter_eq_self.2 h.faults, horphan, hwarnings]
  simp

theorem diagnosticsOf_isMissing :
    (ofReading file r).diagnosticsOf isMissing =
      r.orphan.toList.map fun line => ⟨file, missingResource line⟩ := by
  have horphan : (r.orphan.toList.map missingResource).filter isMissing =
      r.orphan.toList.map missingResource := by
    cases r.orphan <;> rfl
  have hfaults : r.faults.filter isMissing = [] := by
    refine List.filter_eq_nil_iff.2 fun p hp => ?_
    simp [isMissing_of_isMalformed (h.faults p hp)]
  have hwarnings : r.warnings.filter isMissing = [] := by
    refine List.filter_eq_nil_iff.2 fun p hp => ?_
    simp [isMissing_of_isAmbiguous (h.warnings p hp)]
  rw [diagnosticsOf_ofReading, hfaults, horphan, hwarnings]
  simp

theorem diagnosticsOf_isAmbiguous :
    (ofReading file r).diagnosticsOf isAmbiguous = r.warnings.map (Diagnostic.mk file) := by
  have horphan : (r.orphan.toList.map missingResource).filter isAmbiguous = [] := by
    cases r.orphan <;> rfl
  have hfaults : r.faults.filter isAmbiguous = [] := by
    refine List.filter_eq_nil_iff.2 fun p hp => ?_
    simp [isAmbiguous_of_isMalformed (h.faults p hp)]
  rw [diagnosticsOf_ofReading, List.filter_eq_self.2 h.warnings, horphan, hfaults]
  simp

/-- Nothing else is among the diagnostics. -/
theorem diagnostics_ofReading :
    (ofReading file r).diagnostics =
      (ofReading file r).diagnosticsOf isMalformed ++ (ofReading file r).diagnosticsOf isMissing ++
        (ofReading file r).diagnosticsOf isAmbiguous := by
  rw [diagnosticsOf_isMalformed h, diagnosticsOf_isMissing h, diagnosticsOf_isAmbiguous h]
  simp [ofReading, problems]

theorem length_diagnosticsOf_isMissing :
    ((ofReading file r).diagnosticsOf isMissing).length ≤ 1 := by
  rw [diagnosticsOf_isMissing h]
  cases r.orphan <;> simp

end

/-- Only the first of all endpoints without a resource is told of. -/
theorem diagnostics_ofReading_or {r s t : Reading} (hr : r.Sorted) (hs : s.Sorted) (ht : t.Sorted)
    (file : Text) (es : List Endpoint) (ms : List Model) :
    (ofReading file ⟨es, ms, r.faults ++ s.faults ++ t.faults, r.orphan.or s.orphan,
        r.warnings ++ t.warnings⟩).diagnostics =
      (ofReading file r).diagnosticsOf isMalformed ++
        (ofReading file s).diagnosticsOf isMalformed ++
        (ofReading file t).diagnosticsOf isMalformed ++
        ((ofReading file r).diagnosticsOf isMissing ++
          (ofReading file s).diagnosticsOf isMissing).take 1 ++
        (ofReading file r).diagnosticsOf isAmbiguous ++
        (ofReading file t).diagnosticsOf isAmbiguous := by
  rw [diagnosticsOf_isMalformed hr, diagnosticsOf_isMalformed hs, diagnosticsOf_isMalformed ht,
    diagnosticsOf_isMissing hr, diagnosticsOf_isMissing hs, diagnosticsOf_isAmbiguous hr,
    diagnosticsOf_isAmbiguous ht]
  cases hupper : r.orphan <;> cases hadopted : s.orphan <;>
    simp [ofReading, problems]

theorem perm_diagnostics {r s : Reading} (hr : r.Sorted) (hs : s.Sorted) (hnone : s.orphan = none)
    (file : Text) :
    ((ofReading file r).diagnosticsOf isMalformed ++ (ofReading file s).diagnosticsOf isMalformed ++
      (ofReading file r).diagnosticsOf isMissing ++
      (ofReading file r).diagnosticsOf isAmbiguous ++
      (ofReading file s).diagnosticsOf isAmbiguous).Perm
        ((ofReading file r).diagnostics ++ (ofReading file s).diagnostics) := by
  have hmissing : (ofReading file s).diagnosticsOf isMissing = [] := by
    rw [diagnosticsOf_isMissing hs, hnone]
    rfl
  rw [diagnostics_ofReading hr, diagnostics_ofReading hs, hmissing, List.perm_iff_count]
  intro d
  simp only [List.count_append, List.count_nil]
  omega

/-! ### The joint -/

/-- What two sources say in one file, with an empty line between them. Endpoints of the lower source
that have no resource there get the last one of the upper source. -/
theorem ofSource_joined (g : Grammar) (file a b : Text) :
    let shift := (· + (a ++ "\n\n".toList).count '\n')
    let upper := ofSource g file a
    let lower := (ofSource g file b).renumber shift
    let resource := context (Block.ofSource g a)
    let adopted :=
      (ofReading file (ofBlocks g resource (orphans (Block.ofSource g b)))).renumber shift
    let docs := ofSource g file (a ++ "\n\n".toList ++ b)
    (Settled (Block.ofSource g b) →
      docs.endpoints = upper.endpoints ++ lower.endpoints ∧
      docs.diagnostics =
        upper.diagnosticsOf isMalformed ++ lower.diagnosticsOf isMalformed ++
          upper.diagnosticsOf isMissing ++
          upper.diagnosticsOf isAmbiguous ++ lower.diagnosticsOf isAmbiguous ∧
      docs.diagnostics.Perm (upper.diagnostics ++ lower.diagnostics)) ∧
    docs.models = upper.models ++ lower.models ∧
    docs.endpoints = upper.endpoints ++ adopted.endpoints ++ lower.endpoints ∧
    adopted.endpoints = (orphans (Block.ofSource g b)).filterMap (fun block =>
      resource.bind fun resource => (Endpoint.ofBlock resource block).toOption) ∧
    docs.diagnostics =
      upper.diagnosticsOf isMalformed ++
        adopted.diagnosticsOf isMalformed ++ lower.diagnosticsOf isMalformed ++
        (upper.diagnosticsOf isMissing ++ adopted.diagnosticsOf isMissing).take 1 ++
        upper.diagnosticsOf isAmbiguous ++ lower.diagnosticsOf isAmbiguous := by
  intro shift upper lower resource adopted docs
  have hreading := ofBlocks_append_renumber g (Block.ofSource g a) (Block.ofSource g b) shift
  rw [← Block.ofSource_append] at hreading
  have hdocs := congrArg (ofReading file) hreading
  have hupper : (ofBlocks g none (Block.ofSource g a)).Sorted := sorted_ofBlocks g [] _
  have hlower : ((ofBlocks g none (Block.ofSource g b)).renumber shift).Sorted :=
    (sorted_ofBlocks g [] _).renumber shift
  have hadopted :=
    (sorted_ofBlocks g (Block.ofSource g a) (orphans (Block.ofSource g b))).renumber shift
  have hdiagnostics := (congrArg diagnostics hdocs).trans
    (diagnostics_ofReading_or hupper hadopted hlower file _ _)
  rw [ofReading_renumber, ofReading_renumber] at hdiagnostics
  -- with every endpoint block of the lower source settled, nothing is adopted
  refine (and_iff_right_of_imp ?_).2
    ⟨congrArg models hdocs, congrArg endpoints hdocs, endpoints_ofBlocks_orphans g resource _,
      hdiagnostics⟩
  clear hdiagnostics
  intro ⟨_, hendpoints, _, hdiagnostics⟩ hsettled
  have hnone : orphans (Block.ofSource g b) = [] := (orphans_eq_nil_iff _).2 hsettled
  have hempty : adopted = Docs.empty := by
    simp only [adopted, hnone]
    rfl
  have hone : (upper.diagnosticsOf isMissing).take 1 = upper.diagnosticsOf isMissing :=
    List.take_of_length_le (length_diagnosticsOf_isMissing hupper file)
  have hnothing (kind : Problem → Bool) : Docs.empty.diagnosticsOf kind = [] := rfl
  rw [hempty, hnothing, hnothing, List.append_nil, List.append_nil, hone] at hdiagnostics
  rw [hempty] at hendpoints
  refine ⟨by simpa [Docs.empty] using hendpoints, hdiagnostics, ?_⟩
  have hperm := perm_diagnostics hupper hlower (by
    rw [Reading.renumber, orphan_ofBlocks_none g hnone, Option.map_none]) file
  rw [ofReading_renumber] at hperm
  rw [hdiagnostics]
  exact hperm

/-- The upper source ends in an endpoint block and without a line break. -/
theorem ofSource_joined_open_end :
    let a := "##\n# @resource Pets\n\n##\n# @path [GET] pets".toList
    let b := "##\n# @resource Toys\n\n##\n# @path [GET] toys\n##\n# @path".toList
    Settled (Block.ofSource .standard b) ∧
    (ofSource .standard "api.rb".toList (a ++ "\n\n".toList ++ b)).endpoints =
      (ofSource .standard "api.rb".toList a).endpoints ++
        (ofSource .standard "api.rb".toList b).endpoints := by
  intro a b
  have h : Settled (Block.ofSource .standard b) := (orphans_eq_nil_iff _).1 (by decide)
  exact ⟨h, ((ofSource_joined .standard "api.rb".toList a b).1 h).1⟩

end Docs

end DocTags
