import DocTags.Proofs.Block.Lines
import DocTags.Proofs.Docs.Coverage
import DocTags.Proofs.Line.Mentions
import Mathlib.Data.List.Nodup

/-!
Where problems point. Every problem of a source has the number of one of its lines, and that line is
the one to look at: the line that keeps an endpoint block from being read, the first line of a block
that lacks a resource, or the line of a model that mentions a parameter tag. A block is told of for
one such line at most.
-/

namespace DocTags

namespace Problem

/-- The number of the line that a problem tells of. -/
def line? : Problem → Option Nat
  | malformedPath n _ | malformedParameter n _ | malformedResponse n => some n
  | missingResource n | ambiguousModel n _ => some n
  | unreadable _ _ | unlisted _ _ | duplicateOperation _ _ => none

/-- The problem is one of a line that belongs to the block, and of what stands on that line. -/
def isFaultOf (b : Block) (p : Problem) : Bool :=
  p.isMalformed && b.lines.any fun l => p.line? = some l.number

/-- Line `n` has the tag, and it belongs to an endpoint block that no endpoint comes from. -/
def Spoils (g : Grammar) (source : Text) (tag : Tag) (n : Nat) : Prop :=
  Block.IsTagged g source tag n ∧
  ∃ above b below, Block.ofSource g source = above ++ b :: below ∧ b.kind = .endpoint ∧
    (Reading.record g (above, b)).endpoints = [] ∧ ∃ l ∈ b.lines, l.number = n

/-- What stands on the line that a problem points at, and in which block. -/
inductive PointsAt (g : Grammar) (source : Text) : Problem → Prop where
  | malformedPath {n : Nat} {fault : PathFault} (spoils : Spoils g source .path n) :
      PointsAt g source (.malformedPath n fault)
  | malformedParameter {n : Nat} {fault : ParameterFault} (spoils : Spoils g source .parameter n) :
      PointsAt g source (.malformedParameter n fault)
  | malformedResponse {n : Nat} (spoils : Spoils g source .response n) :
      PointsAt g source (.malformedResponse n)
  | missingResource {above below : List Block} {b : Block} {l : CommentLine}
      {lower : List CommentLine} (blocks_eq : Block.ofSource g source = above ++ b :: below)
      (kind : b.kind = .endpoint) (path : b.has .path = true)
      (above_kind : ∀ a ∈ above, a.kind ≠ .resource) (lines_eq : b.lines = l :: lower) :
      PointsAt g source (.missingResource l.number)
  | ambiguousModel {b : Block} {upper lower : List CommentLine} {m l : CommentLine} {marker : Text}
      (mem : b ∈ Block.ofSource g source) (kind : b.kind = .model)
      (lines_eq : b.lines = upper ++ m :: lower) (model : m.has .model = true)
      (first : ∀ k ∈ upper, k.has .model = false) (below : l ∈ lower) (after : m.number < l.number)
      (spelling : marker ∈ g.parameter) (marker_ne : marker ≠ []) (mentioned : marker <:+: l.text) :
      PointsAt g source (.ambiguousModel l.number (Model.ofBlock b).name)

theorem LiesIn.exists_line {lines : List CommentLine} {p : Problem} (h : p.LiesIn lines) :
    ∃ l ∈ lines, p.line? = some l.number := by
  cases p with
  | malformedPath | malformedParameter | malformedResponse =>
      obtain ⟨l, hl, rfl, -⟩ := h
      exact ⟨l, hl, rfl⟩
  | unreadable | unlisted | missingResource | ambiguousModel | duplicateOperation => exact h.elim

end Problem

namespace Reading

variable {g : Grammar} {source : Text}

/-! ### Endpoint blocks that can not be read -/

theorem endpoints_record_of_error {place : List Block × Block} {p : Problem}
    (h : result? place = some (.error p)) : (record g place).endpoints = [] := by
  unfold result? at h
  split at h
  · next hk =>
      obtain ⟨r, hr, he⟩ := Option.map_eq_some_iff.1 h
      simp [record, ofBlocks, hk, hr, he, pushEndpoint, empty]
  · cases h

theorem kind_of_result? {place : List Block × Block} {result : Except Problem Endpoint}
    (h : result? place = some result) : place.2.kind = .endpoint := by
  unfold result? at h
  split at h
  · assumption
  · cases h

theorem spoils_of_result?_error {place : List Block × Block}
    (hplace : place ∈ placed [] (Block.ofSource g source)) {p : Problem}
    (h : result? place = some (.error p)) {l : CommentLine} (hl : l ∈ place.2.lines) {tag : Tag}
    (htag : l.has tag = true) : Problem.Spoils g source tag l.number := by
  obtain ⟨below, hsplit⟩ := exists_of_mem_placed hplace
  rw [List.nil_append] at hsplit
  have hmem := snd_mem_of_mem_placed hplace
  exact ⟨Block.isTagged_of_mem hmem hl htag, place.1, place.2, below, hsplit, kind_of_result? h,
    endpoints_record_of_error h, l, hl, rfl⟩

theorem pointsAt_of_result?_error {place : List Block × Block}
    (hplace : place ∈ placed [] (Block.ofSource g source)) {p : Problem}
    (h : result? place = some (.error p)) : p.PointsAt g source := by
  have hlies := liesIn_of_result?_error h
  cases p with
  | malformedPath n fault =>
      obtain ⟨l, hl, rfl, htag⟩ := hlies
      exact .malformedPath (spoils_of_result?_error hplace h hl htag)
  | malformedParameter n fault =>
      obtain ⟨l, hl, rfl, htag⟩ := hlies
      exact .malformedParameter (spoils_of_result?_error hplace h hl htag)
  | malformedResponse n =>
      obtain ⟨l, hl, rfl, htag⟩ := hlies
      exact .malformedResponse (spoils_of_result?_error hplace h hl htag)
  | unreadable | unlisted | missingResource | ambiguousModel | duplicateOperation =>
      exact hlies.elim

/-- A problem that has a line of a block comes from that block. -/
theorem eq_of_isFaultOf {place : List Block × Block}
    (hplace : place ∈ placed [] (Block.ofSource g source)) {p : Problem}
    (h : result? place = some (.error p)) {b : Block} (hb : b ∈ Block.ofSource g source)
    (hfault : p.isFaultOf b = true) : place.2 = b := by
  obtain ⟨l, hl, hline⟩ := (liesIn_of_result?_error h).exists_line
  rw [Problem.isFaultOf, Bool.and_eq_true, List.any_eq_true] at hfault
  obtain ⟨-, m, hm, hnumber⟩ := hfault
  rw [hline, decide_eq_true_eq, Option.some.injEq] at hnumber
  exact Block.eq_of_number_eq (snd_mem_of_mem_placed hplace) hb hl hm hnumber

/-! ### Blocks without a resource, and models -/

theorem pointsAt_of_mem_missing {p : Problem} (h : p ∈ missing (Block.ofSource g source)) :
    p.PointsAt g source := by
  rw [missing_eq] at h
  obtain ⟨n, hn, rfl⟩ := List.mem_map.1 h
  obtain ⟨b, hb, rfl⟩ := Option.map_eq_some_iff.1 (Option.mem_toList.1 hn)
  obtain ⟨hk, above, below, hsplit, habove⟩ := exists_of_mem_orphans (List.mem_of_mem_head? hb)
  obtain ⟨l, lower, hlines⟩ := List.exists_cons_of_ne_nil
    ((Block.isPartition_ofSource g source).runs b (by simp [hsplit])).ne_nil
  have hstart : b.startLine = l.number := by simp [Block.startLine, hlines]
  rw [hstart]
  exact .missingResource hsplit hk (has_path_of_kind hk) habove hlines

theorem pointsAt_of_mem_warnings {b : Block} (hb : b ∈ Block.ofSource g source)
    (hk : b.kind = .model) {p : Problem} (h : p ∈ Model.warnings g b) : p.PointsAt g source := by
  unfold Model.warnings at h
  split at h
  · cases h
  · next upper m lower hsome =>
      obtain ⟨l, hl, rfl⟩ := List.mem_map.1 h
      obtain ⟨hl, hmentions⟩ := List.mem_filter.1 hl
      obtain ⟨marker, hmarker, hne, hinfix⟩ := Grammar.mentions_iff.1 hmentions
      obtain ⟨hlines, hm, hupper⟩ := Block.splitAt?_eq_some hsome
      have hname : Text.trim m.rest = (Model.ofBlock b).name := by simp [Model.ofBlock, hsome]
      have hrising := (Block.pairwise_number_ofSource g source).1 b hb
      rw [hlines] at hrising
      have hafter := (List.pairwise_cons.1 (List.pairwise_append.1 hrising).2.1).1 l hl
      rw [hname]
      exact .ambiguousModel hb hk hlines hm hupper hl hafter hmarker hne hinfix

end Reading

namespace Problem

variable {g : Grammar} {source : Text} {p : Problem}

theorem Spoils.number_bounds {tag : Tag} {n : Nat} (h : Spoils g source tag n) :
    1 ≤ n ∧ n ≤ (Text.lines source).length := by
  obtain ⟨-, above, b, below, hsplit, -, -, l, hl, rfl⟩ := h
  have hb : b ∈ Block.ofSource g source := by simp [hsplit]
  exact Block.number_of_mem hb hl

theorem PointsAt.exists_line (h : p.PointsAt g source) :
    ∃ n ∈ p.line?, 1 ≤ n ∧ n ≤ (Text.lines source).length := by
  cases h with
  | malformedPath spoils | malformedParameter spoils | malformedResponse spoils =>
      exact ⟨_, rfl, spoils.number_bounds⟩
  | @missingResource _ _ b l _ hsplit _ _ _ hlines =>
      have hb : b ∈ Block.ofSource g source := by simp [hsplit]
      exact ⟨_, rfl, Block.number_of_mem hb (by simp [hlines])⟩
  | @ambiguousModel b _ _ _ l _ hb _ hlines _ _ hl =>
      exact ⟨_, rfl, Block.number_of_mem hb (by simp [hlines, hl])⟩

theorem isFaultOf_eq_false {b : Block} (h : p.isMalformed = false) : p.isFaultOf b = false := by
  simp [isFaultOf, h]

end Problem

namespace Docs

open Reading

theorem pointsAt_of_mem_diagnostics {g : Grammar} {file source : Text} {d : Diagnostic}
    (h : d ∈ (ofSource g file source).diagnostics) :
    d.file = file ∧ d.problem.PointsAt g source := by
  rw [ofSource_eq_blockwise] at h
  obtain ⟨p, hp, rfl⟩ := List.mem_map.1 h
  refine ⟨rfl, ?_⟩
  rcases List.mem_append.1 hp with hp | hp
  · rcases List.mem_append.1 hp with hp | hp
    · obtain ⟨r, hr, hfault⟩ := List.mem_filterMap.1 hp
      obtain ⟨place, hplace, hresult⟩ := List.mem_filterMap.1 hr
      cases r with
      | ok e => cases hfault
      | error q =>
          obtain rfl : q = p := by simpa [fault?] using hfault
          exact pointsAt_of_result?_error hplace hresult
    · exact pointsAt_of_mem_missing hp
  · obtain ⟨b, hb, hwarning⟩ := List.mem_flatMap.1 hp
    obtain ⟨hb, hk⟩ := List.mem_filter.1 hb
    exact pointsAt_of_mem_warnings hb (by simpa using hk) hwarning

/-- What can not be read of a block is told once, and no other block is told of by it. -/
theorem countP_isFaultOf_le_one (g : Grammar) (file source : Text) {b : Block}
    (hb : b ∈ Block.ofSource g source) :
    (ofSource g file source).diagnostics.countP (·.problem.isFaultOf b) ≤ 1 := by
  have hown : ∀ place ∈ placed [] (Block.ofSource g source),
      (((result? place).bind fault?).map (·.isFaultOf b)).getD false = true →
        (place.2 == b) = true := by
    intro place hplace hfault
    cases hresult : result? place with
    | none => simp [hresult] at hfault
    | some r =>
        cases r with
        | ok e => simp [hresult, fault?] at hfault
        | error p =>
            have hfault : p.isFaultOf b = true := by simpa [hresult, fault?] using hfault
            exact beq_iff_eq.2 (eq_of_isFaultOf hplace hresult hb hfault)
  have hnodup := List.nodup_iff_count_le_one.1 (Block.nodup_ofSource g source) b
  rw [ofSource_eq_blockwise, countP_blockwise fun _ => Problem.isFaultOf_eq_false,
    List.filterMap_filterMap, List.countP_filterMap]
  calc
    _ ≤ (placed [] (Block.ofSource g source)).countP (·.2 == b) := List.countP_mono_left hown
    _ = ((placed [] (Block.ofSource g source)).map Prod.snd).count b := by
        rw [List.count_eq_countP, List.countP_map]
        rfl
    _ ≤ 1 := by rwa [map_snd_placed]

theorem endpoints_ofSource_eq_flatMap (g : Grammar) (file source : Text) :
    (ofSource g file source).endpoints =
      (records g (Block.ofSource g source)).flatMap (·.endpoints) := by
  have hfoldr (rs : List Reading) :
      (rs.foldr Reading.append Reading.empty).endpoints = rs.flatMap (·.endpoints) := by
    induction rs with
    | nil => rfl
    | cons r rs ih => rw [List.foldr_cons, List.flatMap_cons, ← ih, Reading.append]
  rw [← hfoldr]
  exact congrArg Reading.endpoints (ofBlocks_eq_foldr g [] (Block.ofSource g source))

/-- Every problem of a source is told of with the number of one of its lines, and points at the line
that causes it: the tag that can not be read, in an endpoint block that is left out; the start of the
first block that lacks a resource; a line of a model that mentions a parameter tag. The endpoints are
those that the blocks say one by one, and of a block that is left out one line is told. -/
theorem diagnostics_pointAt (g : Grammar) (file source : Text) :
    let docs := ofSource g file source
    let bs := Block.ofSource g source
    (∀ d ∈ docs.diagnostics, d.file = file ∧ d.problem.PointsAt g source ∧
      ∃ n ∈ d.problem.line?, 1 ≤ n ∧ n ≤ (Text.lines source).length) ∧
    docs.endpoints = (records g bs).flatMap (·.endpoints) ∧
    ∀ b ∈ bs, docs.diagnostics.countP (·.problem.isFaultOf b) ≤ 1 := by
  intro docs bs
  refine ⟨fun d hd => ?_, endpoints_ofSource_eq_flatMap g file source,
    fun b hb => countP_isFaultOf_le_one g file source hb⟩
  obtain ⟨hfile, hpoints⟩ := pointsAt_of_mem_diagnostics hd
  exact ⟨hfile, hpoints, hpoints.exists_line⟩

end Docs
end DocTags
