import DocTags.Block
import Mathlib.Data.List.Chain
import Mathlib.Data.List.ReduceOption
import Mathlib.Data.List.SplitBy

/-!
How a source is cut into blocks. The blocks hold the comment lines of the source, each once and in
order, and they are as long as they can be: a cut stands where a line of code stands, or in front of
a block mark. These conditions leave no choice, so they say what the blocks of a source are.
-/

namespace DocTags.Block

/-- The comment lines of a source, numbered from line 1. -/
def commentLines (g : Grammar) (source : Text) : List CommentLine :=
  (Text.lines source).zipIdx.filterMap fun (line, i) =>
    CommentLine.ofLine? (i + 1) (Line.classify g line)

/-- Comment lines of one block follow each other, and only the first one may have the block mark. -/
structure IsRun (lines : List CommentLine) : Prop where
  ne_nil : lines ≠ []
  consecutive : lines.IsChain fun l m => m.number = l.number + 1
  unmarked : ∀ l ∈ lines.tail, l.has .blockStart = false

/-- A block has to end above another one because of a line of code between them, or because of the
block mark that the lower one begins with. -/
def Apart (g : Grammar) (source : Text) (above below : List CommentLine) : Prop :=
  (∃ l ∈ below.head?, l.has .blockStart = true) ∨
  ∃ i line, (Text.lines source)[i]? = some line ∧ Line.classify g line = .code ∧
    (∀ l ∈ above, l.number < i + 1) ∧ ∀ l ∈ below, i + 1 < l.number

/-- The conditions on the blocks of a source. -/
structure IsPartition (g : Grammar) (source : Text) (bs : List Block) : Prop where
  lines_eq : bs.flatMap (·.lines) = commentLines g source
  runs : ∀ b ∈ bs, IsRun b.lines
  apart : bs.IsChain fun b c => Apart g source b.lines c.lines

/-! ### Uniqueness -/

/-- Whether a comment line continues the block of the line above it. -/
def continues (l m : CommentLine) : Bool :=
  m.number = l.number + 1 && !m.has .blockStart

theorem IsRun.isChain {lines : List CommentLine} (h : IsRun lines) :
    lines.IsChain fun l m => continues l m := by
  obtain ⟨-, hnext, hplain⟩ := h
  induction lines with
  | nil => exact .nil
  | cons l lines ih =>
      obtain ⟨hl, hnext⟩ := List.isChain_cons.1 hnext
      refine List.isChain_cons.2 ⟨fun m hm => ?_, ih hnext fun m hm => ?_⟩
      · simp [continues, hl m hm, hplain m (List.mem_of_mem_head? hm)]
      · exact hplain m (List.mem_of_mem_tail hm)

theorem Apart.not_continues {g : Grammar} {source : Text} {above below : List CommentLine}
    (h : Apart g source above below) (ha : above ≠ []) (hb : below ≠ []) :
    continues (above.getLast ha) (below.head hb) = false := by
  rw [continues, Bool.and_eq_false_iff]
  obtain ⟨l, hl, hmark⟩ | ⟨i, -, -, -, hlow, hhigh⟩ := h
  · right
    rw [List.head?_eq_some_head hb] at hl
    cases hl
    simp [hmark]
  · left
    have h₁ := hlow _ (List.getLast_mem ha)
    have h₂ := hhigh _ (List.head_mem hb)
    simp only [decide_eq_false_iff_not]
    omega

theorem IsPartition.map_lines {g : Grammar} {source : Text} {bs : List Block}
    (h : IsPartition g source bs) :
    bs.map (·.lines) = (commentLines g source).splitBy continues := by
  rw [← h.lines_eq, List.flatMap_def, List.splitBy_flatten]
  · intro hnil
    obtain ⟨b, hb, hlines⟩ := List.mem_map.1 hnil
    exact (h.runs b hb).ne_nil hlines
  · intro lines hlines
    obtain ⟨b, hb, rfl⟩ := List.mem_map.1 hlines
    exact (h.runs b hb).isChain
  · rw [List.isChain_map]
    refine h.apart.imp_of_mem_imp fun b c hb hc hbc => ?_
    exact ⟨(h.runs b hb).ne_nil, (h.runs c hc).ne_nil, hbc.not_continues _ _⟩

theorem IsPartition.unique {g : Grammar} {source : Text} {bs cs : List Block}
    (hb : IsPartition g source bs) (hc : IsPartition g source cs) : bs = cs := by
  have hinj : Function.Injective Block.lines := by
    rintro ⟨_⟩ ⟨_⟩ rfl
    rfl
  exact List.map_injective_iff.2 hinj (hb.map_lines.trans hc.map_lines.symm)

/-! ### Existence -/

/-- The comment lines of a rest of a source have the numbers of their places, the first of which is
`n`. -/
def Numbered : (n : Nat) → List (Option CommentLine) → Prop
  | _, [] => True
  | n, x :: xs => (∀ l ∈ x, l.number = n) ∧ Numbered (n + 1) xs

theorem Numbered.le {n : Nat} {xs : List (Option CommentLine)} (h : Numbered n xs)
    {l : CommentLine} (hl : l ∈ xs.reduceOption) : n ≤ l.number := by
  rw [List.reduceOption_mem_iff] at hl
  induction xs generalizing n with
  | nil => simp at hl
  | cons x xs ih =>
      rcases List.mem_cons.1 hl with rfl | hl
      · exact (h.1 l rfl).ge
      · exact Nat.le_of_succ_le (ih h.2 hl)

theorem Numbered.pairwise {n : Nat} {xs : List (Option CommentLine)} (h : Numbered n xs) :
    xs.reduceOption.Pairwise fun l m => l.number < m.number := by
  induction xs generalizing n with
  | nil => exact .nil
  | cons x xs ih =>
      cases x with
      | none => simpa using ih h.2
      | some l =>
          have hl : l.number = n := h.1 l rfl
          rw [List.reduceOption_cons_of_some]
          refine List.pairwise_cons.2 ⟨fun m hm => ?_, ih h.2⟩
          have hm := h.2.le hm
          omega

/-- `Apart` for a rest of a source that begins with line `n`. -/
def ApartIn (n : Nat) (xs : List (Option CommentLine)) (above below : List CommentLine) : Prop :=
  (∃ l ∈ below.head?, l.has .blockStart = true) ∨
  ∃ i, xs[i]? = some none ∧ (∀ l ∈ above, l.number < n + i) ∧ ∀ l ∈ below, n + i < l.number

theorem ApartIn.cons {n : Nat} {xs : List (Option CommentLine)} {above below : List CommentLine}
    (h : ApartIn (n + 1) xs above below) (x : Option CommentLine) :
    ApartIn n (x :: xs) above below := by
  refine h.imp_right ?_
  rintro ⟨i, hi, hlow, hhigh⟩
  refine ⟨i + 1, by simpa using hi, fun l hl => ?_, fun l hl => ?_⟩
  · have := hlow l hl
    omega
  · have := hhigh l hl
    omega

/-- A line above the rest does not come nearer to the blocks in the rest. -/
theorem ApartIn.cons_line {n : Nat} {xs : List (Option CommentLine)}
    {above below : List CommentLine} (h : ApartIn (n + 1) xs above below) {l : CommentLine}
    (hl : l.number = n) : ApartIn n (some l :: xs) (l :: above) below := by
  refine (h.cons (some l)).imp_right ?_
  rintro ⟨i, hi, hlow, hhigh⟩
  have hpos : i ≠ 0 := by
    rintro rfl
    simp at hi
  refine ⟨i, hi, ?_, hhigh⟩
  intro m hm
  rcases List.mem_cons.1 hm with rfl | hm
  · omega
  · exact hlow m hm

/-- What holds of the blocks of a rest of a source while lines are put in front of it. The leading
lines are kept apart from the closed blocks even when there are none, because the next line may
become the first of them. -/
structure Runs.Valid (n : Nat) (xs : List (Option CommentLine)) (r : Runs) : Prop where
  lines_eq : r.leading ++ r.closed.flatMap (·.lines) = xs.reduceOption
  leading_head : ∀ l ∈ r.leading.head?, l.number = n
  leading_consecutive : r.leading.IsChain fun l m => m.number = l.number + 1
  leading_unmarked : ∀ l ∈ r.leading, l.has .blockStart = false
  leading_apart : ∀ b ∈ r.closed.head?, ApartIn n xs r.leading b.lines
  closed_runs : ∀ b ∈ r.closed, IsRun b.lines
  closed_apart : r.closed.IsChain fun b c => ApartIn n xs b.lines c.lines

/-- The conditions of `IsPartition` on the blocks of a rest of a source. -/
structure IsCut (n : Nat) (xs : List (Option CommentLine)) (bs : List Block) : Prop where
  lines_eq : bs.flatMap (·.lines) = xs.reduceOption
  runs : ∀ b ∈ bs, IsRun b.lines
  apart : bs.IsChain fun b c => ApartIn n xs b.lines c.lines

theorem Runs.push_marked (r : Runs) {l : CommentLine} (h : l.has .blockStart = true) :
    r.push (some l) = ⟨[], ⟨l :: r.leading⟩ :: r.closed⟩ := by
  simp [Runs.push, h]

theorem Runs.push_unmarked (r : Runs) {l : CommentLine} (h : l.has .blockStart = false) :
    r.push (some l) = ⟨l :: r.leading, r.closed⟩ := by
  simp [Runs.push, h]

namespace Runs.Valid

variable {n : Nat} {xs : List (Option CommentLine)} {r : Runs} {l : CommentLine}

theorem isRun_leading (h : r.Valid n xs) (hne : r.leading ≠ []) : IsRun r.leading :=
  ⟨hne, h.leading_consecutive, fun l hl => h.leading_unmarked l (List.mem_of_mem_tail hl)⟩

theorem isRun_cons (h : r.Valid (n + 1) xs) (hl : l.number = n) : IsRun (l :: r.leading) where
  ne_nil := List.cons_ne_nil l r.leading
  consecutive := by
    refine List.isChain_cons.2 ⟨fun m hm => ?_, h.leading_consecutive⟩
    rw [h.leading_head m hm, hl]
  unmarked := h.leading_unmarked

theorem isCut_close (h : r.Valid n xs) : IsCut n xs r.close := by
  unfold Runs.close
  cases hlead : r.leading with
  | nil =>
      refine ⟨?_, h.closed_runs, h.closed_apart⟩
      simpa [hlead] using h.lines_eq
  | cons l ls =>
      rw [← hlead]
      have hne : r.leading ≠ [] := by simp [hlead]
      simp only [List.isEmpty_iff, hne, if_false]
      refine ⟨by simpa using h.lines_eq, ?_, List.isChain_cons.2 ⟨?_, h.closed_apart⟩⟩
      · intro b hb
        rcases List.mem_cons.1 hb with rfl | hb
        · exact h.isRun_leading hne
        · exact h.closed_runs b hb
      · exact h.leading_apart

theorem push_code (h : r.Valid (n + 1) xs) (hxs : Numbered (n + 1) xs) :
    (r.push none).Valid n (none :: xs) := by
  have hcut := h.isCut_close
  refine ⟨by simpa [Runs.push] using hcut.lines_eq, by simp [Runs.push], .nil, by simp [Runs.push],
    ?_, hcut.runs, hcut.apart.imp fun b c hbc => hbc.cons none⟩
  intro b hb
  refine .inr ⟨0, rfl, by simp [Runs.push], fun l hl => ?_⟩
  apply hxs.le
  rw [← hcut.lines_eq]
  exact List.mem_flatMap.2 ⟨b, List.mem_of_mem_head? hb, hl⟩

theorem push_line (h : r.Valid (n + 1) xs) (hl : l.number = n) :
    (r.push (some l)).Valid n (some l :: xs) := by
  have hclosed := h.closed_apart.imp fun b c hbc => hbc.cons (some l)
  have hlead : ∀ b ∈ r.closed.head?, ApartIn n (some l :: xs) (l :: r.leading) b.lines :=
    fun b hb => (h.leading_apart b hb).cons_line hl
  have hlines := h.lines_eq
  cases hmark : l.has .blockStart with
  | true =>
      rw [push_marked r hmark]
      refine ⟨?_, by simp, .nil, by simp, ?_, ?_, List.isChain_cons.2 ⟨hlead, hclosed⟩⟩
      · simpa using hlines
      · rintro b ⟨⟩
        exact .inl ⟨l, rfl, hmark⟩
      · intro b hb
        rcases List.mem_cons.1 hb with rfl | hb
        · exact h.isRun_cons hl
        · exact h.closed_runs b hb
  | false =>
      rw [push_unmarked r hmark]
      refine ⟨?_, ?_, (h.isRun_cons hl).consecutive, ?_, hlead, h.closed_runs, hclosed⟩
      · simpa using hlines
      · rintro m ⟨⟩
        exact hl
      · intro m hm
        rcases List.mem_cons.1 hm with rfl | hm
        · exact hmark
        · exact h.leading_unmarked m hm

end Runs.Valid

theorem valid_foldr_push {n : Nat} {xs : List (Option CommentLine)} (h : Numbered n xs) :
    (xs.foldr Runs.push ⟨[], []⟩).Valid n xs := by
  induction xs generalizing n with
  | nil => exact ⟨rfl, by simp, .nil, by simp, by simp, by simp, .nil⟩
  | cons x xs ih =>
      cases x with
      | none => exact (ih h.2).push_code h.2
      | some l => exact (ih h.2).push_line (h.1 l rfl)

/-! ### Sources -/

theorem number_of_ofLine? {n : Nat} {line : Line} {l : CommentLine}
    (h : CommentLine.ofLine? n line = some l) : l.number = n := by
  cases line with
  | code => simp [CommentLine.ofLine?] at h
  | plain text | tagged tag body rest =>
      cases h
      rfl

theorem ofLine?_eq_none_iff {n : Nat} {line : Line} :
    CommentLine.ofLine? n line = none ↔ line = .code := by
  cases line <;> simp [CommentLine.ofLine?]

theorem numbered_sourceLines (g : Grammar) (source : Text) :
    Numbered 1 (sourceLines g source) := by
  have run (lines : List Text) (n : Nat) : Numbered (n + 1) ((lines.zipIdx n).map
      fun (line, i) => CommentLine.ofLine? (i + 1) (Line.classify g line)) := by
    induction lines generalizing n with
    | nil => trivial
    | cons line lines ih => exact ⟨fun l hl => number_of_ofLine? hl, ih (n + 1)⟩
  exact run (Text.lines source) 0

theorem reduceOption_sourceLines (g : Grammar) (source : Text) :
    (sourceLines g source).reduceOption = commentLines g source := by
  simp [sourceLines, commentLines, List.reduceOption, List.filterMap_map]

theorem ApartIn.apart {g : Grammar} {source : Text} {above below : List CommentLine}
    (h : ApartIn 1 (sourceLines g source) above below) : Apart g source above below := by
  refine h.imp_right ?_
  rintro ⟨i, hi, hlow, hhigh⟩
  simp only [sourceLines, List.getElem?_map, List.getElem?_zipIdx, Option.map_map,
    Option.map_eq_some_iff, Function.comp_apply] at hi
  obtain ⟨line, hline, hcode⟩ := hi
  refine ⟨i, line, hline, ofLine?_eq_none_iff.1 hcode, ?_, ?_⟩ <;> simpa only [Nat.add_comm i]

theorem isPartition_ofSource (g : Grammar) (source : Text) :
    IsPartition g source (ofSource g source) := by
  have hcut := (valid_foldr_push (numbered_sourceLines g source)).isCut_close
  refine ⟨?_, hcut.runs, hcut.apart.imp fun b c hbc => hbc.apart⟩
  rw [← reduceOption_sourceLines]
  exact hcut.lines_eq

/-- The blocks of a source are the only partition of its comment lines into maximal runs. -/
theorem isPartition_iff_eq_ofSource (g : Grammar) (source : Text) (bs : List Block) :
    IsPartition g source bs ↔ bs = ofSource g source := by
  constructor
  · intro h
    exact h.unique (isPartition_ofSource g source)
  · rintro rfl
    exact isPartition_ofSource g source

end DocTags.Block
