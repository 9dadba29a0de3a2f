import DocTags.Proofs.Block.Renumber
import DocTags.Proofs.Line.Standard

/-!
Blocks as they are written: blank lines, the block mark, and comments. A source that is written
block by block is read block by block, whatever the comments say.
-/

namespace DocTags

open Grammar (standard)

namespace CommentLine

/-- The comment lines of consecutive source lines, of which the first has this number. -/
def ofLines : (number : Nat) → List Line → List CommentLine
  | _, [] => []
  | n, l :: ls => (ofLine? n l).toList ++ ofLines (n + 1) ls

theorem ofLines_append (n : Nat) (ls ms : List Line) :
    ofLines n (ls ++ ms) = ofLines n ls ++ ofLines (n + ls.length) ms := by
  induction ls generalizing n with
  | nil => rfl
  | cons l ls ih =>
      rw [List.cons_append, ofLines, ofLines, ih, List.append_assoc, List.length_cons,
        Nat.add_assoc, Nat.add_comm 1]

end CommentLine

structure WrittenBlock where
  /-- The number of blank lines above it. -/
  gap : Nat
  /-- The comments below the block mark. -/
  comments : List Text

namespace WrittenBlock

def lines (w : WrittenBlock) : List Text :=
  List.replicate w.gap [] ++ standard.blockMark :: w.comments.map Line.written

def source (ws : List WrittenBlock) : Text :=
  Text.ofLines (ws.flatMap lines)

/-- What the lines of a written block are classified as, the blank ones apart. -/
def content (w : WrittenBlock) : List Line :=
  .tagged .blockStart [] [] :: w.comments.map fun c => Line.ofComment standard (Text.trim c)

end WrittenBlock

namespace Block

/-- The lines of a block are these, wherever it stands. -/
def HasContent (b : Block) (ls : List Line) : Prop :=
  ∃ n, b.lines = CommentLine.ofLines n ls

/-- The source lines of a part of a source that has `n` lines above it. -/
def sourceLinesFrom (n : Nat) (ls : List Text) : List (Option CommentLine) :=
  (ls.zipIdx n).map fun (line, i) => CommentLine.ofLine? (i + 1) (Line.classify standard line)

theorem sourceLinesFrom_eq (n : Nat) (ls : List Text) :
    sourceLinesFrom n ls = linesFrom standard n ls := rfl

theorem sourceLinesFrom_append (n : Nat) (ls ms : List Text) :
    sourceLinesFrom n (ls ++ ms) = sourceLinesFrom n ls ++ sourceLinesFrom (n + ls.length) ms := by
  simp only [sourceLinesFrom_eq, linesFrom_append]

theorem sourceLinesFrom_replicate_nil (n gap : Nat) :
    sourceLinesFrom n (List.replicate gap []) = List.replicate gap none := by
  have hcode : ∀ line ∈ List.replicate gap [], Line.classify standard line = .code := by
    intro line hline
    rw [List.eq_of_mem_replicate hline]
    exact Line.classify_of_trim_eq_nil standard rfl
  rw [sourceLinesFrom_eq, linesFrom_code hcode, List.length_replicate]

/-- A comment is never the first line of a block. -/
theorem exists_ofLine?_ofComment (n : Nat) (body : Text) :
    ∃ l, CommentLine.ofLine? n (Line.ofComment standard body) = some l ∧
      l.has .blockStart = false := by
  unfold Line.ofComment
  split
  · next m hm =>
      refine ⟨_, rfl, ?_⟩
      have htag : m.tag ≠ .blockStart := by
        intro h
        exact absurd (h ▸ (Line.mem_candidates.1 (Line.mem_of_longest? hm)).1) (by decide)
      simpa [CommentLine.has] using htag
  · exact ⟨_, rfl, by simp [CommentLine.has]⟩

namespace Runs

theorem foldr_push_comments (n : Nat) (comments : List Text) (r : Runs) :
    (sourceLinesFrom n (comments.map Line.written)).foldr push r =
      ⟨CommentLine.ofLines (n + 1) (comments.map fun c =>
        Line.ofComment standard (Text.trim c)) ++ r.leading, r.closed⟩ := by
  induction comments generalizing n with
  | nil => rfl
  | cons c comments ih =>
      obtain ⟨l, hl, hmark⟩ := exists_ofLine?_ofComment (n + 1) (Text.trim c)
      have hfirst : sourceLinesFrom n (Line.written c :: comments.map Line.written) =
          some l :: sourceLinesFrom (n + 1) (comments.map Line.written) := by
        rw [sourceLinesFrom_eq, linesFrom_cons, Line.classify_written, hl, ← sourceLinesFrom_eq]
      rw [List.map_cons, hfirst, List.foldr_cons, ih]
      simp [push, hmark, CommentLine.ofLines, hl]

theorem foldr_push_lines (n : Nat) (w : WrittenBlock) (bs : List Block) :
    ∃ b, b.HasContent w.content ∧
      (sourceLinesFrom n w.lines).foldr push ⟨[], bs⟩ = ⟨[], b :: bs⟩ := by
  refine ⟨⟨CommentLine.ofLines (n + w.gap + 1) w.content⟩, ⟨_, rfl⟩, ?_⟩
  have hmark : sourceLinesFrom (n + w.gap) (standard.blockMark :: w.comments.map Line.written) =
      some ⟨n + w.gap + 1, some .blockStart, [], []⟩ ::
        sourceLinesFrom (n + w.gap + 1) (w.comments.map Line.written) := by
    rw [sourceLinesFrom_eq, linesFrom_cons, Line.classify_blockMark, ← sourceLinesFrom_eq]
    rfl
  -- The mark closes the run of comments below it, and the blank lines above leave it closed.
  rw [WrittenBlock.lines, sourceLinesFrom_append, sourceLinesFrom_replicate_nil,
    List.length_replicate, hmark, List.foldr_append, List.foldr_cons, foldr_push_comments,
    push_marked _ (by rfl), foldr_push_code rfl]
  simp [WrittenBlock.content, CommentLine.ofLines, CommentLine.ofLine?]

end Runs

theorem foldr_push_written (n : Nat) (ws : List WrittenBlock) :
    ∃ bs, List.Forall₂ HasContent bs (ws.map WrittenBlock.content) ∧
      (sourceLinesFrom n (ws.flatMap WrittenBlock.lines)).foldr Runs.push ⟨[], []⟩ = ⟨[], bs⟩ := by
  induction ws generalizing n with
  | nil => exact ⟨[], .nil, rfl⟩
  | cons w ws ih =>
      obtain ⟨bs, hbs, hrun⟩ := ih (n + w.lines.length)
      obtain ⟨b, hb, hpush⟩ := Runs.foldr_push_lines n w bs
      refine ⟨b :: bs, .cons hb hbs, ?_⟩
      rw [List.flatMap_cons, sourceLinesFrom_append, List.foldr_append, hrun, hpush]

/-- The blocks of a source that is written block by block. -/
theorem forall₂_ofSource {ws : List WrittenBlock}
    (h : ∀ w ∈ ws, ∀ c ∈ w.comments, '\n' ∉ c) :
    List.Forall₂ HasContent (ofSource standard (WrittenBlock.source ws))
      (ws.map WrittenBlock.content) := by
  have hlines : Text.lines (WrittenBlock.source ws) = ws.flatMap WrittenBlock.lines := by
    apply Text.lines_ofLines
    intro l hl
    obtain ⟨w, hw, hl⟩ := List.mem_flatMap.1 hl
    rcases List.mem_append.1 hl with hl | hl
    · rw [List.eq_of_mem_replicate hl]
      exact List.not_mem_nil
    · rcases List.mem_cons.1 hl with rfl | hl
      · decide
      · obtain ⟨c, hc, rfl⟩ := List.mem_map.1 hl
        simpa [Line.written, standard] using h w hw c hc
  obtain ⟨bs, hbs, hrun⟩ := foldr_push_written 0 ws
  have hsource : ofSource standard (WrittenBlock.source ws) = bs := by
    rw [ofSource, sourceLines, hlines, ← sourceLinesFrom, hrun]
    rfl
  rw [hsource]
  exact hbs

end Block
end DocTags
