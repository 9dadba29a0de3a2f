import DocTags.Proofs.Block.Partition
import DocTags.Proofs.Text.Pieces

/-!
Blocks of lines that stand elsewhere. The extraction of blocks never looks at a line number, so that
lines with other numbers are cut into the same blocks with these numbers, and what stands below a
closed run does not matter to it.
-/

namespace DocTags

def CommentLine.renumber (f : Nat → Nat) (l : CommentLine) : CommentLine :=
  { l with number := f l.number }

namespace Line

theorem afterMark?_nil (mark : Text) : afterMark? mark [] = none := by
  cases mark <;> rfl

/-- A line of blanks is code in every grammar. -/
theorem classify_of_trim_eq_nil (g : Grammar) {line : Text} (h : Text.trim line = []) :
    classify g line = .code := by
  simp only [classify, h, afterMark?_nil]

end Line

namespace Block

def renumber (f : Nat → Nat) (b : Block) : Block :=
  ⟨b.lines.map (CommentLine.renumber f)⟩

theorem renumber_renumber (f h : Nat → Nat) (b : Block) :
    (b.renumber f).renumber h = b.renumber (h ∘ f) := by
  simp [renumber, CommentLine.renumber, Function.comp_def]

theorem renumber_eq_self {f : Nat → Nat} (hf : ∀ n, f n = n) (b : Block) : b.renumber f = b := by
  have hline (l : CommentLine) : l.renumber f = l := by rw [CommentLine.renumber, hf]
  rw [renumber, List.map_id'' hline]

/-! ### Runs -/

namespace Runs

def renumber (f : Nat → Nat) (r : Runs) : Runs :=
  ⟨r.leading.map (CommentLine.renumber f), r.closed.map (Block.renumber f)⟩

theorem close_renumber (f : Nat → Nat) (r : Runs) :
    (r.renumber f).close = r.close.map (Block.renumber f) := by
  obtain ⟨leading, closed⟩ := r
  cases leading <;> simp [renumber, close, Block.renumber]

theorem push_renumber (f : Nat → Nat) (r : Runs) (x : Option CommentLine) :
    (r.renumber f).push (x.map (CommentLine.renumber f)) = (r.push x).renumber f := by
  cases x with
  | none => rw [Option.map_none, push, close_renumber]; rfl
  | some l =>
      have htag : (l.renumber f).has .blockStart = l.has .blockStart := rfl
      cases hmark : l.has .blockStart <;>
        simp [push, renumber, Block.renumber, htag, hmark]

theorem foldr_push_renumber (f : Nat → Nat) (xs : List (Option CommentLine)) (r : Runs) :
    (xs.map (Option.map (CommentLine.renumber f))).foldr push (r.renumber f) =
      (xs.foldr push r).renumber f := by
  induction xs with
  | nil => rfl
  | cons x xs ih => rw [List.map_cons, List.foldr_cons, ih, push_renumber, List.foldr_cons]

/-- Blocks that are closed stay behind whatever is put in front of them. -/
theorem foldr_push_closed (xs : List (Option CommentLine)) (r : Runs) (bs : List Block) :
    xs.foldr push ⟨r.leading, r.closed ++ bs⟩ =
      ⟨(xs.foldr push r).leading, (xs.foldr push r).closed ++ bs⟩ := by
  induction xs with
  | nil => rfl
  | cons x xs ih =>
      rw [List.foldr_cons, ih, List.foldr_cons]
      generalize xs.foldr push r = r'
      cases x with
      | none => cases hlead : r'.leading <;> simp [push, close, hlead]
      | some l => cases hmark : l.has .blockStart <;> simp [push, hmark]

theorem push_none_eq_self {r : Runs} (h : r.leading = []) : r.push none = r := by
  cases r
  cases h
  rfl

theorem foldr_push_code {r : Runs} (h : r.leading = []) (k : Nat) :
    (List.replicate k none).foldr push r = r := by
  induction k with
  | zero => rfl
  | succ k ih => rw [List.replicate_succ, List.foldr_cons, ih, push_none_eq_self h]

theorem close_append (r : Runs) (bs : List Block) :
    close ⟨r.leading, r.closed ++ bs⟩ = r.close ++ bs := by
  cases h : r.leading <;> simp [close, h]

end Runs

/-! ### Lines -/

/-- The source lines of a part of a source that has `n` lines above it. -/
def linesFrom (g : Grammar) (n : Nat) (ls : List Text) : List (Option CommentLine) :=
  (ls.zipIdx n).map fun (line, i) => CommentLine.ofLine? (i + 1) (Line.classify g line)

/-- The blocks of a source with these lines. -/
def ofLines (g : Grammar) (ls : List Text) : List Block :=
  ((linesFrom g 0 ls).foldr Runs.push ⟨[], []⟩).close

theorem ofSource_eq_ofLines (g : Grammar) (source : Text) :
    ofSource g source = ofLines g (Text.lines source) := rfl

variable {g : Grammar}

theorem linesFrom_cons (n : Nat) (line : Text) (ls : List Text) :
    linesFrom g n (line :: ls) =
      CommentLine.ofLine? (n + 1) (Line.classify g line) :: linesFrom g (n + 1) ls := by
  simp [linesFrom, List.zipIdx_cons]

theorem linesFrom_append (n : Nat) (ls ms : List Text) :
    linesFrom g n (ls ++ ms) = linesFrom g n ls ++ linesFrom g (n + ls.length) ms := by
  simp [linesFrom, List.zipIdx_append]

theorem map_renumber_ofLine? (f : Nat → Nat) (n : Nat) (line : Line) :
    (CommentLine.ofLine? n line).map (CommentLine.renumber f) = CommentLine.ofLine? (f n) line := by
  cases line <;> rfl

/-- A part of a source that is moved as a whole. -/
theorem map_renumber_linesFrom {f : Nat → Nat} {n m : Nat} (ls : List Text)
    (h : ∀ i < ls.length, f (n + i + 1) = m + i + 1) :
    (linesFrom g n ls).map (Option.map (CommentLine.renumber f)) = linesFrom g m ls := by
  induction ls generalizing n m with
  | nil => rfl
  | cons line ls ih =>
      have hfirst : f (n + 1) = m + 1 := h 0 (by simp)
      have hrest : ∀ i < ls.length, f (n + 1 + i + 1) = m + 1 + i + 1 := by
        intro i hi
        have hnext := h (i + 1) (by simpa using hi)
        rwa [show n + (i + 1) + 1 = n + 1 + i + 1 by omega,
          show m + (i + 1) + 1 = m + 1 + i + 1 by omega] at hnext
      rw [linesFrom_cons, linesFrom_cons, List.map_cons, map_renumber_ofLine?, hfirst, ih hrest]

/-- Lines of code, wherever they stand. -/
theorem linesFrom_code {ls : List Text} (h : ∀ line ∈ ls, Line.classify g line = .code) (n : Nat) :
    linesFrom g n ls = List.replicate ls.length none := by
  induction ls generalizing n with
  | nil => rfl
  | cons line ls ih =>
      rw [List.forall_mem_cons] at h
      rw [linesFrom_cons, h.1, ih h.2]
      rfl

theorem linesFrom_dropLastEmpty (n : Nat) (ps : List Text) :
    linesFrom g n ps = linesFrom g n (Text.dropLastEmpty ps) ∨
      linesFrom g n ps = linesFrom g n (Text.dropLastEmpty ps) ++ [none] := by
  rcases Text.eq_dropLastEmpty_or ps with h | h
  · exact .inl (by rw [← h])
  · refine .inr ?_
    have hempty : linesFrom g (n + (Text.dropLastEmpty ps).length) [[]] = [none] :=
      linesFrom_code (by simpa using Line.classify_of_trim_eq_nil g rfl) _
    conv_lhs => rw [h, linesFrom_append, hempty]

/-- The blocks of a source, without regard to whether its last line is ended. -/
theorem ofSource_eq_ofLines_pieces (g : Grammar) (source : Text) :
    ofSource g source = ofLines g (Text.pieces '\n' source) := by
  rw [ofSource_eq_ofLines, Text.lines, ofLines, ofLines]
  rcases linesFrom_dropLastEmpty 0 (Text.pieces '\n' source) with h | h
  · rw [h]
  · rw [h, List.foldr_append]
    rfl

/-! ### Blocks below a line of code -/

/-- What stands below a line of code is cut on its own. -/
theorem ofLines_append_code {line : Text} (h : Line.classify g line = .code) (ls ms : List Text) :
    ofLines g (ls ++ line :: ms) =
      ofLines g ls ++ (ofLines g ms).map (Block.renumber (· + (ls.length + 1))) := by
  have hmoved : linesFrom g (ls.length + 1) ms =
      (linesFrom g 0 ms).map (Option.map (CommentLine.renumber (· + (ls.length + 1)))) := by
    refine (map_renumber_linesFrom ms fun i _ => ?_).symm
    omega
  have hbelow : (linesFrom g (ls.length + 1) ms).foldr Runs.push ⟨[], []⟩ =
      ((linesFrom g 0 ms).foldr Runs.push ⟨[], []⟩).renumber (· + (ls.length + 1)) := by
    rw [hmoved]
    exact Runs.foldr_push_renumber _ _ ⟨[], []⟩
  have hclosed := Runs.foldr_push_closed (linesFrom g 0 ls) ⟨[], []⟩
    ((ofLines g ms).map (Block.renumber (· + (ls.length + 1))))
  rw [ofLines, linesFrom_append, linesFrom_cons, h, List.foldr_append, List.foldr_cons,
    Nat.zero_add, hbelow]
  simp only [CommentLine.ofLine?, Runs.push, Runs.close_renumber]
  exact (congrArg Runs.close hclosed).trans (Runs.close_append _ _)

end Block
end DocTags
