import DocTags.Proofs.Docs.Renumber

/-!
The code around documentation blocks. Lines of code can be put in and taken out wherever that does
not join two blocks or cut one in two; what the source says stays the same, and every problem is
told of under the new number of its line.
-/

namespace DocTags

/-- Whether a line has the block mark. -/
def Line.startsBlock : Line → Bool
  | .tagged .blockStart _ _ => true
  | _ => false

namespace Block

variable {g : Grammar}

/-! ### Edits -/

/-- Where lines of code make no difference: at the start and at the end of a source, next to a line
of code, and in front of a line with the block mark. -/
def IsBoundary (g : Grammar) (above below : List Text) : Prop :=
  above = [] ∨ below = [] ∨
  (∃ line ∈ above.getLast?, Line.classify g line = .code) ∨
  ∃ line ∈ below.head?,
    Line.classify g line = .code ∨ (Line.classify g line).startsBlock = true

/-- The new number of a line, when `added` lines are put in below the first `above` lines. -/
def inserted (above added n : Nat) : Nat :=
  if n ≤ above then n else n + added

/-- The new number of a line that is left, when `removed` lines are taken out below the first
`above` lines. -/
def deleted (above removed n : Nat) : Nat :=
  if n ≤ above then n else n - removed

/-- Lines of code are put in at a boundary, or taken out so that a boundary is left, which gives the
other lines new numbers. -/
inductive Edit (g : Grammar) : List Text → List Text → (Nat → Nat) → Prop where
  | insert (above code below : List Text) (hcode : ∀ line ∈ code, Line.classify g line = .code)
      (hboundary : IsBoundary g above below) :
      Edit g (above ++ below) (above ++ code ++ below) (inserted above.length code.length)
  | delete (above code below : List Text) (hcode : ∀ line ∈ code, Line.classify g line = .code)
      (hboundary : IsBoundary g above below) :
      Edit g (above ++ code ++ below) (above ++ below) (deleted above.length code.length)

/-- Any number of edits, one after the other. -/
inductive Edits (g : Grammar) (ls : List Text) : List Text → (Nat → Nat) → Prop where
  | refl : Edits g ls ls id
  | step {ms ns : List Text} {f h : Nat → Nat} (edits : Edits g ls ms f) (edit : Edit g ms ns h) :
      Edits g ls ns (h ∘ f)

/-! ### Lines of code between runs -/

namespace Runs

theorem close_foldr_push_code (r : Runs) (k : Nat) :
    ((List.replicate k none).foldr push r).close = r.close := by
  induction k with
  | zero => rfl
  | succ k ih =>
      rw [List.replicate_succ, List.foldr_cons, ← ih]
      rfl

end Runs

/-- Lines that begin with one of code or with the block mark do not continue what is above them. -/
theorem leading_eq_nil {line : Text}
    (h : Line.classify g line = .code ∨ (Line.classify g line).startsBlock = true) (n : Nat)
    (below : List Text) :
    ((linesFrom g n (line :: below)).foldr Runs.push ⟨[], []⟩).leading = [] := by
  rw [linesFrom_cons, List.foldr_cons]
  rcases h with h | h
  · rw [h]
    rfl
  · unfold Line.startsBlock at h
    split at h
    · next hline =>
        rw [hline]
        rfl
    · cases h

/-- Lines of code at a boundary come to nothing. -/
theorem close_boundary {above below : List Text} (h : IsBoundary g above below) (k n : Nat) :
    let rest := (linesFrom g n below).foldr Runs.push ⟨[], []⟩
    ((linesFrom g 0 above).foldr Runs.push ((List.replicate k none).foldr Runs.push rest)).close =
      ((linesFrom g 0 above).foldr Runs.push rest).close := by
  intro rest
  rcases h with rfl | rfl | ⟨line, hline, hcode⟩ | ⟨line, hline, hstart⟩
  · exact Runs.close_foldr_push_code rest k
  · rw [Runs.foldr_push_code rfl]
  · obtain ⟨init, rfl⟩ := List.getLast?_eq_some_iff.1 hline
    -- the line of code above closes the run by itself
    have hlast (r : Runs) :
        (linesFrom g 0 (init ++ [line])).foldr Runs.push r =
          (linesFrom g 0 init).foldr Runs.push ⟨[], r.close⟩ := by
      rw [linesFrom_append, List.foldr_append, linesFrom_cons, hcode]
      rfl
    rw [hlast, hlast, Runs.close_foldr_push_code]
  · obtain ⟨tail, rfl⟩ := List.head?_eq_some_iff.1 hline
    rw [Runs.foldr_push_code (leading_eq_nil hstart n tail)]

/-! ### Blocks of an edited source -/

theorem deleted_inserted (above k n : Nat) : deleted above k (inserted above k n) = n := by
  by_cases h : n ≤ above
  · rw [inserted, if_pos h, deleted, if_pos h]
  · rw [inserted, if_neg h, deleted, if_neg (by omega)]
    omega

theorem ofLines_insert {above code below : List Text}
    (hcode : ∀ line ∈ code, Line.classify g line = .code) (h : IsBoundary g above below) :
    ofLines g (above ++ code ++ below) =
      (ofLines g (above ++ below)).map (Block.renumber (inserted above.length code.length)) := by
  have habove : (linesFrom g 0 above).map
      (Option.map (CommentLine.renumber (inserted above.length code.length))) =
        linesFrom g 0 above := by
    refine map_renumber_linesFrom above fun i hi => ?_
    rw [inserted, if_pos (by omega)]
  have hbelow : (linesFrom g above.length below).map
      (Option.map (CommentLine.renumber (inserted above.length code.length))) =
        linesFrom g (above.length + code.length) below := by
    refine map_renumber_linesFrom below fun i _ => ?_
    rw [inserted, if_neg (by omega)]
    omega
  have hrest := Runs.foldr_push_renumber (inserted above.length code.length)
    (linesFrom g above.length below) ⟨[], []⟩
  have hall := Runs.foldr_push_renumber (inserted above.length code.length)
    (linesFrom g 0 above) ((linesFrom g above.length below).foldr Runs.push ⟨[], []⟩)
  rw [hbelow] at hrest
  rw [habove, ← hrest] at hall
  rw [ofLines, ofLines, ← Runs.close_renumber]
  simp only [linesFrom_append, List.foldr_append, Nat.zero_add, List.length_append,
    linesFrom_code hcode]
  rw [close_boundary h, ← hall]
  rfl

theorem Edit.ofLines_eq {ls ms : List Text} {f : Nat → Nat} (h : Edit g ls ms f) :
    ofLines g ms = (ofLines g ls).map (Block.renumber f) := by
  cases h with
  | insert above code below hcode hboundary => exact ofLines_insert hcode hboundary
  | delete above code below hcode hboundary =>
      -- taking lines out undoes putting them in
      rw [ofLines_insert hcode hboundary, List.map_map]
      refine (List.map_id'' (fun b => ?_) _).symm
      rw [Function.comp_apply, renumber_renumber]
      exact renumber_eq_self (deleted_inserted above.length code.length) b

theorem Edits.ofLines_eq {ls ms : List Text} {f : Nat → Nat} (h : Edits g ls ms f) :
    ofLines g ms = (ofLines g ls).map (Block.renumber f) := by
  induction h with
  | refl => exact (List.map_id'' (renumber_eq_self fun _ => rfl) _).symm
  | @step ms ns f h edits edit ih =>
      rw [edit.ofLines_eq, ih, List.map_map]
      exact List.map_congr_left fun b _ => renumber_renumber f h b

theorem commentLines_eq_flatMap (g : Grammar) (source : Text) :
    commentLines g source = (ofSource g source).flatMap (·.lines) :=
  (isPartition_ofSource g source).lines_eq.symm

theorem Edits.commentLines_eq {s t : Text} {f : Nat → Nat}
    (h : Edits g (Text.lines s) (Text.lines t) f) :
    commentLines g t = (commentLines g s).map (CommentLine.renumber f) := by
  have hblocks : ofSource g t = (ofSource g s).map (Block.renumber f) := h.ofLines_eq
  rw [commentLines_eq_flatMap, commentLines_eq_flatMap, hblocks, List.flatMap_map, List.map_flatMap]
  rfl

end Block

namespace Docs

/-- Code around the blocks of a source does not matter to what it says. The new numbers are those of
the same lines: the comment lines are the same, in the same order, under these numbers. -/
theorem ofSource_of_edits {g : Grammar} {s t : Text} {f : Nat → Nat}
    (h : Block.Edits g (Text.lines s) (Text.lines t) f) (file : Text) :
    (ofSource g file t).endpoints = (ofSource g file s).endpoints ∧
    (ofSource g file t).models = (ofSource g file s).models ∧
    (ofSource g file t).diagnostics =
      (ofSource g file s).diagnostics.map (Diagnostic.renumber f) ∧
    Block.commentLines g t = (Block.commentLines g s).map (CommentLine.renumber f) := by
  have hdocs := ofSource_eq_renumber f h.ofLines_eq file
  rw [hdocs]
  exact ⟨rfl, rfl, rfl, h.commentLines_eq⟩

/-- Lines of code are put in between two blocks that only a block mark keeps apart, and then the
line of code at the start is taken out. -/
theorem ofSource_of_edits_block_mark :
    let s := "x = 1\n##\n# @resource Pets\n##\n# @path".toList
    let t := "##\n# @resource Pets\n\ndef pets\n##\n# @path".toList
    let f := Block.deleted 0 1 ∘ Block.inserted 3 2 ∘ id
    Block.Edits .standard (Text.lines s) (Text.lines t) f ∧
      (ofSource .standard "pets.rb".toList t).diagnostics =
        (ofSource .standard "pets.rb".toList s).diagnostics.map (Diagnostic.renumber f) := by
  intro s t f
  let lead := ["##".toList, "# @resource Pets".toList]
  let code := [[], "def pets".toList]
  let rest := ["##".toList, "# @path".toList]
  have hs : Text.lines s = ("x = 1".toList :: lead) ++ rest := by decide
  have ht : Text.lines t = [] ++ (lead ++ code ++ rest) := by decide
  have hinsert : Block.Edit .standard _ _ _ :=
    .insert ("x = 1".toList :: lead) code rest (by decide)
      (.inr (.inr (.inr ⟨"##".toList, rfl, by decide⟩)))
  have hdelete : Block.Edit .standard _ _ _ := .delete [] ["x = 1".toList] (lead ++ code ++ rest)
    (by decide) (.inl rfl)
  have h : Block.Edits .standard (Text.lines s) (Text.lines t) f := by
    rw [hs, ht]
    exact .step (.step .refl hinsert) hdelete
  exact ⟨h, (ofSource_of_edits h "pets.rb".toList).2.2.1⟩

end Docs
end DocTags
