import DocTags.Docs
import DocTags.Proofs.Block.Renumber
import DocTags.Proofs.Text.Trim

/-!
Sources that differ in the blanks around their lines only: in their indentation, in blanks at the
ends of lines, and in carriage returns before line breaks. They say the same, line numbers included,
in every grammar, also in one whose marks have blanks in them.
-/

namespace DocTags

namespace Text

/-- A line that consists of a text and blanks around it. -/
def IsSpaced (core line : Text) : Prop :=
  ∃ before after, line = before ++ core ++ after ∧ (∀ c ∈ before, isBlank c = true) ∧
    ∀ c ∈ after, isBlank c = true

/-- Two lines that differ in the blanks around them only. -/
def SameCore (l m : Text) : Prop :=
  ∃ core, IsSpaced core l ∧ IsSpaced core m

theorem IsSpaced.trim_eq {core line : Text} (h : IsSpaced core line) : trim line = trim core := by
  obtain ⟨before, after, rfl, hbefore, hafter⟩ := h
  exact trim_surrounded hbefore hafter core

theorem sameCore_iff {l m : Text} : SameCore l m ↔ trim l = trim m := by
  constructor
  · intro ⟨core, hl, hm⟩
    rw [hl.trim_eq, hm.trim_eq]
  · intro h
    exact ⟨trim l, exists_eq_append_trim l, h ▸ exists_eq_append_trim m⟩

instance : DecidableRel SameCore :=
  fun _ _ => decidable_of_iff _ sameCore_iff.symm

/-- Texts with the same number of line breaks whose lines, also one behind the last line break,
differ in the blanks around them only. -/
def Respaced (s t : Text) : Prop :=
  List.Forall₂ SameCore (pieces '\n' s) (pieces '\n' t)

instance : DecidableRel Respaced :=
  fun s t => inferInstanceAs (Decidable (List.Forall₂ SameCore (pieces '\n' s) (pieces '\n' t)))

/-! ### Line breaks with carriage returns -/

/-- Puts a carriage return in front of every line break. -/
def crlf (s : Text) : Text :=
  s.flatMap fun c => if c = '\n' then ['\r', '\n'] else [c]

/-- The lines grow at their ends only, which the character in front of them does not change. -/
theorem forall₂_pieces_crlf (s : Text) :
    List.Forall₂ (fun l m => m = l ∨ m = l ++ ['\r']) (pieces '\n' s) (pieces '\n' (crlf s)) := by
  induction s with
  | nil => exact .cons (.inl rfl) .nil
  | cons c s ih =>
      by_cases hc : c = '\n'
      · have hcrlf : crlf (c :: s) = ['\r'] ++ '\n' :: crlf s := by simp [crlf, hc]
        rw [hcrlf, pieces_append, pieces_cons, if_pos hc]
        exact .cons (.inr rfl) ih
      · have hcrlf : crlf (c :: s) = c :: crlf s := by simp [crlf, hc]
        obtain ⟨l, ls, hl⟩ := List.exists_cons_of_ne_nil (pieces_ne_nil '\n' s)
        obtain ⟨m, ms, hm⟩ := List.exists_cons_of_ne_nil (pieces_ne_nil '\n' (crlf s))
        rw [hl, hm, List.forall₂_cons] at ih
        rw [hcrlf, pieces_cons, pieces_cons, if_neg hc, if_neg hc, hl, hm]
        exact .cons (ih.1.imp (congrArg (c :: ·)) (congrArg (c :: ·))) ih.2

theorem respaced_crlf (s : Text) : Respaced s (crlf s) := by
  refine (forall₂_pieces_crlf s).imp ?_
  intro l m hline
  rw [sameCore_iff]
  obtain rfl | rfl := hline
  · rfl
  · exact (trim_append_of_forall_isBlank l (by decide)).symm

end Text

/-! ### What the sources say -/

theorem Line.classify_congr (g : Grammar) {l m : Text} (h : Text.SameCore l m) :
    classify g l = classify g m := by
  simp only [classify, Text.sameCore_iff.1 h]

namespace Block

theorem linesFrom_congr (g : Grammar) {ls ms : List Text} (h : List.Forall₂ Text.SameCore ls ms)
    (n : Nat) : linesFrom g n ls = linesFrom g n ms := by
  induction h generalizing n with
  | nil => rfl
  | cons hline _ ih => rw [linesFrom_cons, linesFrom_cons, Line.classify_congr g hline, ih]

theorem ofSource_congr (g : Grammar) {s t : Text} (h : Text.Respaced s t) :
    ofSource g s = ofSource g t := by
  rw [ofSource_eq_ofLines_pieces, ofSource_eq_ofLines_pieces, ofLines, ofLines,
    linesFrom_congr g h]

end Block

namespace Docs

/-- Blanks around lines do not matter to what a source says, and carriage returns are blanks. -/
theorem ofSource_respaced (g : Grammar) (file source : Text) :
    (∀ other, Text.Respaced source other → ofSource g file other = ofSource g file source) ∧
    ofSource g file (Text.crlf source) = ofSource g file source := by
  have hsame {other : Text} (h : Text.Respaced source other) :
      ofSource g file other = ofSource g file source := by
    rw [ofSource, ofSource, Block.ofSource_congr g h]
  exact ⟨fun _ => hsame, hsame (Text.respaced_crlf source)⟩

/-- A grammar with a blank at the end of its marks, and a source in it whose lines get blanks of
several kinds, line breaks with carriage returns, and one more carriage return at the very end. -/
theorem ofSource_respaced_marks_with_blanks :
    let g := { Grammar.standard with commentMark := "; ".toList, blockMark := ";; ".toList }
    let source := ";; Pets\n; @resource Pets\n\n; @path [GET] pets\n; @path".toList
    let other := "\t;; Pets\r\n\u3000; @resource Pets \u00a0\r\n\u2003\r\n".toList ++
      "; @path [GET] pets\r\n  ; @path\r".toList
    Text.Respaced source other ∧
      ofSource g "pets.rb".toList other = ofSource g "pets.rb".toList source := by
  intro g source other
  have h : Text.Respaced source other := by decide
  exact ⟨h, (ofSource_respaced g "pets.rb".toList source).1 other h⟩

end Docs
end DocTags
