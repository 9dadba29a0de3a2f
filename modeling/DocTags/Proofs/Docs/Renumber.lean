import DocTags.Proofs.Block.Renumber
import DocTags.Proofs.Docs.Blockwise

/-!
Blocks with other line numbers say the same. No reader looks at a line number; the numbers come up
again in problems only, each of them as the number of the same line.
-/

namespace DocTags

def Problem.renumber (f : Nat → Nat) : Problem → Problem
  | malformedPath line fault => malformedPath (f line) fault
  | malformedParameter line fault => malformedParameter (f line) fault
  | malformedResponse line => malformedResponse (f line)
  | missingResource line => missingResource (f line)
  | ambiguousModel line model => ambiguousModel (f line) model
  | unreadable path fault => unreadable path fault
  | unlisted path fault => unlisted path fault
  | duplicateOperation path method => duplicateOperation path method

def Diagnostic.renumber (f : Nat → Nat) (d : Diagnostic) : Diagnostic :=
  { d with problem := d.problem.renumber f }

/-- Endpoints and models have no line numbers. -/
def Docs.renumber (f : Nat → Nat) (d : Docs) : Docs :=
  { d with diagnostics := d.diagnostics.map (Diagnostic.renumber f) }

def Reading.renumber (f : Nat → Nat) (r : Reading) : Reading :=
  { r with
    faults := r.faults.map (Problem.renumber f)
    orphan := r.orphan.map f
    warnings := r.warnings.map (Problem.renumber f) }

variable (f : Nat → Nat)

/-! ### Lines -/

namespace CommentLine

@[simp] theorem tag_renumber (l : CommentLine) : (l.renumber f).tag = l.tag := rfl

@[simp] theorem text_renumber (l : CommentLine) : (l.renumber f).text = l.text := rfl

@[simp] theorem rest_renumber (l : CommentLine) : (l.renumber f).rest = l.rest := rfl

@[simp] theorem number_renumber (l : CommentLine) : (l.renumber f).number = f l.number := rfl

@[simp] theorem has_renumber (l : CommentLine) (tag : Tag) : (l.renumber f).has tag = l.has tag :=
  rfl

@[simp] theorem isPlain_renumber (l : CommentLine) : (l.renumber f).isPlain = l.isPlain := rfl

@[simp] theorem prose?_renumber (l : CommentLine) : (l.renumber f).prose? = l.prose? := rfl

@[simp] theorem prose_renumber (ls : List CommentLine) :
    prose (ls.map (CommentLine.renumber f)) = prose ls := by
  simp [prose, List.filterMap_map, Function.comp_def]

end CommentLine

namespace Block

theorem splitAt?_renumber (tag : Tag) (ls : List CommentLine) :
    splitAt? tag (ls.map (CommentLine.renumber f)) =
      (splitAt? tag ls).map fun (above, l, below) =>
        (above.map (CommentLine.renumber f), l.renumber f,
          below.map (CommentLine.renumber f)) := by
  induction ls with
  | nil => rfl
  | cons l ls ih =>
      rw [List.map_cons, splitAt?, splitAt?, ih, CommentLine.has_renumber]
      cases l.has tag <;> cases splitAt? tag ls <;> rfl

@[simp] theorem has_renumber (b : Block) (tag : Tag) : (b.renumber f).has tag = b.has tag := by
  simp [has, renumber, List.any_map, Function.comp_def]

@[simp] theorem kind_renumber (b : Block) : (b.renumber f).kind = b.kind := by
  simp only [kind, has_renumber]

theorem startLine_renumber {b : Block} (h : b.lines ≠ []) :
    (b.renumber f).startLine = f b.startLine := by
  obtain ⟨l, ls, hlines⟩ := List.exists_cons_of_ne_nil h
  simp [startLine, renumber, hlines]

end Block

/-! ### Endpoints -/

theorem Resource.ofBlock_renumber (b : Block) : ofBlock (b.renumber f) = ofBlock b := by
  rw [ofBlock, Block.renumber, Block.splitAt?_renumber, ofBlock]
  cases Block.splitAt? .resource b.lines with
  | none => rfl
  | some parts => simp

theorem Parameter.read_renumber (rest : Text) (below : List CommentLine) :
    read rest (below.map (CommentLine.renumber f)) = read rest below := by
  simp [read, List.takeWhile_map, Function.comp_def]

namespace Operation

theorem mapError_map {α β : Type} (g : α → β) (h : Problem → Problem) (r : Except Problem α) :
    (r.map g).mapError h = (r.mapError h).map g := by
  cases r <;> rfl

theorem readItems_renumber (ls : List CommentLine) :
    readItems (ls.map (CommentLine.renumber f)) = (readItems ls).mapError (Problem.renumber f) := by
  induction ls with
  | nil => rfl
  | cons l ls ih =>
      rw [List.map_cons, readItems, readItems, ih, Parameter.read_renumber]
      simp only [CommentLine.tag_renumber, CommentLine.rest_renumber, CommentLine.number_renumber]
      split
      · cases Parameter.read l.rest ls with
        | error fault => rfl
        | ok parameter => exact (mapError_map _ _ _).symm
      · cases Response.read? l.rest with
        | none => rfl
        | some response => exact (mapError_map _ _ _).symm
      · rfl

theorem restOf?_renumber (tag : Tag) (ls : List CommentLine) :
    restOf? tag (ls.map (CommentLine.renumber f)) = restOf? tag ls := by
  simp [restOf?, List.find?_map, Function.comp_def]

theorem sampleOf?_renumber (tag : Tag) (ls : List CommentLine) :
    sampleOf? tag (ls.map (CommentLine.renumber f)) = sampleOf? tag ls := by
  rw [sampleOf?, Block.splitAt?_renumber, sampleOf?]
  cases Block.splitAt? tag ls with
  | none => rfl
  | some parts =>
      obtain ⟨above, l, below⟩ := parts
      cases below <;> rfl

end Operation

theorem Endpoint.ofBlock_renumber (resource : Resource) {b : Block} (h : b.lines ≠ []) :
    ofBlock resource (b.renumber f) = (ofBlock resource b).mapError (Problem.renumber f) := by
  have hitems := Operation.readItems_renumber f b.lines
  rw [ofBlock, Block.startLine_renumber f h, Block.renumber, Block.splitAt?_renumber, ofBlock]
  cases Block.splitAt? .path b.lines with
  | none => rfl
  | some parts =>
      obtain ⟨above, l, below⟩ := parts
      simp only [Option.map_some, CommentLine.rest_renumber, CommentLine.number_renumber,
        CommentLine.prose_renumber, Operation.textOf?, Operation.typeOf?,
        Operation.restOf?_renumber, Operation.sampleOf?_renumber, hitems]
      cases PathLine.read l.rest with
      | error fault => rfl
      | ok line => exact (Operation.mapError_map _ _ _).symm

/-! ### Models -/

namespace Property

theorem readContinuation_renumber (p : Property) (ls : List CommentLine) :
    readContinuation p (ls.map (CommentLine.renumber f)) = readContinuation p ls := by
  cases ls <;> rfl

theorem readSample_renumber (p : Property) (ls : List CommentLine) :
    readSample p (ls.map (CommentLine.renumber f)) = readSample p ls := by
  cases ls with
  | nil => rfl
  | cons l ls => cases ls <;> rfl

theorem read_renumber (rest : Text) (ls : List CommentLine) :
    read rest (ls.map (CommentLine.renumber f)) = read rest ls := by
  simp only [read, readContinuation_renumber, ← List.map_drop, readSample_renumber]

end Property

namespace Model

theorem readBody_renumber (used : Nat) (ls : List CommentLine) :
    readBody used (ls.map (CommentLine.renumber f)) = readBody used ls := by
  induction ls generalizing used with
  | nil => cases used <;> rfl
  | cons l ls ih =>
      cases used with
      | succ used => exact ih used
      | zero =>
          simp only [List.map_cons, readBody, CommentLine.tag_renumber, CommentLine.rest_renumber,
            CommentLine.prose?_renumber, Property.read_renumber, ih]

theorem ofBlock_renumber (b : Block) : ofBlock (b.renumber f) = ofBlock b := by
  rw [ofBlock, Block.renumber, Block.splitAt?_renumber, ofBlock]
  cases Block.splitAt? .model b.lines with
  | none => rfl
  | some parts => simp [readBody_renumber]

theorem warnings_renumber (g : Grammar) (b : Block) :
    warnings g (b.renumber f) = (warnings g b).map (Problem.renumber f) := by
  rw [warnings, Block.renumber, Block.splitAt?_renumber, warnings]
  cases Block.splitAt? .model b.lines with
  | none => rfl
  | some parts => simp [List.filter_map, Function.comp_def, Problem.renumber]

end Model

/-! ### Blocks -/

namespace Reading

theorem problems_renumber (r : Reading) :
    (r.renumber f).problems = r.problems.map (Problem.renumber f) := by
  cases horphan : r.orphan <;> simp [problems, renumber, horphan, Problem.renumber]

theorem pushEndpoint_renumber (resource : Option Resource) {b : Block} (h : b.lines ≠ [])
    (r : Reading) :
    pushEndpoint resource (b.renumber f) (r.renumber f) =
      (pushEndpoint resource b r).renumber f := by
  cases resource with
  | none => simp [pushEndpoint, renumber, Block.startLine_renumber f h]
  | some resource =>
      rw [pushEndpoint, pushEndpoint, Endpoint.ofBlock_renumber f resource h]
      cases Endpoint.ofBlock resource b <;> rfl

theorem pushModel_renumber (g : Grammar) (b : Block) (r : Reading) :
    pushModel g (b.renumber f) (r.renumber f) = (pushModel g b r).renumber f := by
  simp [pushModel, renumber, Model.ofBlock_renumber, Model.warnings_renumber]

theorem lines_ne_nil_of_kind {b : Block} (h : b.kind = .endpoint) : b.lines ≠ [] := by
  intro hlines
  simp [Block.kind, Block.has, hlines] at h

theorem ofBlocks_renumber (g : Grammar) (resource : Option Resource) (bs : List Block) :
    ofBlocks g resource (bs.map (Block.renumber f)) = (ofBlocks g resource bs).renumber f := by
  induction bs generalizing resource with
  | nil => rfl
  | cons b bs ih =>
      rw [List.map_cons, ofBlocks, ofBlocks, Block.kind_renumber, Resource.ofBlock_renumber]
      cases hk : b.kind with
      | resource | commentary => exact ih _
      | endpoint =>
          simp only [ih]
          exact pushEndpoint_renumber f resource (lines_ne_nil_of_kind hk) _
      | model =>
          simp only [ih]
          exact pushModel_renumber f g b _

end Reading

namespace Docs

theorem ofReading_renumber (file : Text) (r : Reading) :
    ofReading file (r.renumber f) = (ofReading file r).renumber f := by
  simp only [ofReading, Reading.problems_renumber, renumber, List.map_map]
  rfl

/-- A source whose blocks are those of another one with other line numbers. -/
theorem ofSource_eq_renumber {g : Grammar} {s t : Text}
    (h : Block.ofSource g t = (Block.ofSource g s).map (Block.renumber f)) (file : Text) :
    ofSource g file t = (ofSource g file s).renumber f := by
  have hreading := Reading.ofBlocks_renumber f g none (Block.ofSource g s)
  rw [← h] at hreading
  exact (congrArg (ofReading file) hreading).trans (ofReading_renumber f file _)

end Docs
end DocTags
