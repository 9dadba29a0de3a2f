import DocTags.Endpoint.Reader
import DocTags.Proofs.Block.Written

/-!
Blocks that are made of prose and of lines with tags. What a reader looks for by its tag it finds on
the first line that is written with that tag.
-/

namespace DocTags

open Grammar (standard)

/-- A line of prose: behind the comment mark it begins with no tag. -/
structure Text.IsProse (s : Text) : Prop where
  isLine : s.IsLine
  ne_nil : s ≠ []
  plain : Line.classify standard (Line.written s) = .plain s

instance (s : Text) : Decidable s.IsProse :=
  decidable_of_iff (s.IsLine ∧ s ≠ [] ∧ Line.classify standard (Line.written s) = .plain s)
    ⟨fun h => ⟨h.1, h.2.1, h.2.2⟩, fun h => ⟨h.isLine, h.ne_nil, h.plain⟩⟩

/-- For each tag one of its standard spellings. -/
structure Spelling where
  marker : Tag → Text
  marker_mem : ∀ tag ∈ Tag.declared, marker tag ∈ standard.spellings tag

def Spelling.first : Spelling where
  marker tag := (standard.spellings tag).headD []
  marker_mem := by decide

inductive Comment where
  | prose (s : Text)
  | tagged (tag : Tag) (s : Text)
  deriving DecidableEq, Repr

namespace Comment

def Valid : Comment → Prop
  | prose s => s.IsProse
  | tagged tag s => tag ∈ Tag.declared ∧ '\n' ∉ s

/-- The comment as it is written behind the comment mark. -/
def text (sp : Spelling) : Comment → Text
  | prose s => s
  | tagged tag s => sp.marker tag ++ ' ' :: s

/-- What the line of the comment is classified as. -/
def line (sp : Spelling) : Comment → Line
  | prose s => .plain s
  | tagged tag s => .tagged tag (Text.trim (sp.marker tag ++ ' ' :: s)) (Text.trim s)

/-- What is written behind a tag, if the comment begins with it. -/
def rest? (tag : Tag) : Comment → Option Text
  | prose _ => none
  | tagged t s => if t = tag then some (Text.trim s) else none

/-- The text of a comment without a tag. -/
def prose? : Comment → Option Text
  | prose s => some s
  | tagged _ _ => none

theorem filterMap_prose?_prose (ls : List Text) : (ls.map prose).filterMap prose? = ls := by
  rw [List.filterMap_map]
  exact List.filterMap_some

theorem ofComment_text (sp : Spelling) {c : Comment} (h : c.Valid) :
    Line.ofComment standard (Text.trim (c.text sp)) = c.line sp := by
  rw [← Line.classify_written]
  cases c with
  | prose s => exact h.plain
  | tagged tag s => exact Line.classify_written_spelling h.1 (sp.marker_mem tag h.1) s

theorem not_mem_text (sp : Spelling) {c : Comment} (h : c.Valid) : '\n' ∉ c.text sp := by
  cases c with
  | prose s => exact h.isLine.line
  | tagged tag s =>
      have hmarker := Line.not_mem_spellings tag h.1 _ (sp.marker_mem tag h.1)
      simpa [text, hmarker] using h.2

end Comment

namespace WrittenBlock

def ofComments (gap : Nat) (sp : Spelling) (cs : List Comment) : WrittenBlock :=
  ⟨gap, cs.map (Comment.text sp)⟩

theorem content_ofComments (gap : Nat) (sp : Spelling) {cs : List Comment}
    (h : ∀ c ∈ cs, c.Valid) :
    (ofComments gap sp cs).content = .tagged .blockStart [] [] :: cs.map (Comment.line sp) := by
  rw [content, ofComments, List.map_map]
  exact congrArg _ (List.map_congr_left fun c hc => Comment.ofComment_text sp (h c hc))

theorem not_mem_comments_ofComments (gap : Nat) (sp : Spelling) {cs : List Comment}
    (h : ∀ c ∈ cs, c.Valid) : ∀ s ∈ (ofComments gap sp cs).comments, '\n' ∉ s := by
  intro s hs
  obtain ⟨c, hc, rfl⟩ := List.mem_map.1 hs
  exact Comment.not_mem_text sp (h c hc)

end WrittenBlock

/-! ### The lines of a block -/

namespace CommentLine

/-- The lines of these comments, of which the first has this number. -/
def ofComments (sp : Spelling) (n : Nat) (cs : List Comment) : List CommentLine :=
  ofLines n (cs.map (Comment.line sp))

variable {sp : Spelling}

theorem ofComments_prose_cons (n : Nat) (s : Text) (cs : List Comment) :
    ofComments sp n (.prose s :: cs) = ⟨n, none, s, s⟩ :: ofComments sp (n + 1) cs := rfl

theorem ofComments_tagged_cons (n : Nat) (tag : Tag) (s : Text) (cs : List Comment) :
    ofComments sp n (.tagged tag s :: cs) =
      ⟨n, some tag, Text.trim (sp.marker tag ++ ' ' :: s), Text.trim s⟩ ::
        ofComments sp (n + 1) cs := rfl

theorem ofComments_append (n : Nat) (cs ds : List Comment) :
    ofComments sp n (cs ++ ds) = ofComments sp n cs ++ ofComments sp (n + cs.length) ds := by
  rw [ofComments, List.map_append, ofLines_append, List.length_map]
  rfl

theorem find?_ofComments (n : Nat) (tag : Tag) (cs : List Comment) :
    ((ofComments sp n cs).find? (·.has tag)).map (·.rest) = cs.findSome? (Comment.rest? tag) := by
  induction cs generalizing n with
  | nil => rfl
  | cons c cs ih =>
      cases c with
      | prose s =>
          rw [ofComments_prose_cons, List.find?_cons_of_neg (by simp [has]), ih]
          rfl
      | tagged t s =>
          rw [ofComments_tagged_cons]
          by_cases h : t = tag
          · simp [has, h, Comment.rest?]
          · rw [List.find?_cons_of_neg (by simpa [has] using h), ih]
            simp [Comment.rest?, h]

theorem has_of_mem_ofComments {n : Nat} {tag : Tag} {cs : List Comment}
    (h : cs.findSome? (Comment.rest? tag) = none) {l : CommentLine} (hl : l ∈ ofComments sp n cs) :
    l.has tag = false := by
  have hfind : (ofComments sp n cs).find? (·.has tag) = none := by
    rw [← Option.map_eq_none_iff, find?_ofComments, h]
  simpa using List.find?_eq_none.1 hfind l hl

theorem filterMap_prose?_ofComments (n : Nat) {cs : List Comment} (h : ∀ c ∈ cs, c.Valid) :
    (ofComments sp n cs).filterMap prose? = cs.filterMap Comment.prose? := by
  induction cs generalizing n with
  | nil => rfl
  | cons c cs ih =>
      have htail := ih (n + 1) fun d hd => h d (List.mem_cons_of_mem c hd)
      cases c with
      | prose s =>
          have hs : s ≠ [] := (h _ List.mem_cons_self).ne_nil
          have hfirst : prose? ⟨n, none, s, s⟩ = some s := by simp [prose?, isPlain, hs]
          rw [ofComments_prose_cons, List.filterMap_cons, hfirst, htail]
          rfl
      | tagged tag s =>
          rw [ofComments_tagged_cons, List.filterMap_cons, htail]
          rfl

theorem exists_text_of_mem_ofComments {n : Nat} {cs : List Comment} (h : ∀ c ∈ cs, c.Valid)
    {l : CommentLine} (hl : l ∈ ofComments sp n cs) : ∃ c ∈ cs, l.text = Text.trim (c.text sp) := by
  induction cs generalizing n with
  | nil => cases hl
  | cons c cs ih =>
      have htail : l ∈ ofComments sp (n + 1) cs →
          ∃ d ∈ c :: cs, l.text = Text.trim (d.text sp) := by
        intro hl
        obtain ⟨d, hd, htext⟩ := ih (fun d hd => h d (List.mem_cons_of_mem c hd)) hl
        exact ⟨d, List.mem_cons_of_mem c hd, htext⟩
      cases c with
      | prose s =>
          rcases List.mem_cons.1 hl with rfl | hl
          · have hs : s.IsTrimmed := (h _ List.mem_cons_self).isLine.isTrimmed
            exact ⟨.prose s, List.mem_cons_self, (Text.trim_eq_self hs).symm⟩
          · exact htail hl
      | tagged tag s =>
          rcases List.mem_cons.1 hl with rfl | hl
          · exact ⟨.tagged tag s, List.mem_cons_self, rfl⟩
          · exact htail hl

end CommentLine

/-! ### Passages -/

/-- A comment with a tag, and the prose below it. -/
structure Passage where
  tag : Tag
  text : Text
  more : List Text
  deriving DecidableEq, Repr

namespace Passage

def comments (a : Passage) : List Comment :=
  .tagged a.tag a.text :: a.more.map .prose

/-- A passage for a text that need not be there. -/
def note (tag : Tag) (s : Option Text) : List Passage :=
  s.toList.map fun s => ⟨tag, s, []⟩

theorem flatMap_comments_note (tag : Tag) (s : Option Text) :
    (note tag s).flatMap comments = s.toList.map (.tagged tag) := by
  cases s <;> rfl

structure Valid (a : Passage) : Prop where
  tag : a.tag ∈ Tag.declared
  line : '\n' ∉ a.text
  more : ∀ s ∈ a.more, s.IsProse

theorem Valid.comments {a : Passage} (h : a.Valid) : ∀ c ∈ a.comments, c.Valid := by
  intro c hc
  rcases List.mem_cons.1 hc with rfl | hc
  · exact ⟨h.tag, h.line⟩
  · obtain ⟨s, hs, rfl⟩ := List.mem_map.1 hc
    exact h.more s hs

end Passage

theorem Comment.findSome?_rest?_prose (tag : Tag) (ls : List Text) :
    (ls.map .prose).findSome? (Comment.rest? tag) = none := by
  simp [List.findSome?_eq_none_iff, rest?]

theorem Passage.findSome?_rest? (tag : Tag) (as : List Passage) :
    (as.flatMap comments).findSome? (Comment.rest? tag) =
      (as.find? (·.tag = tag)).map fun a => Text.trim a.text := by
  induction as with
  | nil => rfl
  | cons a as ih =>
      rw [List.flatMap_cons, comments, List.cons_append, List.findSome?_cons, List.findSome?_append,
        Comment.findSome?_rest?_prose, Option.none_or, ih, Comment.rest?]
      by_cases h : a.tag = tag <;> simp [h]

namespace Block

theorem map_splitAt?_eq_find? (tag : Tag) (lines : List CommentLine) :
    (splitAt? tag lines).map (fun parts => parts.2.1) = lines.find? (·.has tag) := by
  induction lines with
  | nil => rfl
  | cons l lines ih =>
      rw [splitAt?, List.find?_cons]
      cases h : l.has tag
      · rw [← ih, if_neg (by simp), Option.map_map]
        rfl
      · rfl

/-- A block of these comments, wherever it stands. -/
def IsMadeOf (b : Block) (sp : Spelling) (cs : List Comment) : Prop :=
  b.HasContent (.tagged .blockStart [] [] :: cs.map (Comment.line sp))

variable {b : Block} {sp : Spelling} {cs : List Comment}

theorem IsMadeOf.exists_lines_eq (h : b.IsMadeOf sp cs) :
    ∃ n, b.lines = ⟨n, some .blockStart, [], []⟩ :: CommentLine.ofComments sp (n + 1) cs :=
  h

theorem IsMadeOf.find? (h : b.IsMadeOf sp cs) {tag : Tag} (htag : tag ≠ .blockStart) :
    (b.lines.find? (·.has tag)).map (·.rest) = cs.findSome? (Comment.rest? tag) := by
  obtain ⟨n, hn⟩ := h.exists_lines_eq
  rw [hn, List.find?_cons_of_neg (by simpa [CommentLine.has] using htag.symm),
    CommentLine.find?_ofComments]

theorem IsMadeOf.has (h : b.IsMadeOf sp cs) {tag : Tag} (htag : tag ≠ .blockStart) :
    b.has tag = (cs.findSome? (Comment.rest? tag)).isSome := by
  rw [← h.find? htag, Option.isSome_map, List.isSome_find?]
  rfl

/-- The lines above and below the first comment with a tag. -/
theorem IsMadeOf.splitAt? {above below : List Comment} {tag : Tag} {s : Text}
    (h : b.IsMadeOf sp (above ++ .tagged tag s :: below)) (htag : tag ≠ .blockStart)
    (habove : above.findSome? (Comment.rest? tag) = none) (hvalid : ∀ c ∈ above, c.Valid) :
    ∃ n before l, Block.splitAt? tag b.lines = some (before, l, CommentLine.ofComments sp n below) ∧
      l.rest = Text.trim s ∧
        before.filterMap CommentLine.prose? = above.filterMap Comment.prose? := by
  obtain ⟨n, hn⟩ := h.exists_lines_eq
  rw [CommentLine.ofComments_append, CommentLine.ofComments_tagged_cons, ← List.cons_append] at hn
  have hbefore : ∀ m ∈ ⟨n, some .blockStart, [], []⟩ :: CommentLine.ofComments sp (n + 1) above,
      m.has tag = false := by
    intro m hm
    rcases List.mem_cons.1 hm with rfl | hm
    · simpa [CommentLine.has] using htag.symm
    · exact CommentLine.has_of_mem_ofComments habove hm
  rw [hn, splitAt?_append_cons hbefore (by simp [CommentLine.has])]
  refine ⟨_, _, _, rfl, rfl, ?_⟩
  rw [List.filterMap_cons, CommentLine.filterMap_prose?_ofComments _ hvalid]
  rfl

/-- The blocks of a source that is written block by block, each of its comments. -/
theorem forall₂_isMadeOf (sp : Spelling) {parts : List (Nat × List Comment)}
    (h : ∀ part ∈ parts, ∀ c ∈ part.2, c.Valid) :
    List.Forall₂ (fun b part => b.IsMadeOf sp part.2)
      (ofSource standard
        (WrittenBlock.source (parts.map fun part => .ofComments part.1 sp part.2))) parts := by
  have hline : ∀ w ∈ parts.map fun part => WrittenBlock.ofComments part.1 sp part.2,
      ∀ c ∈ w.comments, '\n' ∉ c := by
    intro w hw
    obtain ⟨part, hpart, rfl⟩ := List.mem_map.1 hw
    exact WrittenBlock.not_mem_comments_ofComments part.1 sp (h part hpart)
  have hcontent : (parts.map fun part => WrittenBlock.ofComments part.1 sp part.2).map
      WrittenBlock.content =
        parts.map fun part => .tagged .blockStart [] [] :: part.2.map (Comment.line sp) := by
    rw [List.map_map]
    exact List.map_congr_left fun part hpart =>
      WrittenBlock.content_ofComments part.1 sp (h part hpart)
  have hblocks := forall₂_ofSource hline
  rw [hcontent, List.forall₂_map_right_iff] at hblocks
  exact hblocks

end Block
end DocTags
