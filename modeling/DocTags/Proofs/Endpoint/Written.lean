import DocTags.Proofs.Block.Comments
import DocTags.Proofs.Endpoint.Heading
import DocTags.Proofs.Endpoint.Validity

/-!
Parameters, responses and the other parts of an endpoint as they are written, each read back from
its own line.
-/

namespace DocTags

open Grammar (standard)

/-! ### Parameters -/

namespace Parameter

/-- The line of the description that stands on the line of the tag. -/
def firstLine (p : Parameter) : Text :=
  (Text.linesOf p.description).headD []

def heading (p : Parameter) : Heading where
  name := p.name
  flags := p.location.name :: if p.required then ["required".toList] else []
  datatype := p.datatype
  description := p.firstLine

def passage (p : Parameter) : Passage :=
  ⟨.parameter, p.heading.text, (Text.linesOf p.description).tail⟩

/-- A parameter that can be written so that it is read back. -/
structure Expressible (p : Parameter) : Prop where
  valid : p.Valid
  name : p.name.IsLine
  name_marks : ∀ c ∈ p.name, c ≠ '(' ∧ c ≠ '[' ∧ c ≠ ']'
  datatype : p.datatype.IsLine
  datatype_marks : ∀ c ∈ p.datatype, c ≠ '(' ∧ c ≠ ')' ∧ c ≠ '[' ∧ c ≠ ']'
  /-- A parameter that is not required does not say that it is. -/
  unmarked : p.required = false → ∀ g ∈ Text.groups '(' ')' p.firstLine, isRequiredMark g = false
  firstLine : ∀ s ∈ (Text.linesOf p.description).head?, s.IsLine ∧ s ≠ []
  more : ∀ s ∈ (Text.linesOf p.description).tail, s.IsProse

variable {p : Parameter}

theorem Expressible.isLine_firstLine (h : p.Expressible) : p.firstLine.IsLine := by
  unfold Parameter.firstLine
  cases hlines : Text.linesOf p.description with
  | nil => exact ⟨by decide, by decide⟩
  | cons s ls => exact (h.firstLine s (by simp [hlines])).1

theorem isFlag_required : Heading.IsFlag "required".toList := by
  decide

theorem isFlag_location (l : Location) : Heading.IsFlag l.name := by
  cases l <;> decide

theorem ofToken?_name (l : Location) : Location.ofToken? l.name = some l := by
  cases l <;> decide

theorem isRequiredMark_location (l : Location) : isRequiredMark l.name = false := by
  cases l <;> decide

theorem Expressible.valid_heading (h : p.Expressible) : p.heading.Valid where
  name := h.name
  name_marks := h.name_marks
  flags := by
    intro flag hflag
    rcases List.mem_cons.1 hflag with rfl | hflag
    · exact isFlag_location p.location
    · obtain rfl : flag = "required".toList := by
        split at hflag <;> simp_all
      exact isFlag_required
  datatype := h.datatype
  datatype_marks hc := (h.datatype_marks _ hc).2.2.2 rfl
  description := h.isLine_firstLine

theorem Expressible.valid_passage (h : p.Expressible) : p.passage.Valid :=
  ⟨show Tag.parameter ∈ Tag.declared by decide, h.valid_heading.not_mem_text, h.more⟩

theorem Expressible.groups (h : p.Expressible) :
    Text.groups '(' ')' (Text.trim p.passage.text) =
      p.location.name :: ((if p.required then ["required".toList] else []) ++
        Text.groups '(' ')' p.firstLine) :=
  h.valid_heading.groups fun hc => (h.datatype_marks _ hc).1 rfl

theorem Expressible.any_isRequiredMark (h : p.Expressible) :
    (p.location = .path || (Text.groups '(' ')' (Text.trim p.passage.text)).any isRequiredMark) =
      p.required := by
  rw [h.groups]
  cases hreq : p.required with
  | true =>
      have hany (groups : List Text) :
          (p.location.name :: (["required".toList] ++ groups)).any isRequiredMark = true :=
        List.any_eq_true.2
          ⟨"required".toList, List.mem_cons_of_mem _ List.mem_cons_self, by decide⟩
      rw [if_pos rfl, hany, Bool.or_true]
  | false =>
      have hpath : p.location ≠ .path := fun hp => by simp [h.valid hp] at hreq
      have hunmarked : (Text.groups '(' ')' p.firstLine).any isRequiredMark = false := by
        simpa using h.unmarked hreq
      simp [hpath, isRequiredMark_location, hunmarked]

theorem Expressible.read_passage (h : p.Expressible) {below : List CommentLine}
    (hbelow : (below.takeWhile (·.isPlain)).map (·.text) = p.passage.more) :
    Parameter.read (Text.trim p.passage.text) below = .ok p := by
  have hv := h.valid_heading
  have hlocation : readLocation p.name (Text.groups '(' ')' (Text.trim p.passage.text)) =
      .ok p.location := by
    rw [h.groups, readLocation, List.find?_cons_of_pos (by simp [isRequiredMark_location])]
    simp [ofToken?_name]
  have hdescription : Text.joinLines ((p.firstLine :: p.passage.more).filter (!·.isEmpty)) =
      p.description := by
    have hfilter : (p.firstLine :: p.passage.more).filter (!·.isEmpty) =
        Text.linesOf p.description := by
      rw [Parameter.firstLine, passage]
      cases hlines : Text.linesOf p.description with
      | nil => rfl
      | cons s ls =>
          have hs : s ≠ [] := (h.firstLine s (by simp [hlines])).2
          have hls : ∀ t ∈ ls, t ≠ [] := fun t ht => (h.more t (by simpa [hlines] using ht)).ne_nil
          refine List.filter_eq_self.2 fun t ht => ?_
          rcases List.mem_cons.1 ht with rfl | ht
          · simpa using hs
          · simpa using hls t ht
    rw [hfilter, Text.joinLines_linesOf]
  have hname : Text.trim (headline (Text.trim p.passage.text)) = p.name := hv.headline
  have hdatatype : datatypeOf (Text.trim p.passage.text) = p.datatype := hv.datatypeOf
  have hfirst : Text.trim ((trailing? (Text.trim p.passage.text)).getD []) = p.firstLine := by
    rw [show trailing? (Text.trim p.passage.text) = some p.heading.tail from hv.trailing?]
    exact hv.trim_tail
  rw [Parameter.read]
  simp only [hname, hlocation, hdatatype, hfirst, hbelow, hdescription, bind, Except.bind, pure,
    Except.pure, h.any_isRequiredMark]

end Parameter

/-! ### Responses -/

namespace Response

structure Expressible (r : Response) : Prop where
  valid : r.Valid
  description : r.description.IsLine

def passage (r : Response) : Passage :=
  ⟨.response, r.code ++ ' ' :: r.description, []⟩

variable {r : Response}

theorem Valid.isTrimmed_code (h : r.Valid) : r.code.IsTrimmed :=
  ⟨fun c hc => h.code_word c (List.mem_of_mem_head? hc),
    fun c hc => h.code_word c (List.mem_of_getLast? hc)⟩

theorem Expressible.valid_passage (h : r.Expressible) : r.passage.Valid where
  tag := show Tag.response ∈ Tag.declared by decide
  line hn := by
    have hn' : '\n' ∈ r.code ∨ '\n' ∈ r.description := by simpa [passage] using hn
    rcases hn' with hn | hn
    · exact absurd (h.valid.code_word _ hn) (by decide)
    · exact h.description.line hn
  more := by simp [passage]

theorem Expressible.read_passage (h : r.Expressible) :
    Response.read? (Text.trim r.passage.text) = some r := by
  have htext : Text.trim r.passage.text =
      r.code ++ if r.description = [] then [] else ' ' :: r.description := by
    rw [passage, Text.trim_append h.valid.isTrimmed_code h.valid.code_ne_nil,
      Text.trimEnd_cons_of_isTrimmed h.description.isTrimmed]
  have hword : firstWord (Text.trim (Text.trim r.passage.text)) = (r.code, r.description) := by
    rw [Text.trim_eq_self (Text.isTrimmed_trim r.passage.text), htext]
    split
    · next hd => rw [List.append_nil, firstWord_of_forall h.valid.code_word, hd]
    · exact firstWord_of_cut (Text.cut?_append_cons _ h.valid.code_word (by decide))
  have hne : r.code.isEmpty = false := by simpa using h.valid.code_ne_nil
  simp [Response.read?, hword, hne, Text.trim_eq_self h.description.isTrimmed]

end Response

/-! ### Paths -/

namespace PathLine

/-- The verb in brackets, and the path. -/
def written (verb : Verb) (path : Text) : Text :=
  '[' :: (verb.name ++ ']' :: ' ' :: path)

theorem ofToken?_name (v : Verb) : Verb.ofToken? v.name = some v := by
  cases v <;> decide

theorem not_mem_name (v : Verb) : ∀ c ∈ v.name, (c == ']') = false := by
  cases v <;> decide

theorem trim_name (v : Verb) : Text.trim v.name = v.name := by
  cases v <;> decide

theorem isTrimmed_written (verb : Verb) {path : Text} (hpath : path.IsTrimmed) (hne : path ≠ []) :
    (written verb path).IsTrimmed := by
  obtain ⟨c, hc⟩ := Option.ne_none_iff_exists'.1 (mt List.getLast?_eq_none_iff.1 hne)
  refine ⟨by rintro _ ⟨⟩; decide, fun d hd => ?_⟩
  have hlast : (written verb path).getLast? = some c := by
    simp [written, List.getLast?_cons, List.getLast?_append, hc]
  rw [hlast] at hd
  exact hpath.last d (hc.trans hd)

theorem not_mem_written (verb : Verb) {path : Text} (hpath : '\n' ∉ path) :
    '\n' ∉ written verb path := by
  have hname : '\n' ∉ verb.name := by cases verb <;> decide
  simp [written, hname, hpath]

theorem read_written (verb : Verb) {path : Text} (hpath : path.IsTrimmed) (hne : path ≠ []) :
    read (Text.trim (written verb path)) = .ok (verb, path) := by
  have htrim := Text.trim_eq_self (isTrimmed_written verb hpath hne)
  have hsplit : split (written verb path) = .ok (verb.name, path) := by
    rw [written, split, Text.cut?_append_cons _ (not_mem_name verb) (beq_self_eq_true ']')]
    simp [trim_name, Text.trim_cons_of_isBlank (show isBlank ' ' = true by decide),
      Text.trim_eq_self hpath]
  rw [read, htrim, htrim, hsplit]
  have hempty : path.isEmpty = false := by simpa using hne
  simp [bind, Except.bind, ofToken?_name, hempty, pure, Except.pure]

end PathLine
end DocTags
