import DocTags.Proofs.OpenApi.Kept
import DocTags.Proofs.Run.Stages

/-!
Component schemas. Models replace each other by name, and so do the properties of a model: an entry
stands where its name first comes and says what the last of that name says. The list of required
properties is made in a pass of its own, in which nothing is replaced. It agrees with the properties
beside it as long as no required property is documented again.
-/

namespace DocTags

namespace OpenApi

/-! ### Models and their properties -/

/-- The schema of a property has its data type and its description unless they are empty, its mark
as nullable, and its example as a string. -/
structure Schema.IsOfProperty (p : Property) (s : Schema) : Prop where
  type : s.type = if p.datatype = [] then none else some p.datatype
  description : s.description = if p.description = [] then none else some p.description
  nullable : s.nullable = p.nullable
  sample : s.sample = p.sample.map .string
  rest : s.reference = none ∧ s.properties = none ∧ s.required = none

theorem Schema.isOfProperty_iff (p : Property) (s : Schema) :
    s.IsOfProperty p ↔ s = ofProperty p := by
  have hnonempty (t : Text) : Text.nonempty? t = if t = [] then none else some t := by
    simp [Text.nonempty?]
  constructor
  · rintro ⟨htype, hdescription, hnullable, hsample, hreference, hproperties, hrequired⟩
    obtain ⟨reference, type, description, nullable, properties, required, sample⟩ := s
    simp_all [ofProperty]
  · rintro rfl
    exact ⟨hnonempty _, hnonempty _, rfl, rfl, rfl, rfl, rfl⟩

/-- The properties of the schema of a model. -/
def Schema.propertiesOf (m : Model) : OrderedMap Schema :=
  OrderedMap.ofEntries (m.properties.map fun p => (p.name, ofProperty p))

theorem Schema.properties_ofModelRecord (m : Model) :
    (ofModelRecord m).properties = some (propertiesOf m) := rfl

theorem Schema.isFilled_propertiesOf (m : Model) :
    (propertiesOf m).IsFilled (·.name) (fun p s => s.IsOfProperty p) m.properties :=
  OrderedMap.isFilled_ofEntries isOfProperty_iff m.properties

namespace Document

/-- A model is reported where a model of the same name stands before it. -/
theorem repeatedModels_eq (ms : List Model) :
    repeatedModels [] ms =
      (ms.zipIdx.filter fun (m, i) => m.name ∈ (ms.take i).map (·.name)).map (·.1.name) := by
  induction ms using List.reverseRecOn with
  | nil => rfl
  | append_singleton ms m ih =>
      have habove : ∀ e ∈ ms.zipIdx,
          decide (e.1.name ∈ ((ms ++ [m]).take e.2).map (·.name)) =
            decide (e.1.name ∈ (ms.take e.2).map (·.name)) := by
        intro e he
        have hlt : e.2 < ms.length := by
          have := List.snd_lt_of_mem_zipIdx he
          omega
        rw [List.take_append_of_le_length (Nat.le_of_lt hlt)]
      rw [repeatedModels_concat, ih, List.zipIdx_append, List.filter_append, List.map_append,
        List.filter_congr habove]
      by_cases h : m.name ∈ ms.map (·.name) <;> simp_all

/-- There is one schema for each name of a model, and one entry in the log for each model whose name
has come before; a run that makes the document ends its log with these. The properties of a schema
are those of its model, by the same rule. -/
theorem schemas_build (info : Info) (servers : List Text) (groups : List PathGroup)
    (ms : List Model) :
    let schemas := (build info servers groups ms).schemas
    let log := (repeatedModels [] ms).map LogEntry.ofRepeatedModel
    schemas.IsFilled (·.name) (fun m s => s = Schema.ofModelRecord m) ms ∧
    log = (ms.zipIdx.filter fun (m, i) => m.name ∈ (ms.take i).map (·.name)).map (fun (m, _) =>
      ⟨.warning,
        "Model ".toList ++ m.name ++ " is documented more than once, the last block wins".toList⟩) ∧
    ms.length = schemas.length + log.length ∧
    (∀ (a : Arguments) (t : FileTree), Run.fault? a t = none → (Run.parsed a t).models = ms →
      ∃ early, (run a t).log = early ++ log) ∧
    ∀ m : Model, ∃ properties : OrderedMap Schema,
      (Schema.ofModelRecord m).properties = some properties ∧
      properties.IsFilled (·.name) (fun p s => s.IsOfProperty p) m.properties := by
  intro schemas log
  refine ⟨OrderedMap.isFilled_ofEntries (fun _ _ => Iff.rfl) ms, ?_, ?_, ?_, fun m => ?_⟩
  · rw [show log = _ from congrArg _ (repeatedModels_eq ms), List.map_map]
    rfl
  · rw [List.length_map]
    exact length_eq_length_modelSchemas_add ms
  · rintro a t hfault rfl
    rw [Run.run_of_fault?_eq_none hfault, Run.log_deliver]
    exact ⟨_, rfl⟩
  · exact ⟨_, Schema.properties_ofModelRecord m, Schema.isFilled_propertiesOf m⟩

end Document
end OpenApi

/-! ### Required properties -/

namespace Model

open OpenApi

/-- The property that the schema of a model renders under a name. -/
def rendered? (m : Model) (name : Text) : Option Property :=
  m.properties.findRev? fun p => p.name = name

/-- The properties of a model that are marked as required, replaced ones among them. -/
def requiredProperties (m : Model) : List Property :=
  m.properties.filter fun p => p.required = some true

/-- The list of required properties agrees with the properties beside it: no name is repeated, and
the names are those under which a required property is rendered. -/
structure RequiredAgrees (m : Model) : Prop where
  nodup : ∀ names ∈ (Schema.ofModelRecord m).required, names.Nodup
  mem_iff : ∀ name, (∃ names ∈ (Schema.ofModelRecord m).required, name ∈ names) ↔
    ∃ p ∈ m.rendered? name, p.required = some true
  none_iff : (Schema.ofModelRecord m).required = none ↔
    ∀ name, ∀ p ∈ m.rendered? name, p.required ≠ some true

variable {m : Model}

theorem required_ofModelRecord (m : Model) :
    (Schema.ofModelRecord m).required =
      if m.requiredProperties = [] then none else some (m.requiredProperties.map (·.name)) := by
  simp [Schema.ofModelRecord, requiredProperties]

theorem required_eq_none_iff :
    (Schema.ofModelRecord m).required = none ↔ ∀ p ∈ m.properties, p.required ≠ some true := by
  simp [required_ofModelRecord, requiredProperties]

theorem exists_mem_required_iff {name : Text} :
    (∃ names ∈ (Schema.ofModelRecord m).required, name ∈ names) ↔
      ∃ p ∈ m.properties, p.required = some true ∧ p.name = name := by
  rw [required_ofModelRecord]
  split
  · next h =>
      have hnone : ∀ p ∈ m.properties, p.required ≠ some true := by
        simpa [requiredProperties] using h
      simpa using fun p hp hrequired => absurd hrequired (hnone p hp)
  · simp [requiredProperties, and_assoc]

theorem rendered?_eq_getLast? (m : Model) (name : Text) :
    m.rendered? name = (m.properties.filter fun p => p.name = name).getLast? := by
  rw [rendered?, List.findRev?_eq_find?_reverse, List.getLast?_filter]

theorem of_mem_rendered? {name : Text} {p : Property} (h : p ∈ m.rendered? name) :
    p ∈ m.properties ∧ p.name = name := by
  rw [rendered?_eq_getLast?] at h
  simpa using List.mem_of_getLast? h

/-- A property that is documented again stands before the one that is rendered. -/
theorem sublist_rendered? {p q r : Property} (h : [p, q].Sublist m.properties)
    (hname : p.name = q.name) (hr : r ∈ m.rendered? q.name) : [p, r].Sublist m.properties := by
  have hnamed := h.filter fun p => p.name = q.name
  rw [rendered?_eq_getLast?] at hr
  obtain ⟨above, habove⟩ := List.getLast?_eq_some_iff.1 hr
  rw [habove] at hnamed
  have hp : [p].Sublist above := by
    rw [← List.reverse_sublist]
    simpa [hname] using hnamed.reverse.tail
  have hpr : ([p] ++ [r]).Sublist (above ++ [r]) := hp.append_right [r]
  exact (habove ▸ hpr).trans List.filter_sublist

/-- A property without a later one of its name is rendered. -/
theorem rendered?_append_cons {above below : List Property} {p : Property}
    (hm : m.properties = above ++ p :: below) (hbelow : ∀ q ∈ below, p.name ≠ q.name) :
    m.rendered? p.name = some p := by
  have hnone : below.filter (fun q => q.name = p.name) = [] := by
    simpa [List.filter_eq_nil_iff] using fun q hq e => hbelow q hq e.symm
  rw [rendered?_eq_getLast?, hm, List.filter_append, List.filter_cons_of_pos (by simp), hnone]
  simp

/-- Where the lists agree, no required property has a later one of its name: the name would come
from both of them. -/
theorem RequiredAgrees.pairwise (h : m.RequiredAgrees) :
    m.properties.Pairwise fun p q => p.required = some true → p.name ≠ q.name := by
  rw [List.pairwise_iff_forall_sublist]
  intro p q hsub hp hname
  have hmem : p ∈ m.properties := hsub.subset (by simp)
  obtain ⟨r, hr, hrequired⟩ := (h.mem_iff q.name).1 (exists_mem_required_iff.2 ⟨p, hmem, hp, hname⟩)
  obtain ⟨-, hrname⟩ := of_mem_rendered? hr
  have hboth : [p, r].Sublist m.requiredProperties := by
    simpa [requiredProperties, hp, hrequired] using
      (sublist_rendered? hsub hname hr).filter fun p => p.required = some true
  have hne : m.requiredProperties ≠ [] := List.ne_nil_of_mem (hboth.subset List.mem_cons_self)
  have hnodup := h.nodup _ (by rw [required_ofModelRecord, if_neg hne]; rfl)
  have htwice := hnodup.sublist (hboth.map (·.name))
  simp [hname, hrname] at htwice

theorem requiredAgrees_of_pairwise
    (h : m.properties.Pairwise fun p q => p.required = some true → p.name ≠ q.name) :
    m.RequiredAgrees := by
  have hmem (name : Text) : (∃ names ∈ (Schema.ofModelRecord m).required, name ∈ names) ↔
      ∃ p ∈ m.rendered? name, p.required = some true := by
    rw [exists_mem_required_iff]
    constructor
    · rintro ⟨p, hp, hrequired, rfl⟩
      obtain ⟨above, below, hm⟩ := List.append_of_mem hp
      rw [hm, List.pairwise_append, List.pairwise_cons] at h
      exact ⟨p, rendered?_append_cons hm fun q hq => h.2.1.1 q hq hrequired, hrequired⟩
    · rintro ⟨p, hp, hrequired⟩
      obtain ⟨hp, hname⟩ := of_mem_rendered? hp
      exact ⟨p, hp, hrequired, hname⟩
  refine ⟨?_, hmem, ?_⟩
  · intro names hnames
    rw [required_ofModelRecord] at hnames
    split at hnames
    · cases hnames
    · cases hnames
      rw [List.Nodup, List.pairwise_map, requiredProperties, List.pairwise_filter]
      exact h.imp fun hpq hp _ => hpq (by simpa using hp)
  · rw [required_eq_none_iff]
    constructor
    · intro hnone name p hp
      exact hnone p (of_mem_rendered? hp).1
    · intro hrendered p hp hrequired
      obtain ⟨q, hq, hqrequired⟩ :=
        (hmem p.name).1 (exists_mem_required_iff.2 ⟨p, hp, hrequired, rfl⟩)
      exact hrendered p.name q hq hqrequired

/-- The list names the required properties of a model in their order, replaced ones among them. It
has the name of every required property that is rendered; it agrees with the rendered properties
where no required property is documented again, and nowhere else. -/
theorem requiredAgrees_iff (m : Model) :
    (∃ properties : OrderedMap Schema, (Schema.ofModelRecord m).properties = some properties ∧
      ∀ name, properties.get? name = (m.rendered? name).map Schema.ofProperty) ∧
    (Schema.ofModelRecord m).required =
      (if m.requiredProperties = [] then none else some (m.requiredProperties.map (·.name))) ∧
    (∀ name, ∀ p ∈ m.rendered? name, p.required = some true →
      ∃ names ∈ (Schema.ofModelRecord m).required, name ∈ names) ∧
    (m.RequiredAgrees ↔
      m.properties.Pairwise fun p q => p.required = some true → p.name ≠ q.name) := by
  refine ⟨⟨_, Schema.properties_ofModelRecord m, fun name => ?_⟩, required_ofModelRecord m, ?_,
    RequiredAgrees.pairwise, requiredAgrees_of_pairwise⟩
  · exact OrderedMap.get?_ofEntries_map (·.name) Schema.ofProperty m.properties name
  · intro name p hp hrequired
    obtain ⟨hp, hname⟩ := of_mem_rendered? hp
    exact exists_mem_required_iff.2 ⟨p, hp, hrequired, hname⟩

/-- A property that is required at first and optional when it is documented again stays in the list
of required properties. -/
theorem required_after_replacement :
    ¬∀ (g : Grammar) (file source : Text),
      ∀ m ∈ (Docs.ofSource g file source).models, m.RequiredAgrees := by
  intro hagrees
  let size (datatype : Text) (required : Bool) : Property :=
    ⟨"size".toList, datatype, [], some required, none, none⟩
  let m : Model :=
    ⟨"Box".toList, [], none, none, [size "integer".toList true, size "string".toList false]⟩
  have hm : m ∈ (Docs.ofSource .standard "box.rb".toList
      ("##\n# @model Box\n# @property size (required) [integer]\n" ++
        "# @property size (optional) [string]\n").toList).models := by decide
  have hpairwise := (hagrees _ _ _ m hm).pairwise
  revert hpairwise
  decide

end Model
end DocTags
