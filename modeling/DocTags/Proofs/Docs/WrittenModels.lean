import DocTags.Docs
import DocTags.Proofs.Model.RoundTrip

/-!
Sources that are written from models. They are read as these models, in their order. The only
problems are the warnings about comments in which a parameter tag is mentioned.
-/

namespace DocTags

open Grammar (standard)

/-- What a warning about one of these models says: a comment below its line mentions a parameter
tag. -/
def Problem.IsMention (sp : Spelling) (place : Property → Property.SamplePlace) (ms : List Model)
    (problem : Problem) : Prop :=
  ∃ line, ∃ m ∈ ms, problem = .ambiguousModel line m.name ∧
    ∃ c ∈ m.more place, standard.mentions .parameter (Text.trim (c.text sp)) = true

variable {sp : Spelling} {place : Property → Property.SamplePlace} {ms : List Model}

theorem Reading.ofBlocks_models {bs : List Block} (hms : ∀ m ∈ ms, m.Expressible)
    (hbs : List.Forall₂ (fun b m => b.IsMadeOf sp (m.comments place)) bs ms) :
    ∃ warnings, ofBlocks standard none bs = { empty with models := ms, warnings := warnings } ∧
      ∀ problem ∈ warnings, problem.IsMention sp place ms := by
  induction hbs with
  | nil => exact ⟨[], rfl, by simp⟩
  | @cons b m bs ms hb _ ih =>
      have hm := hms m List.mem_cons_self
      obtain ⟨warnings, hread, hwarnings⟩ := ih fun k hk => hms k (List.mem_cons_of_mem m hk)
      refine ⟨Model.warnings standard b ++ warnings, ?_, fun problem hproblem => ?_⟩
      · rw [ofBlocks, Model.kind_of_isMadeOf hb]
        simp only [pushModel, hread, hm.ofBlock hb]
      · rcases List.mem_append.1 hproblem with hproblem | hproblem
        · obtain ⟨line, hline, hmention⟩ := hm.exists_of_mem_warnings hb hproblem
          exact ⟨line, m, List.mem_cons_self, hline, hmention⟩
        · obtain ⟨line, k, hk, hmention⟩ := hwarnings problem hproblem
          exact ⟨line, k, List.mem_cons_of_mem m hk, hmention⟩

namespace Docs

/-- Models as they are written: for each one some blank lines and its block. -/
def modelSource (sp : Spelling) (gap : Nat) (place : Property → Property.SamplePlace)
    (ms : List Model) : Text :=
  WrittenBlock.source (ms.map fun m => .ofComments gap sp (m.comments place))

/-- Models come back from their source, whatever spellings it has and wherever the examples of
properties stand. -/
theorem ofSource_modelSource (file : Text) (sp : Spelling) (gap : Nat)
    (place : Property → Property.SamplePlace) {ms : List Model} (hms : ∀ m ∈ ms, m.Expressible) :
    ∃ warnings : List Problem, ofSource standard file (modelSource sp gap place ms) =
        ⟨[], ms, warnings.map fun problem => ⟨file, problem⟩⟩ ∧
      ∀ problem ∈ warnings, problem.IsMention sp place ms := by
  have hvalid : ∀ part ∈ ms.map fun m => (gap, m.comments place), ∀ c ∈ part.2, c.Valid := by
    intro part hpart
    obtain ⟨m, hm, rfl⟩ := List.mem_map.1 hpart
    exact (hms m hm).valid_comments
  have hblocks : List.Forall₂ (fun b m => b.IsMadeOf sp (m.comments place))
      (Block.ofSource standard (modelSource sp gap place ms)) ms := by
    have hparts := Block.forall₂_isMadeOf sp hvalid
    rw [List.map_map, List.forall₂_map_right_iff] at hparts
    exact hparts
  obtain ⟨warnings, hread, hwarnings⟩ := Reading.ofBlocks_models hms hblocks
  exact ⟨warnings, by rw [ofSource, hread]; rfl, hwarnings⟩

/-- A model whose properties have all parts, or only some. -/
def petModel : Model where
  name := "Pet".toList
  description := "A pet (of any kind).\nSee @property below.".toList
  summary := some "One [pet]".toList
  version := none
  properties := [
    ⟨"full name".toList, "string".toList, "the (whole) name\n\nas [it] is called".toList, some true,
      some true, some "say \"sit\" twice".toList⟩,
    ⟨"owner".toList, [], [], some false, none, none⟩,
    ⟨[], "(any".toList, "@example of ] a line".toList, none, some true, some []⟩]

theorem ofSource_modelSource_pet :
    petModel.Expressible ∧ ∃ warnings : List Problem,
      ofSource standard [] (modelSource .first 1 (fun _ => .below) [petModel]) =
          ⟨[], [petModel], warnings.map fun problem => ⟨[], problem⟩⟩ ∧
        ∀ problem ∈ warnings, problem.IsMention .first (fun _ => .below) [petModel] := by
  have hproperties : ∀ p ∈ petModel.properties, p.Expressible := by
    rintro p (_ | ⟨_, _ | ⟨_, _ | ⟨_, _ | _⟩⟩⟩)
    · exact ⟨by decide, by decide, by decide, by decide, by decide, by decide,
        .inr ⟨"the (whole) name".toList, "as [it] is called".toList, by decide, by decide,
          by decide, by decide⟩, by decide⟩
    · exact ⟨by decide, by decide, by decide, by decide, by decide, by decide, .inl (by decide),
        by decide⟩
    · exact ⟨by decide, by decide, by decide, by decide, by decide, by decide, .inl (by decide),
        by decide⟩
  have hm : petModel.Expressible := ⟨by decide, by decide, by decide, by decide, hproperties⟩
  exact ⟨hm, ofSource_modelSource [] .first 1 (fun _ => .below) (by simpa using hm)⟩

end Docs
end DocTags
