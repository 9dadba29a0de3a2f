import DocTags.FileTree
import Mathlib.Data.List.Basic

/-!
File trees as they are seen from outside: what each list of names leads to, without what is below
it. Changes of a tree are stated as changes of this view; how a tree holds its entries does not
matter to them.
-/

namespace DocTags

/-- What there is at a place of a tree. -/
inductive Kind where
  | file (content : ByteArray)
  | directory
  | sealed

namespace Entry

def kind : Entry → Kind
  | file content => .file content
  | directory _ => .directory
  | sealed => .sealed

/-- The entry that names lead to. -/
def at? : List Text → Entry → Option Entry
  | [], e => some e
  | name :: names, directory entries => (child? name entries).bind (at? names)
  | _ :: _, file _ | _ :: _, sealed => none

theorem at?_append (names more : List Text) (e : Entry) :
    e.at? (names ++ more) = (e.at? names).bind (at? more) := by
  induction names generalizing e with
  | nil => rfl
  | cons name names ih =>
      cases e with
      | file _ | sealed => rfl
      | directory entries =>
          simp only [List.cons_append, at?, Option.bind_assoc, funext (ih ·)]

/-! ### Children of a changed directory -/

theorem child?_cons (n name : Text) (e : Entry) (entries : List (Text × Entry)) :
    child? n ((name, e) :: entries) = if name = n then some e else child? n entries := by
  by_cases h : name = n <;> simp [child?, h]

theorem child?_replace (name : Text) (new : Entry) (entries : List (Text × Entry)) (n : Text) :
    child? n (entries.map fun (m, old) => if m = name then (m, new) else (m, old)) =
      (child? n entries).map fun old => if n = name then new else old := by
  induction entries with
  | nil => rfl
  | cons e entries ih =>
      obtain ⟨m, old⟩ := e
      by_cases hm : m = name <;> by_cases hn : m = n <;> simp_all [child?_cons]

theorem child?_concat (name : Text) (new : Entry) (entries : List (Text × Entry)) (n : Text) :
    child? n (entries ++ [(name, new)]) =
      (child? n entries).or (if name = n then some new else none) := by
  induction entries with
  | nil => simp [child?]
  | cons e entries ih =>
      obtain ⟨m, old⟩ := e
      by_cases hm : m = n <;> simp [child?_cons, hm, ih]

/-! ### Changes of one place -/

variable {f : Option Entry → Option Entry}

/-- An entry can be altered if there is a directory for it and the change is possible. -/
theorem isSome_alter (f : Option Entry → Option Entry) (names : List Text) (name : Text)
    (e : Entry) :
    (alter f (names ++ [name]) e).isSome ↔
      (∃ entries, e.at? names = some (.directory entries)) ∧
        (f (e.at? (names ++ [name]))).isSome := by
  induction names generalizing e with
  | nil =>
      cases e with
      | file _ | sealed => simp [alter, at?]
      | directory entries =>
          cases hc : child? name entries <;> simp [alter, at?, hc]
  | cons n names ih =>
      cases e with
      | file _ | sealed => simp [alter, at?]
      | directory entries =>
          cases hc : child? n entries with
          | none => simp [alter, at?, hc]
          | some c => simpa [alter, at?, hc] using ih c

/-- A change below a directory changes one of its children, or adds it. -/
theorem alter_directory {name : Text} {names : List Text} {entries : List (Text × Entry)}
    {e : Entry} (h : alter f (name :: names) (.directory entries) = some e) :
    ∃ entries' child, e = .directory entries' ∧ child? name entries' = some child ∧
      (∀ n, n ≠ name → child? n entries' = child? n entries) ∧
      ((∃ old, child? name entries = some old ∧ alter f names old = some child) ∨
        (names = [] ∧ child? name entries = none ∧ f none = some child)) := by
  cases hc : child? name entries with
  | none =>
      obtain ⟨rfl, new, hnew, rfl⟩ : names = [] ∧ ∃ new, f none = some new ∧
          Entry.directory (entries ++ [(name, new)]) = e := by
        simpa [alter, hc] using h
      refine ⟨_, new, rfl, by simp [child?_concat, hc], fun n hn => ?_, .inr ⟨rfl, rfl, hnew⟩⟩
      simp [child?_concat, Ne.symm hn]
  | some old =>
      obtain ⟨new, hnew, rfl⟩ : ∃ new, alter f names old = some new ∧ Entry.directory _ = e := by
        simpa only [alter, hc, Option.map_eq_some_iff] using h
      refine ⟨_, new, rfl, by simp [child?_replace, hc], fun n hn => ?_, .inl ⟨old, rfl, hnew⟩⟩
      simp [child?_replace, hn]

/-- What is below an altered place is below the new entry. -/
theorem at?_alter_append {names : List Text} {e e' : Entry} (h : alter f names e = some e') :
    ∃ new, f (e.at? names) = some new ∧ ∀ more, e'.at? (names ++ more) = new.at? more := by
  induction names generalizing e e' with
  | nil => exact ⟨e', h, fun _ => rfl⟩
  | cons name names ih =>
      cases e with
      | file _ | sealed => simp [alter] at h
      | directory entries =>
          obtain ⟨entries', child, rfl, hchild, -, ⟨old, hold, halter⟩ | ⟨rfl, hold, hf⟩⟩ :=
            alter_directory h
          · obtain ⟨new, hnew, hbelow⟩ := ih halter
            exact ⟨new, by simpa [at?, hold] using hnew, fun more => by simp [at?, hchild, hbelow]⟩
          · exact ⟨child, by simpa [at?, hold] using hf, fun more => by simp [at?, hchild]⟩

/-- Places that are not below the altered one stay what they are. -/
theorem map_kind_at?_alter {names : List Text} {e e' : Entry} (h : alter f names e = some e')
    {place : List Text} (hplace : ¬names <+: place) :
    (e'.at? place).map kind = (e.at? place).map kind := by
  induction names generalizing e e' place with
  | nil => exact absurd List.nil_prefix hplace
  | cons name names ih =>
      cases e with
      | file _ | sealed => simp [alter] at h
      | directory entries =>
          obtain ⟨entries', child, rfl, hchild, hothers, hcases⟩ := alter_directory h
          cases place with
          | nil => rfl
          | cons n place =>
              by_cases hn : n = name
              · subst hn
                have hrest : ¬names <+: place := fun hp => hplace ((List.prefix_cons_inj n).2 hp)
                obtain ⟨old, hold, halter⟩ | ⟨rfl, -, -⟩ := hcases
                · simpa [at?, hchild, hold] using ih halter hrest
                · exact absurd List.nil_prefix hrest
              · simp only [at?, hothers n hn]

end Entry

namespace FileTree

/-- What each list of names leads to. -/
def view (t : FileTree) (names : List Text) : Option Kind :=
  (t.root.at? names).map Entry.kind

theorem view_eq_directory_iff {t : FileTree} {names : List Text} :
    t.view names = some .directory ↔
      ∃ entries, t.root.at? names = some (.directory entries) := by
  rw [view, Option.map_eq_some_iff]
  constructor
  · rintro ⟨e, he, hkind⟩
    cases e with
    | directory entries => exact ⟨entries, he⟩
    | file _ | sealed => cases hkind
  · rintro ⟨entries, he⟩
    exact ⟨_, he, rfl⟩

theorem view_eq_file_iff {t : FileTree} {names : List Text} {content : ByteArray} :
    t.view names = some (.file content) ↔ t.root.at? names = some (.file content) := by
  rw [view, Option.map_eq_some_iff]
  constructor
  · rintro ⟨e, he, hkind⟩
    cases e <;> cases hkind
    exact he
  · exact fun he => ⟨_, he, rfl⟩

/-- A file that holds the bytes of a text can be read. -/
theorem readText_of_find {t : FileTree} {path text : Text}
    (h : t.find path = .ok (.file (String.ofList text).toUTF8)) : t.readText path = .ok text := by
  have hvalid : String.fromUTF8? (String.ofList text).toUTF8 = some (String.ofList text) := by
    rw [String.fromUTF8?]
    exact dif_pos (String.isValidUTF8 _)
  rw [readText, h]
  simp only [hvalid, String.toList_ofList]

theorem view_nil_ne_none (t : FileTree) : t.view [] ≠ none := by
  simp [view, Entry.at?]

/-- Above everything there are directories. -/
theorem view_eq_directory_of_concat {t : FileTree} {names : List Text} {name : Text}
    (h : t.view (names ++ [name]) ≠ none) : t.view names = some .directory := by
  rw [view, Entry.at?_append] at h
  cases he : t.root.at? names with
  | none => simp [he] at h
  | some e =>
      cases e with
      | directory entries => exact view_eq_directory_iff.2 ⟨entries, he⟩
      | file _ | sealed => simp [he, Entry.at?] at h

/-- The view after a change that leaves what is below the altered place alone. -/
theorem view_alter {t : FileTree} {f : Option Entry → Option Entry} {names : List Text}
    {root : Entry} (h : t.root.alter f names = some root)
    (hf : ∀ old new, f old = some new → ∀ place ≠ [],
      (new.at? place).map Entry.kind = (old.bind (Entry.at? place)).map Entry.kind) :
    ∃ new, f (t.root.at? names) = some new ∧ ∀ place, { t with root }.view place =
      if place = names then some new.kind else t.view place := by
  obtain ⟨new, hnew, hbelow⟩ := Entry.at?_alter_append h
  refine ⟨new, hnew, fun place => ?_⟩
  by_cases hplace : names <+: place
  · obtain ⟨more, rfl⟩ := hplace
    rw [view, hbelow]
    by_cases hmore : more = []
    · simp [hmore, Entry.at?]
    · rw [if_neg (by simpa using hmore), view, Entry.at?_append]
      exact hf _ _ hnew more hmore
  · rw [if_neg (by rintro rfl; exact hplace (List.prefix_refl _))]
    exact Entry.map_kind_at?_alter h hplace

end FileTree
end DocTags
