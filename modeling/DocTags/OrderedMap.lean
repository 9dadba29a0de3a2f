import DocTags.Text.Basic

/-!
Maps with text keys that keep the order in which their keys first came. A value stored under a key
that is already there replaces the old value and stays in its place.
-/

namespace DocTags

abbrev OrderedMap (α : Type) := List (Text × α)

namespace OrderedMap

variable {α : Type}

/-- Stores under `key` what `f` makes of the value that stands there, in its place if there is one
and at the end if there is none. -/
def alter (key : Text) (f : Option α → α) : OrderedMap α → OrderedMap α
  | [] => [(key, f none)]
  | (k, v) :: m => if k = key then (k, f (some v)) :: m else (k, v) :: alter key f m

def insert (m : OrderedMap α) (key : Text) (value : α) : OrderedMap α :=
  alter key (fun _ => value) m

/-- The map of a list of entries, of which later ones replace earlier ones. -/
def ofEntries (entries : List (Text × α)) : OrderedMap α :=
  entries.foldl (fun m e => insert m e.1 e.2) []

def keys (m : OrderedMap α) : List Text :=
  m.map Prod.fst

def values (m : OrderedMap α) : List α :=
  m.map Prod.snd

def get? (key : Text) (m : OrderedMap α) : Option α :=
  (m.find? fun e => e.1 == key).map Prod.snd

theorem keys_alter (key : Text) (f : Option α → α) (m : OrderedMap α) :
    keys (alter key f m) = if key ∈ keys m then keys m else keys m ++ [key] := by
  induction m with
  | nil => simp [alter, keys]
  | cons e m ih =>
    obtain ⟨k, v⟩ := e
    by_cases h : k = key
    · simp [alter, keys, h]
    · have h' : key ≠ k := fun e => h e.symm
      simp only [alter, if_neg h]
      simp only [keys, List.map_cons] at ih ⊢
      rw [ih]
      by_cases hm : key ∈ List.map Prod.fst m <;> simp [hm, h']

theorem get?_alter (key k : Text) (f : Option α → α) (m : OrderedMap α) :
    get? k (alter key f m) = if k = key then some (f (get? key m)) else get? k m := by
  induction m with
  | nil =>
    by_cases h : k = key
    · simp [alter, get?, h]
    · have h' : ¬key = k := fun e => h e.symm
      simp [alter, get?, h, h']
  | cons e m ih =>
    obtain ⟨k₀, v⟩ := e
    simp only [get?] at ih
    by_cases h₀ : k₀ = key
    · subst h₀
      by_cases h : k = k₀
      · subst h; simp [alter, get?]
      · have h' : ¬k₀ = k := fun e => h e.symm
        simp [alter, get?, h, h']
    · by_cases h₁ : k₀ = k
      · subst h₁
        simp [alter, get?, h₀]
      · have h₂ : (k₀ == k) = false := by simpa using h₁
        have h₃ : (k₀ == key) = false := by simpa using h₀
        simp only [alter, if_neg h₀, get?, List.find?_cons, h₂, h₃]
        exact ih

end OrderedMap
end DocTags
