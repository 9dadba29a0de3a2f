import DocTags.OrderedMap
import DocTags.Proofs.Distinct

/-!
Ordered maps that are filled from a list, one element after the other under a key of its own. The
keys are those of the elements, in the order in which they first come, and the value under a key is
made of the elements that have it, in their order. Both together determine the map.
-/

namespace DocTags.OrderedMap

variable {α β : Type}

/-- Alters a map once for each element of a list, under the key of that element. -/
def alterEach (key : β → Text) (f : β → Option α → α) (m : OrderedMap α) (xs : List β) :
    OrderedMap α :=
  xs.foldl (fun m x => alter (key x) (f x) m) m

theorem alterEach_concat (key : β → Text) (f : β → Option α → α) (m : OrderedMap α)
    (xs : List β) (x : β) :
    alterEach key f m (xs ++ [x]) = alter (key x) (f x) (alterEach key f m xs) := by
  simp [alterEach]

theorem keys_alterEach (key : β → Text) (f : β → Option α → α) (xs : List β) :
    keys (alterEach key f [] xs) = (xs.map key).eraseDups := by
  induction xs using List.reverseRecOn with
  | nil => rfl
  | append_singleton xs x ih =>
      rw [alterEach_concat, keys_alter, ih, List.map_append, List.map_singleton, eraseDups_concat]
      simp only [List.mem_eraseDups]

theorem mem_alter {key : Text} {f : Option α → α} {m : OrderedMap α} {e : Text × α}
    (h : e ∈ alter key f m) : e ∈ m ∨ ∃ old, e = (key, f old) := by
  induction m with
  | nil => exact .inr ⟨none, by simpa [alter] using h⟩
  | cons d m ih =>
      rw [alter] at h
      split at h
      · next hk =>
          rcases List.mem_cons.1 h with rfl | h
          · exact .inr ⟨some d.2, by rw [hk]⟩
          · exact .inl (List.mem_cons_of_mem d h)
      · rcases List.mem_cons.1 h with rfl | h
        · exact .inl List.mem_cons_self
        · exact (ih h).imp_left (List.mem_cons_of_mem d)

/-- What holds of all values of a map is kept by a change that keeps it. -/
theorem forall_mem_alter {P : α → Prop} {key : Text} {f : Option α → α} {m : OrderedMap α}
    (hf : ∀ old, (∀ v ∈ old, P v) → P (f old)) (hm : ∀ e ∈ m, P e.2) :
    ∀ e ∈ alter key f m, P e.2 := by
  induction m with
  | nil =>
      intro e he
      obtain rfl := List.mem_singleton.1 he
      exact hf none (by simp)
  | cons d m ih =>
      obtain ⟨hd, hm⟩ := List.forall_mem_cons.1 hm
      rw [alter]
      split
      · exact List.forall_mem_cons.2 ⟨hf (some d.2) (by simpa using hd), hm⟩
      · exact List.forall_mem_cons.2 ⟨hd, ih hm⟩

theorem forall_mem_alterEach {P : α → Prop} {key : β → Text} {f : β → Option α → α} {xs : List β}
    (hf : ∀ x ∈ xs, ∀ old, (∀ v ∈ old, P v) → P (f x old)) {m : OrderedMap α}
    (hm : ∀ e ∈ m, P e.2) : ∀ e ∈ alterEach key f m xs, P e.2 := by
  induction xs using List.reverseRecOn with
  | nil => exact hm
  | append_singleton xs x ih =>
      rw [alterEach_concat]
      exact forall_mem_alter (hf x (by simp)) (ih fun y hy => hf y (List.mem_append_left [x] hy))

/-- Where values only replace each other, every entry is that of an element. -/
theorem exists_of_mem_alterEach {key : β → Text} {value : β → α} {xs : List β} {e : Text × α}
    (h : e ∈ alterEach key (fun x _ => value x) [] xs) : ∃ x ∈ xs, e = (key x, value x) := by
  induction xs using List.reverseRecOn with
  | nil => cases h
  | append_singleton xs x ih =>
      rw [alterEach_concat] at h
      rcases mem_alter h with h | ⟨-, rfl⟩
      · obtain ⟨y, hy, rfl⟩ := ih h
        exact ⟨y, List.mem_append_left [x] hy, rfl⟩
      · exact ⟨x, by simp, rfl⟩

theorem ofEntries_eq_alterEach (entries : List (Text × α)) :
    ofEntries entries = alterEach Prod.fst (fun e _ => e.2) [] entries := rfl

theorem mem_of_mem_ofEntries {entries : List (Text × α)} {e : Text × α}
    (h : e ∈ ofEntries entries) : e ∈ entries := by
  obtain ⟨d, hd, rfl⟩ := exists_of_mem_alterEach (ofEntries_eq_alterEach entries ▸ h)
  exact hd

theorem keys_ofEntries (entries : List (Text × α)) :
    keys (ofEntries entries) = (entries.map Prod.fst).eraseDups :=
  keys_alterEach Prod.fst (fun e _ => e.2) entries

theorem alter_of_notMem {key : Text} {m : OrderedMap α} (h : key ∉ keys m)
    (f : Option α → α) : alter key f m = m ++ [(key, f none)] := by
  induction m with
  | nil => rfl
  | cons e m ih =>
      rw [keys, List.map_cons, List.mem_cons, not_or] at h
      rw [alter, if_neg (Ne.symm h.1), ih h.2, List.cons_append]

/-- Entries with distinct keys are a map as they stand. -/
theorem ofEntries_eq_self {entries : List (Text × α)} (h : (keys entries).Nodup) :
    ofEntries entries = entries := by
  rw [ofEntries_eq_alterEach]
  induction entries using List.reverseRecOn with
  | nil => rfl
  | append_singleton entries e ih =>
      rw [keys, List.map_append, List.map_singleton, ← List.concat_eq_append,
        List.nodup_concat] at h
      rw [alterEach_concat, ih h.2, alter_of_notMem h.1]

/-- Elements with other keys leave the value under a key alone. -/
theorem get?_alterEach (key : β → Text) (f : β → Option α → α) (m : OrderedMap α)
    (xs : List β) (k : Text) :
    get? k (alterEach key f m xs) =
      (xs.filter fun x => key x = k).foldl (fun v x => some (f x v)) (get? k m) := by
  induction xs using List.reverseRecOn with
  | nil => rfl
  | append_singleton xs x ih =>
      rw [alterEach_concat, get?_alter]
      by_cases h : key x = k
      · subst h
        simp [ih]
      · simp [ih, h, Ne.symm h]

/-- A map without repeated keys is what its look-up says of its keys. -/
theorem eq_map_keys {m : OrderedMap α} (hm : (keys m).Nodup) {value : Text → α}
    (h : ∀ k ∈ keys m, get? k m = some (value k)) :
    m = (keys m).map fun k => (k, value k) := by
  induction m with
  | nil => rfl
  | cons e m ih =>
      obtain ⟨k, v⟩ := e
      obtain ⟨hk, hm⟩ := List.nodup_cons.1 hm
      have hv : v = value k := by
        simpa [get?, keys] using h k (by simp [keys])
      have hrest : ∀ k' ∈ keys m, get? k' m = some (value k') := by
        intro k' hk'
        have hne : (k == k') = false := by
          rw [beq_eq_false_iff_ne]
          intro e
          exact hk (e ▸ hk')
        have hget := h k' (List.mem_cons_of_mem k hk')
        simpa only [get?, List.find?_cons, hne] using hget
      conv => lhs; rw [ih hm hrest, hv]
      rfl

/-- The entries of a filled map, given what the elements of one key add up to. -/
theorem alterEach_eq_map {key : β → Text} {f : β → Option α → α} {xs : List β}
    {value : Text → α}
    (h : ∀ k ∈ xs.map key,
      (xs.filter fun x => key x = k).foldl (fun v x => some (f x v)) none = some (value k)) :
    alterEach key f [] xs = (xs.map key).eraseDups.map fun k => (k, value k) := by
  have hkeys := keys_alterEach key f xs
  rw [← hkeys]
  apply eq_map_keys
  · rw [hkeys]
    exact nodup_eraseDups _
  · intro k hk
    rw [hkeys, List.mem_eraseDups] at hk
    rw [get?_alterEach]
    exact h k hk

/-- Steps that put a default in the place of a missing value never miss it again. -/
theorem foldl_some_getD (step : β → α → α) (d : α) (xs : List β) (hxs : xs ≠ []) :
    xs.foldl (fun v x => some (step x (v.getD d))) none =
      some (xs.foldl (fun v x => step x v) d) := by
  have run (xs : List β) (v : α) :
      xs.foldl (fun v x => some (step x (v.getD d))) (some v) =
        some (xs.foldl (fun v x => step x v) v) := by
    induction xs generalizing v with
    | nil => rfl
    | cons x xs ih => exact ih (step x v)
  cases xs with
  | nil => exact absurd rfl hxs
  | cons x xs => exact run xs (step x d)

/-- Of values that replace each other the last one stays. -/
theorem foldl_some_const (value : β → α) (xs : List β) (v : Option α) :
    xs.foldl (fun _ x => some (value x)) v = (xs.getLast?.map value).or v := by
  induction xs using List.reverseRecOn with
  | nil => rfl
  | append_singleton xs x _ => simp

/-- Of entries with one key the last one is found. -/
theorem get?_ofEntries_map (key : β → Text) (value : β → α) (xs : List β) (k : Text) :
    get? k (ofEntries (xs.map fun x => (key x, value x))) =
      (xs.findRev? fun x => key x = k).map value := by
  have halter : ofEntries (xs.map fun x => (key x, value x)) =
      alterEach key (fun x _ => value x) [] xs := List.foldl_map
  rw [halter, get?_alterEach, foldl_some_const, List.getLast?_filter,
    List.findRev?_eq_find?_reverse]
  simp [get?]

/-- The map has one entry for each key of a list, in the order in which the keys first come, and an
entry is what the last element with its key says. -/
structure IsFilled (key : β → Text) (gives : β → α → Prop) (xs : List β) (m : OrderedMap α) :
    Prop where
  keys_eq : m.keys = (xs.map key).eraseDups
  get?_iff : ∀ k a, m.get? k = some a ↔
    ∃ x, (xs.findRev? fun x => key x = k) = some x ∧ gives x a

theorem isFilled_ofEntries {key : β → Text} {value : β → α} {gives : β → α → Prop}
    (h : ∀ x a, gives x a ↔ a = value x) (xs : List β) :
    IsFilled key gives xs (ofEntries (xs.map fun x => (key x, value x))) where
  keys_eq := by
    rw [keys_ofEntries, List.map_map]
    rfl
  get?_iff := by
    intro k a
    rw [get?_ofEntries_map, Option.map_eq_some_iff]
    simp only [h, eq_comm]

end DocTags.OrderedMap
