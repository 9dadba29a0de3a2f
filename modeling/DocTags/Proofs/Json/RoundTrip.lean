import DocTags.Proofs.Json.Grammar
import DocTags.Proofs.Json.Tokens
import DocTags.Proofs.OrderedMap

/-!
JSON values come back from their text. The reader takes the text of a value apart into the tree of
that value, and the tree denotes the value again, as long as its numbers are integers, the keys of
its objects are distinct and it is not nested too deeply.
-/

namespace DocTags.Json

/-- The numeral that the text of a number is read as. -/
def Number.numeral (n : Number) : Numeral :=
  ((readNumeral (n.text exponentStyle)).map Prod.fst).getD ⟨false, [0], [], none⟩

theorem Number.numeral_integer (i : Int) : (Number.integer i).numeral = Numeral.ofInt i := by
  have hend : StopsNumeral [] := fun _ hc => nomatch hc
  have h := readNumeral_of_isNumeral (isNumeral_integer i) hend
  rw [List.append_nil] at h
  simp [numeral, h]

mutual

/-- The syntax of a value. -/
def Value.tree : Value → Tree
  | .null => .null
  | .bool b => .bool b
  | .number n => .number n.numeral
  | .string s => .string (some s)
  | .array items => .array (Value.treeItems items)
  | .object members => .object (Value.treeMembers members)

def Value.treeItems : List Value → List Tree
  | [] => []
  | v :: vs => v.tree :: Value.treeItems vs

def Value.treeMembers : List (Text × Value) → List (Option Text × Tree)
  | [] => []
  | (k, v) :: ms => (some k, v.tree) :: Value.treeMembers ms

end

theorem Value.treeItems_eq_map (vs : List Value) : treeItems vs = vs.map tree := by
  induction vs with
  | nil => rfl
  | cons v vs ih => rw [treeItems, ih, List.map_cons]

theorem Value.treeMembers_eq_map (ms : List (Text × Value)) :
    treeMembers ms = ms.map fun m => (some m.1, m.2.tree) := by
  induction ms with
  | nil => rfl
  | cons m ms ih => rw [treeMembers, ih, List.map_cons]

/-- What a value must be to come back from its text: its numbers are integers of 64 bits, its
objects have distinct keys, and it has at most `depth` arrays and objects inside each other. -/
inductive Value.Fits : (depth : Nat) → Value → Prop
  | null {depth : Nat} : Fits depth .null
  | bool {depth : Nat} (b : Bool) : Fits depth (.bool b)
  | integer {depth : Nat} {i : Int} (hi : IsInt64 i) : Fits depth (.number (.integer i))
  | string {depth : Nat} (s : Text) : Fits depth (.string s)
  | array {depth : Nat} {items : List Value} (hitems : ∀ v ∈ items, Fits depth v) :
      Fits (depth + 1) (.array items)
  | object {depth : Nat} {members : List (Text × Value)}
      (hkeys : (OrderedMap.keys members).Nodup) (hmembers : ∀ m ∈ members, Fits depth m.2) :
      Fits (depth + 1) (.object members)

theorem Value.fits_integer_iff (depth : Nat) (i : Int) :
    Fits depth (.number (.integer i)) ↔ IsInt64 i := by
  constructor
  · rintro ⟨⟩
    assumption
  · exact .integer

theorem Value.fits_array_iff (depth : Nat) (items : List Value) :
    Fits (depth + 1) (.array items) ↔ ∀ v ∈ items, Fits depth v := by
  constructor
  · rintro ⟨⟩
    assumption
  · exact .array

theorem Value.fits_object_iff (depth : Nat) (members : List (Text × Value)) :
    Fits (depth + 1) (.object members) ↔
      (OrderedMap.keys members).Nodup ∧ ∀ m ∈ members, Fits depth m.2 := by
  constructor
  · rintro ⟨⟩
    exact ⟨‹_›, ‹_›⟩
  · exact fun h => .object h.1 h.2

instance Value.decidableFits : (depth : Nat) → (v : Value) → Decidable (Fits depth v)
  | _, .null => isTrue .null
  | _, .bool b => isTrue (.bool b)
  | _, .string s => isTrue (.string s)
  | depth, .number (.integer i) => decidable_of_iff (IsInt64 i) (fits_integer_iff depth i).symm
  | _, .number (.double _) => isFalse fun h => nomatch h
  | 0, .array _ => isFalse fun h => nomatch h
  | 0, .object _ => isFalse fun h => nomatch h
  | depth + 1, .array items =>
    have := decidableFits depth
    decidable_of_iff _ (fits_array_iff depth items).symm
  | depth + 1, .object members =>
    have := decidableFits depth
    decidable_of_iff _ (fits_object_iff depth members).symm

/-! ### Syntax -/

theorem isGap_newline (indent : Nat) : IsGap (newline indent) := by
  intro c hc
  rcases List.mem_cons.1 hc with rfl | hc
  · rfl
  · rw [List.eq_of_mem_replicate hc]
    rfl

theorem isGap_nil : IsGap [] :=
  fun _ hc => nomatch hc

theorem isGap_blank : IsGap [' '] := by
  rintro c hc
  rw [List.mem_singleton.1 hc]
  rfl

theorem isItems_print {vs : List Value} (hvs : ∀ v ∈ vs, ∀ indent, IsTree (print indent v) v.tree)
    {v : Value} (hv : ∀ indent, IsTree (print indent v) v.tree) (indent outer : Nat) :
    IsItems (newline indent ++ (print indent v ++ (printItems indent vs ++ newline outer)))
      (Value.treeItems (v :: vs)) := by
  induction vs generalizing v with
  | nil =>
      exact .last (.mk (isGap_newline indent) (hv indent) (isGap_newline outer))
  | cons w vs ih =>
      have htail := ih (fun u hu => hvs u (List.mem_cons_of_mem w hu)) (hvs w List.mem_cons_self)
      have hitem := IsItem.mk (isGap_newline indent) (hv indent) isGap_nil
      simpa [printItems, Value.treeItems] using IsItems.more hitem htail

theorem isMember_print (k : Text) {v : Value} {indent : Nat}
    (hv : IsTree (print indent v) v.tree) {after : Text} (hafter : IsGap after) :
    IsMember (newline indent ++ (quote k ++ ([':', ' '] ++ (print indent v ++ after))))
      (some k, v.tree) := by
  have hvalue := IsItem.mk isGap_blank hv hafter
  simpa [quote] using IsMember.mk (isGap_newline indent) (isString_escape k) isGap_nil hvalue

theorem isMembers_print {ms : List (Text × Value)}
    (hms : ∀ m ∈ ms, ∀ indent, IsTree (print indent m.2) m.2.tree) (k : Text) {v : Value}
    (hv : ∀ indent, IsTree (print indent v) v.tree) (indent outer : Nat) :
    IsMembers
      (newline indent ++ (quote k ++ ([':', ' '] ++
        (print indent v ++ (printMembers indent ms ++ newline outer)))))
      (Value.treeMembers ((k, v) :: ms)) := by
  induction ms generalizing k v with
  | nil => exact .last (isMember_print k (hv indent) (isGap_newline outer))
  | cons m ms ih =>
      obtain ⟨l, w⟩ := m
      have htail := ih (fun u hu => hms u (List.mem_cons_of_mem _ hu)) l
        (hms (l, w) List.mem_cons_self)
      have hmember := isMember_print k (hv indent) isGap_nil
      simpa [printMembers, Value.treeMembers] using IsMembers.more hmember htail

/-- The text of a value derives as the tree of the value. -/
theorem Value.Fits.isTree {depth : Nat} {v : Value} (h : v.Fits depth) (indent : Nat) :
    IsTree (print indent v) v.tree := by
  induction h generalizing indent with
  | null => exact .nullWord
  | bool b =>
      cases b with
      | false => exact .falseWord
      | true => exact .trueWord
  | @integer _ i _ =>
      rw [tree, Number.numeral_integer]
      exact .number (isNumeral_integer i)
  | string s => exact .string (isString_escape s)
  | @array depth items _ ih =>
      cases items with
      | nil => exact .emptyArray isGap_nil
      | cons v vs =>
          have hitems := isItems_print (fun u hu => ih u (List.mem_cons_of_mem v hu))
            (ih v List.mem_cons_self) (indent + 2) indent
          simpa [print, tree] using IsTree.array hitems
  | @object depth members _ _ ih =>
      cases members with
      | nil => exact .emptyObject isGap_nil
      | cons m ms =>
          obtain ⟨k, v⟩ := m
          have hmembers := isMembers_print (fun u hu => ih u (List.mem_cons_of_mem _ hu)) k
            (ih (k, v) List.mem_cons_self) (indent + 2) indent
          simpa [print, tree] using IsTree.object hmembers

theorem Value.Fits.tree_ofText? {depth : Nat} {v : Value} (h : v.Fits depth) :
    Tree.ofText? v.text = some v.tree := by
  have hitem := IsItem.mk isGap_nil (h.isTree 0) isGap_nil
  rw [List.nil_append, List.append_nil] at hitem
  exact Tree.ofText?_eq_some_iff.2 hitem

/-! ### Values -/

theorem mapM_map_eq_some {α β γ : Type} {read : β → Option γ} {f : α → β} {g : α → γ}
    {xs : List α} (h : ∀ x ∈ xs, read (f x) = some (g x)) :
    (xs.map f).mapM read = some (xs.map g) := by
  induction xs with
  | nil => rfl
  | cons x xs ih =>
      have htail := ih fun y hy => h y (List.mem_cons_of_mem x hy)
      simp only [List.map_cons, List.mapM_cons, h x List.mem_cons_self, htail]
      rfl

theorem mapM_members_eq_some {α β : Type} {read : Tree → Option β} (tree : α → Tree) {g : α → β}
    {entries : List (Text × α)} (h : ∀ e ∈ entries, read (tree e.2) = some (g e.2)) :
    ((entries.map fun e => (some e.1, tree e.2)).mapM fun (key, t) => do
      some (← key, ← read t)) = some (entries.map fun e => (e.1, g e.2)) := by
  apply mapM_map_eq_some
  intro e he
  simp [h e he]

theorem Value.Fits.ofTree?_tree {depth : Nat} {v : Value} (h : v.Fits depth) :
    Value.ofTree? depth v.tree = some v := by
  induction h with
  | null => simp [tree, ofTree?]
  | bool b => simp [tree, ofTree?]
  | integer hi => simp [tree, ofTree?, Number.numeral_integer, number?_ofInt hi]
  | string s => simp [tree, ofTree?]
  | @array depth items _ ih =>
      have hitems : (items.map tree).mapM (ofTree? depth) = some items := by
        rw [mapM_map_eq_some (g := id) ih, List.map_id]
      simp [tree, ofTree?, treeItems_eq_map, hitems]
  | @object depth members hkeys _ ih =>
      rw [tree, treeMembers_eq_map, ofTree?, mapM_members_eq_some tree (g := id) ih]
      simp [OrderedMap.ofEntries_eq_self hkeys]

end DocTags.Json
