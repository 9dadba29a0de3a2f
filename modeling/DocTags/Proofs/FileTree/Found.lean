import DocTags.FileTree.Scan
import DocTags.Proofs.FileTree.Spelling
import DocTags.Proofs.Text.Cuts

/-!
What a search finds. Every path that it gives is the path of the directory where it starts with the
names of a way down to a file behind it, and so leads to that file. The files are told by their
names and by those of the directories above them; what lies in a directory is counted only if the
directory is one that a search descends into.
-/

namespace DocTags

namespace Entry

mutual

/-- Entries as they can be in a file system: every one has a name, and no two of a directory have
the same. -/
def IsProper : Entry → Prop
  | file _ | .sealed => True
  | directory entries => (entries.map Prod.fst).Nodup ∧ AllProper entries

def AllProper : List (Text × Entry) → Prop
  | [] => True
  | (name, e) :: entries =>
    (Path.IsName name ∧ '/' ∉ name) ∧ IsProper e ∧ AllProper entries

end

theorem mem_of_child?_eq_some {name : Text} {entries : List (Text × Entry)} {e : Entry}
    (h : child? name entries = some e) : (name, e) ∈ entries := by
  obtain ⟨⟨n, e'⟩, hfind, rfl⟩ := Option.map_eq_some_iff.1 h
  obtain rfl : n = name := by simpa using List.find?_some hfind
  exact List.mem_of_find?_eq_some hfind

/-- Without two entries of one name, no entry hides another one. -/
theorem child?_eq_some_iff {name : Text} {entries : List (Text × Entry)} {e : Entry}
    (h : (entries.map Prod.fst).Nodup) : child? name entries = some e ↔ (name, e) ∈ entries := by
  refine ⟨mem_of_child?_eq_some, fun he => ?_⟩
  induction entries with
  | nil => cases he
  | cons entry entries ih =>
      obtain ⟨hnew, hnodup⟩ := List.nodup_cons.1 h
      rw [child?_cons]
      rcases List.mem_cons.1 he with rfl | he
      · exact if_pos rfl
      · have hne : entry.1 ≠ name := fun hname => hnew (hname ▸ List.mem_map_of_mem he)
        rw [if_neg hne, ih hnodup he]

theorem allProper_iff {entries : List (Text × Entry)} :
    AllProper entries ↔
      ∀ name e, (name, e) ∈ entries → (Path.IsName name ∧ '/' ∉ name) ∧ e.IsProper := by
  induction entries with
  | nil => simp [AllProper]
  | cons entry entries ih =>
      obtain ⟨n, e⟩ := entry
      simp only [AllProper, ih, List.mem_cons, Prod.mk.injEq]
      constructor
      · rintro ⟨hname, he, hentries⟩ name e' (⟨rfl, rfl⟩ | hmem)
        · exact ⟨hname, he⟩
        · exact hentries name e' hmem
      · intro h
        obtain ⟨hname, he⟩ := h n e (.inl ⟨rfl, rfl⟩)
        exact ⟨hname, he, fun name e' hmem => h name e' (.inr hmem)⟩

/-- Below a proper entry names lead to proper entries. -/
theorem IsProper.at? {e e' : Entry} (h : e.IsProper) {names : List Text}
    (hat : e.at? names = some e') : (∀ n ∈ names, Path.IsName n ∧ '/' ∉ n) ∧ e'.IsProper := by
  induction names generalizing e with
  | nil =>
      cases hat
      exact ⟨List.forall_mem_nil _, h⟩
  | cons name names ih =>
      cases e with
      | file _ | sealed => cases hat
      | directory entries =>
          obtain ⟨child, hchild, hbelow⟩ := Option.bind_eq_some_iff.1 hat
          obtain ⟨hname, hproper⟩ := allProper_iff.1 h.2 name child (mem_of_child?_eq_some hchild)
          obtain ⟨hnames, he'⟩ := ih hproper hbelow
          exact ⟨List.forall_mem_cons.2 ⟨hname, hnames⟩, he'⟩

/-- An induction on directories, with what is known of the directories among their entries. -/
theorem directory_induction {motive : List (Text × Entry) → Prop}
    (step : ∀ entries, (∀ name below, (name, directory below) ∈ entries → motive below) →
      motive entries) (entries : List (Text × Entry)) : motive entries :=
  step entries fun _ below _ => directory_induction step below
termination_by sizeOf entries
decreasing_by
  have hsize := List.sizeOf_lt_of_mem ‹_›
  simp only [Prod.mk.sizeOf_spec, directory.sizeOf_spec] at hsize
  omega

end Entry

namespace Scan

open DocTags.Path

/-- The path of what names lead to, from a path. -/
def below (path : Text) (names : List Text) : Text :=
  names.foldl child path

theorem child_ne_nil (directory name : Text) : child directory name ≠ [] := by
  unfold child
  split
  · next hlast =>
      obtain ⟨s, rfl⟩ := List.getLast?_eq_some_iff.1 hlast
      simp
  · simp

theorem components_below {path : Text} (hpath : path ≠ []) {names : List Text}
    (hnames : ∀ n ∈ names, IsName n ∧ '/' ∉ n) :
    components (below path names) = components path ++ names.map .name := by
  induction names generalizing path with
  | nil => simp [below]
  | cons n names ih =>
      obtain ⟨⟨hname, hslash⟩, hnames⟩ := List.forall_mem_cons.1 hnames
      have hbelow := ih (child_ne_nil path n) hnames
      rw [components_child hpath hname hslash, List.append_assoc] at hbelow
      exact hbelow

/-! ### What names decide -/

theorem extension?_eq_some_iff {name ext : Text} :
    extension? name = some ext ↔ ∃ stem, name = stem ++ '.' :: ext ∧ stem ≠ [] ∧ '.' ∉ ext := by
  constructor
  · intro h
    unfold extension? at h
    split at h
    · next last hlast =>
        obtain ⟨stem, rfl, hnot⟩ := Text.afterLast?_beq_eq_some_iff.1 hlast
        obtain ⟨hlength, ⟨⟩⟩ := Option.ite_none_right_eq_some.1 h
        refine ⟨stem, rfl, ?_, hnot⟩
        rintro rfl
        simp at hlength
    · cases h
  · rintro ⟨stem, rfl, hstem, hnot⟩
    have hlength : 0 < stem.length := List.length_pos_iff.2 hstem
    rw [extension?, Text.afterLast?_beq_eq_some_iff.2 ⟨stem, rfl, hnot⟩]
    apply if_pos
    rw [List.length_append, List.length_cons]
    omega

theorem accepts_iff {f : Filter} {name : Text} :
    f.accepts name = true ↔
      ∃ stem ext, name = stem ++ '.' :: ext ∧ stem ≠ [] ∧ '.' ∉ ext ∧ ext ∈ f.extensions := by
  have haccepts : f.accepts name = true ↔
      ∃ ext, extension? name = some ext ∧ ext ∈ f.extensions := by
    unfold Filter.accepts
    cases extension? name <;> simp
  simp only [haccepts, extension?_eq_some_iff]
  constructor
  · rintro ⟨ext, ⟨stem, hname, hstem, hnot⟩, hext⟩
    exact ⟨stem, ext, hname, hstem, hnot, hext⟩
  · rintro ⟨stem, ext, hname, hstem, hnot, hext⟩
    exact ⟨ext, ⟨stem, hname, hstem, hnot⟩, hext⟩

theorem isSkipped_eq_false_iff {name : Text} :
    isSkipped name = false ↔ name ≠ "target".toList ∧ name.head? ≠ some '.' := by
  simp [isSkipped, and_comm]

/-! ### What is visited -/

theorem files_visitAll (f : Filter) (path : Text) (entries : List (Text × Entry)) :
    (visitAll f path entries).files =
      entries.flatMap fun entry => (visit f (child path entry.1) entry.1 entry.2).files := by
  induction entries with
  | nil => rfl
  | cons entry entries ih => rw [visitAll, List.flatMap_cons, ← ih]; rfl

theorem mem_files_visit_iff {f : Filter} {path name p : Text} {e : Entry} :
    p ∈ (visit f path name e).files ↔
      (∃ content, e = .file content ∧ f.accepts name = true ∧ p = path) ∨
        ∃ entries, e = .directory entries ∧ f.recursive = true ∧ isSkipped name = false ∧
          isLong path = false ∧ p ∈ (visitAll f path entries).files := by
  cases e with
  | file content => cases h : f.accepts name <;> simp [visit, h, Found.empty]
  | sealed => cases h : f.recursive && !isSkipped name <;> simp [visit, h, Found.empty]
  | directory entries =>
      cases hrecursive : f.recursive <;> cases hskipped : isSkipped name <;>
        cases hlong : isLong path <;> simp [visit, hrecursive, hskipped, hlong, Found.empty]

end Scan

namespace FileTree

open DocTags.Path DocTags.Scan

variable {t : FileTree} {f : Filter} {place : List Text} {entries : List (Text × Entry)}

theorem at?_concat (hat : t.root.at? place = some (.directory entries)) (name : Text) :
    t.root.at? (place ++ [name]) = Entry.child? name entries := by
  rw [Entry.at?_append, hat]
  cases hchild : Entry.child? name entries <;> simp [Entry.at?, hchild]

theorem at?_concat_of_mem (ht : t.root.IsProper)
    (hat : t.root.at? place = some (.directory entries)) {name : Text} {e : Entry}
    (he : (name, e) ∈ entries) : t.root.at? (place ++ [name]) = some e := by
  rw [at?_concat hat]
  exact (Entry.child?_eq_some_iff (ht.at? hat).2.1).2 he

/-- A file that a search from a place has to find: names lead down to it, through directories that
are neither hidden nor named `target`, and its own name has one of the extensions. -/
structure IsSource (t : FileTree) (extensions : List Text) (recursive : Bool)
    (place above : List Text) (name : Text) : Prop where
  file : t.HasFile (place ++ (above ++ [name]))
  extension : ∃ stem ext, name = stem ++ '.' :: ext ∧ stem ≠ [] ∧ '.' ∉ ext ∧ ext ∈ extensions
  depth : recursive = true ∨ above = []
  passed : ∀ n ∈ above, n ≠ "target".toList ∧ n.head? ≠ some '.'

theorem isSource_nil_iff {name : Text} :
    t.IsSource f.extensions f.recursive place [] name ↔
      f.accepts name = true ∧ t.HasFile (place ++ [name]) := by
  rw [accepts_iff]
  constructor
  · exact fun h => ⟨h.extension, h.file⟩
  · exact fun ⟨hextension, hfile⟩ => ⟨hfile, hextension, .inr rfl, List.forall_mem_nil _⟩

theorem isSource_cons_iff {n name : Text} {above : List Text} :
    t.IsSource f.extensions f.recursive place (n :: above) name ↔
      f.recursive = true ∧ isSkipped n = false ∧
        t.IsSource f.extensions f.recursive (place ++ [n]) above name := by
  have hplace : place ++ (n :: above ++ [name]) = place ++ [n] ++ (above ++ [name]) := by simp
  rw [isSkipped_eq_false_iff]
  constructor
  · rintro ⟨hfile, hextension, hdepth, hpassed⟩
    rw [hplace] at hfile
    obtain ⟨hn, hpassed⟩ := List.forall_mem_cons.1 hpassed
    have hrecursive := hdepth.resolve_right (List.cons_ne_nil n above)
    exact ⟨hrecursive, hn, hfile, hextension, .inl hrecursive, hpassed⟩
  · rintro ⟨hrecursive, hn, hfile, hextension, -, hpassed⟩
    rw [← hplace] at hfile
    exact ⟨hfile, hextension, .inl hrecursive, List.forall_mem_cons.2 ⟨hn, hpassed⟩⟩

/-- What a search gives are files that it has to find. -/
theorem isSource_of_mem_visitAll (ht : t.root.IsProper) {path p : Text}
    (hat : t.root.at? place = some (.directory entries))
    (hp : p ∈ (visitAll f path entries).files) :
    ∃ above name, t.IsSource f.extensions f.recursive place above name ∧
      p = below path (above ++ [name]) := by
  induction entries using Entry.directory_induction generalizing place path with
  | step entries ih =>
      rw [files_visitAll] at hp
      obtain ⟨⟨n, e⟩, hmem, hp⟩ := List.mem_flatMap.1 hp
      have hchild := at?_concat_of_mem ht hat hmem
      obtain ⟨content, rfl, haccepts, rfl⟩ | ⟨es, rfl, hrecursive, hskipped, -, hp⟩ :=
        mem_files_visit_iff.1 hp
      · exact ⟨[], n, isSource_nil_iff.2 ⟨haccepts, hasFile_iff.2 ⟨content, hchild⟩⟩, rfl⟩
      · obtain ⟨above, name, hsource, rfl⟩ := ih n es hmem hchild hp
        exact ⟨n :: above, name, isSource_cons_iff.2 ⟨hrecursive, hskipped, hsource⟩, rfl⟩

/-- The components of its path are those of the path where the search starts, and the names. -/
theorem IsSource.components_below (ht : t.root.IsProper) {extensions : List Text} {recursive : Bool}
    {above : List Text} {name : Text} (h : t.IsSource extensions recursive place above name)
    {path : Text} (hpath : path ≠ []) :
    components (below path (above ++ [name])) = components path ++ (above ++ [name]).map .name := by
  obtain ⟨content, hfile⟩ := hasFile_iff.1 h.file
  refine Scan.components_below hpath fun n hn => ?_
  exact (ht.at? hfile).1 n (List.mem_append_right place hn)

theorem find_eq_ok_iff {path : Text} {e : Entry} :
    t.find path = .ok e ↔ (hasZero path = false ∧ path ≠ [] ∧ isLong path = false) ∧
      Way t.HasDirectory [] (t.steps path) ∧ t.root.at? (t.place path) = some e := by
  rw [place, ← walk_eq_ok_iff, find]
  cases hasZero path <;> cases path <;> cases isLong _ <;> simp

theorem at?_place_of_find {path : Text} {e : Entry} (h : t.find path = .ok e) :
    path ≠ [] ∧ t.root.at? (t.place path) = some e := by
  obtain ⟨⟨-, hpath, -⟩, -, hat⟩ := find_eq_ok_iff.1 h
  exact ⟨hpath, hat⟩

/-- The names of a path add to its place. -/
theorem place_of_components {path p : Text} {names : List Text}
    (h : components p = components path ++ names.map .name) :
    t.place p = t.place path ++ names := by
  rw [place_eq_foldl_components, h, List.foldl_append, ← place_eq_foldl_components,
    foldl_enter_names]

/-- Every path that a search finds leads to a file, and is written like the path where the search
starts. -/
theorem of_mem_scan {t : FileTree} (ht : t.root.IsProper) {f : Scan.Filter} {root p : Text}
    {found : Scan.Found} (h : Scan.run t f root = .ok found) (hp : p ∈ found.files) :
    (∃ names : List Text, components p = components root ++ names.map .name) ∧
      t.HasFile (t.place p) := by
  unfold Scan.run at h
  split at h
  · cases h
  · cases h
  · cases h
    cases hp
  · next entries hfind =>
      cases h
      obtain ⟨hne, hroot⟩ := at?_place_of_find hfind
      obtain ⟨above, name, hsource, rfl⟩ :=
        isSource_of_mem_visitAll ht hroot (List.mem_mergeSort.1 hp)
      have hcomponents := hsource.components_below ht hne
      exact ⟨⟨_, hcomponents⟩, place_of_components hcomponents ▸ hsource.file⟩

end FileTree
end DocTags
