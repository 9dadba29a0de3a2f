import DocTags.Proofs.FileTree.Found
import DocTags.Proofs.FileTree.PathOrder
import Mathlib.Data.List.Nodup
import Mathlib.Data.List.Sort

/-!
What a search has to find. Where every directory can be listed it finds the files that it has to
find, all of them and each one once, in the order of their paths. This determines what it gives, so
that the order in which the directories list their entries does not matter.
-/

namespace DocTags

namespace Entry

variable {entries entries' : List (Text × Entry)}

theorem IsProper.perm (h : (directory entries).IsProper) (hperm : entries.Perm entries') :
    (directory entries').IsProper := by
  refine ⟨(hperm.map Prod.fst).nodup_iff.1 h.1, allProper_iff.2 fun name e hmem => ?_⟩
  exact allProper_iff.1 h.2 name e (hperm.mem_iff.2 hmem)

/-- The order in which a directory lists its entries is not seen from outside. -/
theorem map_kind_at?_perm (h : (entries.map Prod.fst).Nodup) (hperm : entries.Perm entries')
    (names : List Text) :
    ((directory entries).at? names).map kind = ((directory entries').at? names).map kind := by
  cases names with
  | nil => rfl
  | cons name names =>
      have hchild : child? name entries = child? name entries' := by
        ext e
        rw [child?_eq_some_iff h, child?_eq_some_iff ((hperm.map Prod.fst).nodup_iff.1 h),
          hperm.mem_iff]
      rw [at?, at?, hchild]

end Entry

namespace FileTree

open DocTags.Path DocTags.Scan

/-- Every directory from a path on can be listed: none is sealed, and none has a path that is too
long to be looked up. -/
structure Listable (t : FileTree) (path : Text) (place : List Text) : Prop where
  unsealed : ∀ names, t.view (place ++ names) ≠ some .sealed
  short : ∀ names, t.view (place ++ names) = some .directory → isLong (below path names) = false

/-- The paths of the files that a search has to find, each one once and before all that follow. -/
structure IsListing (t : FileTree) (extensions : List Text) (recursive : Bool) (root : Text)
    (files : List Text) : Prop where
  mem_iff : ∀ p, p ∈ files ↔ ∃ above name,
    t.IsSource extensions recursive (t.place root) above name ∧ p = below root (above ++ [name])
  once : (files.map t.place).Nodup
  increasing : files.Pairwise Before

variable {t t' : FileTree} {f : Filter} {path root : Text} {place above : List Text} {name : Text}
variable {entries : List (Text × Entry)} {extensions files files' : List Text} {recursive : Bool}

/-- No two lists are listings of the same files. -/
theorem IsListing.unique (h : t.IsListing extensions recursive root files)
    (h' : t.IsListing extensions recursive root files') : files = files' :=
  h.increasing.eq_of_mem_iff h'.increasing fun p => (h.mem_iff p).trans (h'.mem_iff p).symm

/-! ### All files are found -/

theorem Listable.child (h : t.Listable path place) (name : Text) :
    t.Listable (child path name) (place ++ [name]) where
  unsealed names := by
    rw [List.append_assoc]
    exact h.unsealed (name :: names)
  short names hnames := by
    rw [List.append_assoc] at hnames
    exact h.short (name :: names) hnames

theorem Listable.isLong_eq_false (h : t.Listable path place)
    (hat : t.root.at? place = some (.directory entries)) : isLong path = false := by
  apply h.short []
  rw [List.append_nil]
  exact view_eq_directory_iff.2 ⟨entries, hat⟩

theorem Listable.exists_find (h : t.Listable path (t.place path))
    (hdirectory : t.isDirectory path = true) :
    ∃ entries, t.find path = .ok (.directory entries) := by
  unfold isDirectory at hdirectory
  split at hdirectory
  · next e hfind =>
      cases e with
      | directory entries => exact ⟨entries, hfind⟩
      | file _ => cases hdirectory
      | sealed =>
          refine absurd ?_ (h.unsealed [])
          rw [List.append_nil, view, (find_eq_ok_iff.1 hfind).2.2]
          rfl
  · cases hdirectory

/-- Above a file there are directories. -/
theorem exists_directory_of_hasFile {n : Text} (h : t.HasFile (place ++ [n] ++ (above ++ [name]))) :
    ∃ entries, t.root.at? (place ++ [n]) = some (.directory entries) := by
  obtain ⟨content, hfile⟩ := hasFile_iff.1 h
  rw [Entry.at?_append] at hfile
  obtain ⟨e, he, hbelow⟩ := Option.bind_eq_some_iff.1 hfile
  cases e with
  | directory entries => exact ⟨entries, he⟩
  | file _ | sealed => cases above <;> cases hbelow

/-- What a search has to find it gives. -/
theorem mem_visitAll_of_isSource (hat : t.root.at? place = some (.directory entries))
    (hlistable : t.Listable path place)
    (h : t.IsSource f.extensions f.recursive place above name) :
    below path (above ++ [name]) ∈ (visitAll f path entries).files := by
  induction above generalizing path place entries with
  | nil =>
      obtain ⟨haccepts, hfile⟩ := isSource_nil_iff.1 h
      obtain ⟨content, hfile⟩ := hasFile_iff.1 hfile
      rw [at?_concat hat] at hfile
      rw [files_visitAll]
      refine List.mem_flatMap.2 ⟨_, Entry.mem_of_child?_eq_some hfile, ?_⟩
      exact mem_files_visit_iff.2 (.inl ⟨content, rfl, haccepts, rfl⟩)
  | cons n above ih =>
      obtain ⟨hrecursive, hskipped, h⟩ := isSource_cons_iff.1 h
      obtain ⟨es, hes⟩ := exists_directory_of_hasFile h.file
      have hchild := hlistable.child n
      have hmem := ih hes hchild h
      have hshort := hchild.isLong_eq_false hes
      rw [at?_concat hat] at hes
      rw [files_visitAll]
      refine List.mem_flatMap.2 ⟨_, Entry.mem_of_child?_eq_some hes, ?_⟩
      exact mem_files_visit_iff.2 (.inr ⟨es, rfl, hrecursive, hskipped, hshort, hmem⟩)

theorem unlisted_visitAll (f : Filter) (path : Text) (entries : List (Text × Entry)) :
    (visitAll f path entries).unlisted =
      entries.flatMap fun entry =>
        (visit f (Path.child path entry.1) entry.1 entry.2).unlisted := by
  induction entries with
  | nil => rfl
  | cons entry entries ih => rw [visitAll, List.flatMap_cons, ← ih]; rfl

theorem unlisted_visitAll_eq_nil (ht : t.root.IsProper)
    (hat : t.root.at? place = some (.directory entries)) (hlistable : t.Listable path place) :
    (visitAll f path entries).unlisted = [] := by
  induction entries using Entry.directory_induction generalizing place path with
  | step entries ih =>
      rw [unlisted_visitAll, List.flatMap_eq_nil_iff]
      rintro ⟨n, e⟩ hmem
      have hn := at?_concat_of_mem ht hat hmem
      have hchild := hlistable.child n
      cases e with
      | file content =>
          rw [visit]
          split <;> rfl
      | sealed =>
          refine absurd ?_ (hchild.unsealed [])
          rw [List.append_nil, view, hn]
          rfl
      | directory es =>
          rw [visit, hchild.isLong_eq_false hn, if_neg Bool.false_ne_true]
          split
          · exact ih n es hmem hn hchild
          · rfl

/-! ### Each file is found once -/

/-- A path that a search gives for an entry has the name of the entry in it. -/
theorem components_of_mem_visit (ht : t.root.IsProper) (hpath : path ≠ [])
    (hat : t.root.at? place = some (.directory entries)) {n p : Text} {e : Entry}
    (hmem : (n, e) ∈ entries) (hp : p ∈ (visit f (child path n) n e).files) :
    ∃ names, components p = components path ++ .name n :: names := by
  have hn := at?_concat_of_mem ht hat hmem
  obtain ⟨hname, hslash⟩ : IsName n ∧ '/' ∉ n := (ht.at? hn).1 n (by simp)
  have hchild := components_child hpath hname hslash
  obtain ⟨content, rfl, -, rfl⟩ | ⟨es, rfl, -, -, -, hp⟩ := mem_files_visit_iff.1 hp
  · exact ⟨[], hchild⟩
  · obtain ⟨above, name, hsource, rfl⟩ := isSource_of_mem_visitAll ht hn hp
    rw [hsource.components_below ht (child_ne_nil path n), hchild, List.append_assoc]
    exact ⟨_, rfl⟩

/-- Paths that are given for different entries of a directory differ in the names of these. -/
theorem disjoint_components_visit (ht : t.root.IsProper) (hpath : path ≠ [])
    (hat : t.root.at? place = some (.directory entries)) {a b : Text × Entry} (ha : a ∈ entries)
    (hb : b ∈ entries) (hne : a.1 ≠ b.1) :
    List.Disjoint ((visit f (child path a.1) a.1 a.2).files.map components)
      ((visit f (child path b.1) b.1 b.2).files.map components) := by
  intro c hca hcb
  obtain ⟨p, hp, rfl⟩ := List.mem_map.1 hca
  obtain ⟨q, hq, hqp⟩ := List.mem_map.1 hcb
  obtain ⟨names, hnames⟩ := components_of_mem_visit ht hpath hat ha hp
  obtain ⟨names', hnames'⟩ := components_of_mem_visit ht hpath hat hb hq
  rw [hnames, hnames'] at hqp
  have hheads := List.head_eq_of_cons_eq (List.append_cancel_left hqp)
  exact hne (Component.name.inj hheads).symm

theorem nodup_components_visitAll (ht : t.root.IsProper) (hpath : path ≠ [])
    (hat : t.root.at? place = some (.directory entries)) :
    ((visitAll f path entries).files.map components).Nodup := by
  induction entries using Entry.directory_induction generalizing place path with
  | step entries ih =>
      rw [files_visitAll, List.map_flatMap, List.nodup_flatMap]
      constructor
      · rintro ⟨n, e⟩ hmem
        have hn := at?_concat_of_mem ht hat hmem
        cases e with
        | file _ | sealed =>
            rw [visit]
            split <;> simp [Found.empty]
        | directory es =>
            rw [visit]
            split_ifs
            · exact List.nodup_nil
            · exact ih n es hmem (child_ne_nil path n) hn
            · exact List.nodup_nil
      · have hnames : entries.Pairwise fun a b => a.1 ≠ b.1 :=
          List.pairwise_map.1 (ht.at? hat).2.1
        apply hnames.imp_of_mem
        intro a b ha hb hne
        exact disjoint_components_visit ht hpath hat ha hb hne

/-! ### The result of a search -/

theorem IsSource.place_below (ht : t.root.IsProper) (hroot : root ≠ [])
    (h : t.IsSource extensions recursive (t.place root) above name) :
    t.place (below root (above ++ [name])) = t.place root ++ (above ++ [name]) :=
  place_of_components (h.components_below ht hroot)

/-- Where all directories can be listed, a search gives the files that it has to find. -/
theorem isListing_visitAll (ht : t.root.IsProper) (hfind : t.find root = .ok (.directory entries))
    (hlistable : t.Listable root (t.place root)) (f : Filter) :
    t.IsListing f.extensions f.recursive root ((visitAll f root entries).files.mergeSort le) := by
  obtain ⟨hroot, hat⟩ := at?_place_of_find hfind
  have hmem : ∀ p, p ∈ (visitAll f root entries).files.mergeSort le ↔ ∃ above name,
      t.IsSource f.extensions f.recursive (t.place root) above name ∧
        p = below root (above ++ [name]) := by
    intro p
    rw [List.mem_mergeSort]
    constructor
    · exact isSource_of_mem_visitAll ht hat
    · rintro ⟨above, name, hsource, rfl⟩
      exact mem_visitAll_of_isSource hat hlistable hsource
  have hincreasing := pairwise_before_mergeSort (nodup_components_visitAll (f := f) ht hroot hat)
  refine ⟨hmem, ?_, hincreasing⟩
  apply List.Nodup.map_on _ hincreasing.nodup
  intro p hp q hq hplace
  obtain ⟨above, name, hsource, rfl⟩ := (hmem p).1 hp
  obtain ⟨above', name', hsource', rfl⟩ := (hmem q).1 hq
  rw [hsource.place_below ht hroot, hsource'.place_below ht hroot] at hplace
  rw [List.append_cancel_left hplace]

theorem run_eq (ht : t.root.IsProper) (hfind : t.find root = .ok (.directory entries))
    (hlistable : t.Listable root (t.place root)) (f : Filter) :
    Scan.run t f root = .ok ⟨(visitAll f root entries).files.mergeSort le, []⟩ := by
  have hunlisted := unlisted_visitAll_eq_nil (f := f) ht (at?_place_of_find hfind).2 hlistable
  simp only [Scan.run, hfind, Found.sort, hunlisted, List.mergeSort_nil]

/-- What lies in the directory itself is what a search gives that does not descend. -/
theorem IsListing.filter (ht : t.root.IsProper) (hroot : root ≠ [])
    (h : t.IsListing extensions recursive root files) :
    t.IsListing extensions false root
      (files.filter fun p => (components p).length = (components root).length + 1) := by
  refine ⟨fun p => ?_, h.once.sublist (List.filter_sublist.map t.place), h.increasing.filter _⟩
  rw [List.mem_filter, h.mem_iff, decide_eq_true_iff]
  constructor
  · rintro ⟨⟨above, name, hsource, rfl⟩, hlength⟩
    rw [hsource.components_below ht hroot] at hlength
    obtain rfl : above = [] := List.length_eq_zero_iff.1 (by simpa using hlength)
    exact ⟨[], name, ⟨hsource.file, hsource.extension, .inr rfl, hsource.passed⟩, rfl⟩
  · rintro ⟨above, name, hsource, rfl⟩
    obtain rfl : above = [] := hsource.depth.resolve_left Bool.false_ne_true
    refine ⟨⟨[], name, ⟨hsource.file, hsource.extension, .inr rfl, hsource.passed⟩, rfl⟩, ?_⟩
    rw [hsource.components_below ht hroot]
    simp

/-! ### The order of entries -/

/-- The same files and directories, which the directories may list in another order. -/
structure Relists (t t' : FileTree) : Prop where
  isProper : t'.root.IsProper
  working : t'.working = t.working
  view : t'.view = t.view

namespace Relists

theorem steps_eq (h : t.Relists t') (path : Text) : t'.steps path = t.steps path := by
  unfold steps
  rw [h.working]

theorem place_eq (h : t.Relists t') (path : Text) : t'.place path = t.place path := by
  rw [place, place, h.steps_eq]

theorem exists_find_directory (h : t.Relists t') (hfind : t.find path = .ok (.directory entries)) :
    ∃ entries', t'.find path = .ok (.directory entries') := by
  obtain ⟨hpath, hway, hat⟩ := find_eq_ok_iff.1 hfind
  have hdirectory : t'.HasDirectory = t.HasDirectory := by
    funext place
    rw [HasDirectory, HasDirectory, h.view]
  have hhas : t'.HasDirectory (t'.place path) := by
    rw [hdirectory, h.place_eq]
    exact view_eq_directory_iff.2 ⟨entries, hat⟩
  obtain ⟨entries', hat'⟩ := view_eq_directory_iff.1 hhas
  refine ⟨entries', find_eq_ok_iff.2 ⟨hpath, ?_, hat'⟩⟩
  rw [hdirectory, h.steps_eq]
  exact hway

theorem listable (h : t.Relists t') (hlistable : t.Listable path place) :
    t'.Listable path place where
  unsealed := by
    rw [h.view]
    exact hlistable.unsealed
  short := by
    rw [h.view]
    exact hlistable.short

theorem isSource_iff (h : t.Relists t') :
    t'.IsSource extensions recursive place above name ↔
      t.IsSource extensions recursive place above name := by
  have hfile : t'.HasFile = t.HasFile := by
    funext place
    rw [HasFile, HasFile, h.view]
  constructor
  · intro hsource
    exact ⟨hfile ▸ hsource.file, hsource.extension, hsource.depth, hsource.passed⟩
  · intro hsource
    exact ⟨hfile ▸ hsource.file, hsource.extension, hsource.depth, hsource.passed⟩

theorem isListing (h : t.Relists t') (hlisting : t'.IsListing extensions recursive root files) :
    t.IsListing extensions recursive root files where
  mem_iff p := by
    rw [hlisting.mem_iff, h.place_eq]
    simp only [h.isSource_iff]
  once := by
    have honce := hlisting.once
    rwa [show t'.place = t.place from funext h.place_eq] at honce
  increasing := hlisting.increasing

end Relists

/-- A search gives the files that it has to find, once each and in the order of their paths,
whatever the order in which the directories list their entries. One that does not descend gives
those of them that lie in the directory itself. -/
theorem scan_finds (ht : t.root.IsProper) (hroot : t.isDirectory root = true)
    (hlistable : t.Listable root (t.place root)) (extensions : List Text) (recursive : Bool) :
    ∃ files, Scan.run t (.ofExtensions extensions recursive) root = .ok ⟨files, []⟩ ∧
      t.IsListing (extensions.map fun e => e.dropWhile (· == '.')) recursive root files ∧
      (∀ t', t.Relists t' →
        Scan.run t' (.ofExtensions extensions recursive) root = .ok ⟨files, []⟩) ∧
      Scan.run t (.ofExtensions extensions false) root =
        .ok ⟨files.filter fun p => (components p).length = (components root).length + 1, []⟩ := by
  obtain ⟨entries, hfind⟩ := hlistable.exists_find hroot
  have hlisting := isListing_visitAll ht hfind hlistable (.ofExtensions extensions recursive)
  refine ⟨_, run_eq ht hfind hlistable _, hlisting, fun t' h => ?_, ?_⟩
  · obtain ⟨entries', hfind'⟩ := h.exists_find_directory hfind
    have hlistable' : t'.Listable root (t'.place root) := by
      rw [h.place_eq]
      exact h.listable hlistable
    have hlisting' :=
      isListing_visitAll h.isProper hfind' hlistable' (.ofExtensions extensions recursive)
    rw [run_eq h.isProper hfind' hlistable', (h.isListing hlisting').unique hlisting]
  · have hfiltered := hlisting.filter ht (at?_place_of_find hfind).1
    have htop := isListing_visitAll ht hfind hlistable (.ofExtensions extensions false)
    rw [run_eq ht hfind hlistable, htop.unique hfiltered]

/-! ### A directory that is listed in two ways -/

theorem listable_of_file {content : ByteArray} (hat : t.root.at? place = some (.file content)) :
    t.Listable path place := by
  have hbelow : ∀ names,
      t.view (place ++ names) = ((Entry.file content).at? names).map Entry.kind := by
    intro names
    rw [view, Entry.at?_append, hat]
    rfl
  constructor <;> intro names hnames <;> rw [hbelow] at hnames <;> cases names <;> cases hnames

theorem listable_of_directory (hat : t.root.at? place = some (.directory entries))
    (hshort : isLong path = false)
    (h : ∀ entry ∈ entries, t.Listable (Path.child path entry.1) (place ++ [entry.1])) :
    t.Listable path place := by
  have hview : t.view place = some .directory := view_eq_directory_iff.2 ⟨entries, hat⟩
  have hbelow : ∀ n names, t.view (place ++ n :: names) ≠ none →
      t.Listable (Path.child path n) (place ++ [n]) := by
    intro n names hne
    cases hchild : Entry.child? n entries with
    | none => simp [view, Entry.at?_append, hat, Entry.at?, hchild] at hne
    | some e => exact h _ (Entry.mem_of_child?_eq_some hchild)
  constructor
  · intro names hsealed
    cases names with
    | nil => simp [hview] at hsealed
    | cons n names =>
        have hn := hbelow n names (by simp [hsealed])
        exact hn.unsealed names (by simpa using hsealed)
  · intro names hnames
    cases names with
    | nil => exact hshort
    | cons n names =>
        have hn := hbelow n names (by simp [hnames])
        exact hn.short names (by simpa using hnames)

def mixedEntries : List (Text × Entry) :=
  [("a".toList, .directory [("c.rb".toList, .file .empty)]),
    ("b.rb".toList, .file .empty),
    (".rb".toList, .file .empty),
    (".git".toList, .directory [("hook.rb".toList, .file .empty)]),
    ("target".toList, .directory [("built.rb".toList, .file .empty)])]

def mixedTree (entries : List (Text × Entry)) : FileTree where
  root := .directory [("app".toList, .directory entries)]
  working := []

theorem isProper_mixedEntries : (Entry.directory mixedEntries).IsProper := by
  simp [mixedEntries, Entry.IsProper, Entry.AllProper, IsName, isIdle]

theorem isProper_mixedTree (h : (Entry.directory entries).IsProper) :
    (mixedTree entries).root.IsProper := by
  have hname : IsName "app".toList ∧ '/' ∉ "app".toList := by decide
  exact ⟨List.nodup_singleton _, hname, h, trivial⟩

theorem listable_mixedTree :
    (mixedTree mixedEntries).Listable "app".toList ["app".toList] := by
  have hat : (mixedTree mixedEntries).root.at? ["app".toList] = some (.directory mixedEntries) := rfl
  apply listable_of_directory hat (by decide)
  simp only [mixedEntries, List.forall_mem_cons]
  refine ⟨?_, listable_of_file rfl, listable_of_file rfl, ?_, ?_, List.forall_mem_nil _⟩ <;>
  · apply listable_of_directory rfl (by decide)
    exact List.forall_mem_singleton.2 (listable_of_file rfl)

theorem relists_mixedTree {entries' : List (Text × Entry)}
    (h : (Entry.directory entries).IsProper) (hperm : entries.Perm entries') :
    (mixedTree entries).Relists (mixedTree entries') where
  isProper := isProper_mixedTree (h.perm hperm)
  working := rfl
  view := by
    funext names
    cases names with
    | nil => rfl
    | cons n names =>
        simp only [view, mixedTree, Entry.at?, Entry.child?_cons]
        split_ifs
        · exact (Entry.map_kind_at?_perm h.1 hperm names).symm
        · rfl

theorem run_mixedTree :
    Scan.run (mixedTree mixedEntries) (.ofExtensions [".rb".toList] true) "app".toList =
      .ok ⟨["app/a/c.rb".toList, "app/b.rb".toList], []⟩ := by
  have hfind : (mixedTree mixedEntries).find "app".toList = .ok (.directory mixedEntries) := rfl
  have hvisit : visitAll (.ofExtensions [".rb".toList] true) "app".toList mixedEntries =
      ⟨["app/a/c.rb".toList, "app/b.rb".toList], []⟩ := by
    decide
  have hfiles : ["app/a/c.rb".toList, "app/b.rb".toList].mergeSort le =
      ["app/a/c.rb".toList, "app/b.rb".toList] :=
    List.mergeSort_of_pairwise (by decide)
  rw [Scan.run, hfind]
  simp only [hvisit, Found.sort, hfiles, List.mergeSort_nil]

/-- Hidden directories, the one named `target`, and a name with nothing before its dot are passed
over. The directory can list its entries in the opposite order. -/
theorem scan_finds_mixedTree :
    (mixedTree mixedEntries).root.IsProper ∧
      (mixedTree mixedEntries).isDirectory "app".toList = true ∧
      (mixedTree mixedEntries).Listable "app".toList
        ((mixedTree mixedEntries).place "app".toList) ∧
      Scan.run (mixedTree mixedEntries.reverse) (.ofExtensions [".rb".toList] true) "app".toList =
        .ok ⟨["app/a/c.rb".toList, "app/b.rb".toList], []⟩ ∧
      Scan.run (mixedTree mixedEntries) (.ofExtensions [".rb".toList] false) "app".toList =
        .ok ⟨["app/b.rb".toList], []⟩ := by
  have hproper := isProper_mixedTree isProper_mixedEntries
  have hplace : (mixedTree mixedEntries).place "app".toList = ["app".toList] := by decide
  have hlistable := hplace ▸ listable_mixedTree
  obtain ⟨files, hrun, -, hrelists, htop⟩ :=
    scan_finds hproper (by decide) hlistable [".rb".toList] true
  obtain rfl : files = ["app/a/c.rb".toList, "app/b.rb".toList] := by
    rw [run_mixedTree] at hrun
    cases hrun
    rfl
  have hreversed := relists_mixedTree isProper_mixedEntries (List.reverse_perm mixedEntries).symm
  exact ⟨hproper, by decide, hlistable, hrelists _ hreversed, htop⟩

end FileTree
end DocTags
