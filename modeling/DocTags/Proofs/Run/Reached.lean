import DocTags.Proofs.Distinct
import DocTags.Proofs.FileTree.Found
import DocTags.Proofs.Run.Stages

/-!
Files that several searches reach. Of paths with the same components the first one is kept, which
keeps no place from being read. A place is read once if the directories are written alike; a dot in
front of one of them is enough to have it read twice.
-/

namespace DocTags.Run

open DocTags.Path

/-! ### Paths with distinct components -/

theorem any_same_iff {seen : List Text} {p : Text} :
    seen.any (same p) = true ↔ components p ∈ seen.map components := by
  rw [List.any_eq_true, List.mem_map]
  refine exists_congr fun q => and_congr_right fun _ => ?_
  rw [same, beq_iff_eq]
  exact eq_comm

theorem distinct_concat (seen ps : List Text) (p : Text) :
    distinct seen (ps ++ [p]) =
      if components p ∈ (seen ++ ps).map components then distinct seen ps
      else distinct seen ps ++ [p] := by
  -- what was left out so far has the components of something that was kept
  induction ps generalizing seen with
  | nil =>
      rw [List.nil_append, List.append_nil, distinct]
      exact if_congr any_same_iff rfl rfl
  | cons q ps ih =>
      rw [List.cons_append, distinct, distinct]
      by_cases hq : seen.any (same q) = true
      · rw [if_pos hq, if_pos hq, ih]
        rw [any_same_iff] at hq
        refine if_congr ⟨fun h => ?_, fun h => ?_⟩ rfl rfl
        · simp only [List.map_append, List.map_cons, List.mem_append, List.mem_cons] at h ⊢
          exact h.imp_right .inr
        · simp only [List.map_append, List.map_cons, List.mem_append, List.mem_cons] at h ⊢
          rcases h with h | h | h
          · exact .inl h
          · exact .inl (h ▸ hq)
          · exact .inr h
      · have hsame : components p ∈ (q :: seen ++ ps).map components ↔
            components p ∈ (seen ++ q :: ps).map components := by
          simp [or_left_comm]
        rw [if_neg hq, if_neg hq, ih, if_congr hsame rfl rfl]
        split_ifs <;> rfl

theorem distinct_sublist (seen ps : List Text) : (distinct seen ps).Sublist ps := by
  induction ps generalizing seen with
  | nil => exact List.Sublist.refl []
  | cons p ps ih =>
      rw [distinct]
      split_ifs
      · exact (ih seen).cons p
      · exact (ih (p :: seen)).cons_cons p

section

variable {β : Type} [BEq β] [LawfulBEq β] {key : Text → β}

/-- What the components decide about is kept, each where it first comes. -/
theorem eraseDups_map_distinct (hkey : ∀ p q, components p = components q → key p = key q)
    (ps : List Text) : ((distinct [] ps).map key).eraseDups = (ps.map key).eraseDups := by
  induction ps using List.reverseRecOn with
  | nil => rfl
  | append_singleton ps p ih =>
      have hmem : key p ∈ (distinct [] ps).map key ↔ key p ∈ ps.map key := by
        rw [← List.mem_eraseDups, ih, List.mem_eraseDups]
      rw [distinct_concat, List.nil_append, List.map_append, List.map_singleton, eraseDups_concat]
      split_ifs with hp hin hin
      · exact ih
      · obtain ⟨q, hq, hsame⟩ := List.mem_map.1 hp
        exact absurd (List.mem_map.2 ⟨q, hq, hkey q p hsame⟩) hin
      · rw [List.map_append, List.map_singleton, eraseDups_concat, if_pos (hmem.2 hin), ih]
      · rw [List.map_append, List.map_singleton, eraseDups_concat, if_neg (mt hmem.1 hin), ih]

/-- What decides about the components, and they about it, is kept once. -/
theorem map_distinct {ps : List Text}
    (hkey : ∀ p ∈ ps, ∀ q ∈ ps, key p = key q ↔ components p = components q) :
    (distinct [] ps).map key = (ps.map key).eraseDups := by
  induction ps using List.reverseRecOn with
  | nil => rfl
  | append_singleton ps p ih =>
      have hps : ∀ q ∈ ps, ∀ r ∈ ps, key q = key r ↔ components q = components r :=
        fun q hq r hr => hkey q (List.mem_append_left _ hq) r (List.mem_append_left _ hr)
      have hmem : components p ∈ ps.map components ↔ key p ∈ ps.map key := by
        simp only [List.mem_map]
        refine exists_congr fun q => and_congr_right fun hq => ?_
        exact (hkey q (List.mem_append_left _ hq) p (by simp)).symm
      rw [distinct_concat, List.nil_append, List.map_append, List.map_singleton, eraseDups_concat,
        if_congr hmem rfl rfl]
      split_ifs
      · exact ih hps
      · rw [List.map_append, List.map_singleton, ih hps]

end

/-! ### Files of a run -/

variable (a : Arguments) (t : FileTree)

/-- The files that the searches reach, one search after the other. -/
def reached : List Text :=
  (a.models ++ a.controllers).flatMap fun dir => (found a t dir).files

variable {a t}

theorem of_mem_reached (ht : t.root.IsProper) {p : Text} (hp : p ∈ reached a t) :
    (∃ dir ∈ a.models ++ a.controllers, ∃ names : List Text,
      components p = components dir ++ names.map .name) ∧ t.HasFile (t.place p) := by
  obtain ⟨dir, hdir, hp⟩ := List.mem_flatMap.1 hp
  unfold found search at hp
  split at hp
  · next found hfound =>
      obtain ⟨hnames, hfile⟩ := FileTree.of_mem_scan ht hfound hp
      exact ⟨⟨dir, hdir, hnames⟩, hfile⟩
  · cases hp

/-- Files are written like the directories in which they are found. -/
theorem alike_reached (ht : t.root.IsProper) (h : Alike (a.models ++ a.controllers)) :
    Alike (reached a t) := by
  intro p hp
  obtain ⟨⟨dir, hdir, names, hnames⟩, -⟩ := of_mem_reached ht hp
  refine ⟨?_, fun q hq => ?_⟩
  · rw [hnames]
    simpa using (h dir hdir).1
  · obtain ⟨⟨dir', hdir', names', hnames'⟩, -⟩ := of_mem_reached ht hq
    rw [hnames, hnames']
    simpa using (h dir hdir).2 dir' hdir'

/-- What a run goes on with is what each of its files says, one file after the other. -/
theorem of_docs_eq_ok {d : Docs} (h : docs a t = .ok d) :
    ∃ g, grammar a t = .ok g ∧
      d.endpoints = (files a t).flatMap (fun p => (Docs.ofFile g t p).endpoints) ∧
      d.models = (files a t).flatMap (fun p => (Docs.ofFile g t p).models) := by
  rw [docs_eq] at h
  split at h
  · cases h
  · next hnone =>
      cases h
      unfold sourceFault? at hnone
      cases hg : grammar a t with
      | error fault => simp [hg] at hnone
      | ok g =>
          refine ⟨g, rfl, ?_, ?_⟩ <;>
            simp [collected, parsed, hg, Docs.ofFiles, Docs.concat_eq, List.flatMap_map]

/-- Every file that the searches reach is read, in the order in which they first reach it, those of
the directories of models first. No file is left out, and each is read once where the directories
are written alike. -/
theorem files_reached (ht : t.root.IsProper) :
    (∀ p ∈ reached a t, t.HasFile (t.place p)) ∧
    (files a t).Sublist (reached a t) ∧
    (files a t).map components = ((reached a t).map components).eraseDups ∧
    ((files a t).map t.place).eraseDups = ((reached a t).map t.place).eraseDups ∧
    (Alike (a.models ++ a.controllers) →
      (files a t).map t.place = ((reached a t).map t.place).eraseDups) ∧
    ∀ d, docs a t = .ok d → ∃ g, grammar a t = .ok g ∧
      d.endpoints = (files a t).flatMap (fun p => (Docs.ofFile g t p).endpoints) ∧
      d.models = (files a t).flatMap (fun p => (Docs.ofFile g t p).models) := by
  refine ⟨fun p hp => (of_mem_reached ht hp).2, distinct_sublist [] _,
    map_distinct fun _ _ _ _ => Iff.rfl, eraseDups_map_distinct (fun _ _ => t.place_congr) _,
    fun halike => ?_, fun d => of_docs_eq_ok⟩
  exact map_distinct fun p hp q hq => (alike_reached ht halike).place_eq_iff t hp hq

/-! ### One directory under several names -/

def widgets : Text :=
  "##\n# @resource Widgets\n\n##\n# @path [GET] /widgets\n".toList

def appEntries : List (Text × Entry) :=
  [("widgets.rb".toList, .file (String.ofList widgets).toUTF8)]

def appTree : FileTree where
  root := .directory [("app".toList, .directory appEntries)]
  working := []

def appArguments (controllers : List Text) : Arguments :=
  { Arguments.standard with models := ["app".toList], controllers }

theorem isProper_appTree : appTree.root.IsProper := by
  have hname : IsName "app".toList ∧ '/' ∉ "app".toList := by decide
  have hfile : IsName "widgets.rb".toList ∧ '/' ∉ "widgets.rb".toList := by decide
  exact ⟨by decide, hname, ⟨by decide, hfile, trivial, trivial⟩, trivial⟩

theorem found_appTree {controllers : List Text} {dir path : Text}
    (hfind : appTree.find dir = .ok (.directory appEntries))
    (hvisit : Scan.visitAll (.ofExtensions ["rb".toList] false) dir appEntries = ⟨[path], []⟩) :
    (found (appArguments controllers) appTree dir).files = [path] := by
  have hrun : Scan.run appTree (.ofExtensions ["rb".toList] false) dir = .ok ⟨[path], []⟩ := by
    rw [Scan.run, hfind]
    simp only [hvisit, Scan.Found.sort, List.mergeSort_singleton, List.mergeSort_nil]
  have hsearch : search (appArguments controllers) appTree dir = .ok ⟨[path], []⟩ := hrun
  rw [found, hsearch]

theorem reached_appTree (dir path : Text)
    (hfind : appTree.find dir = .ok (.directory appEntries))
    (hvisit : Scan.visitAll (.ofExtensions ["rb".toList] false) dir appEntries = ⟨[path], []⟩) :
    reached (appArguments [dir]) appTree = ["app/widgets.rb".toList, path] := by
  have happ : (found (appArguments [dir]) appTree "app".toList).files = ["app/widgets.rb".toList] :=
    found_appTree rfl (by decide)
  change ["app".toList, dir].flatMap _ = _
  simp only [List.flatMap_cons, List.flatMap_nil, happ, found_appTree hfind hvisit]
  rfl

/-- Slashes more or fewer make no difference. -/
theorem files_reached_slashes :
    Alike ["app".toList, "app//".toList] ∧
      (files (appArguments ["app//".toList]) appTree).map appTree.place =
        [["app".toList, "widgets.rb".toList]] := by
  have halike : Alike ["app".toList, "app//".toList] := by decide
  refine ⟨halike, ?_⟩
  have hall := files_reached (a := appArguments ["app//".toList]) isProper_appTree
  obtain ⟨-, -, -, -, honce, -⟩ := hall
  rw [honce halike, reached_appTree "app//".toList "app//widgets.rb".toList rfl (by decide)]
  decide

/-- The same directory with a dot in front of it: the file in it is read twice. -/
theorem dot_reads_twice :
    ¬∀ (a : Arguments) (t : FileTree), t.root.IsProper → ((files a t).map t.place).Nodup := by
  intro honce
  have hfiles : files (appArguments ["./app".toList]) appTree =
      distinct [] (reached (appArguments ["./app".toList]) appTree) := rfl
  have h := honce (appArguments ["./app".toList]) appTree isProper_appTree
  rw [hfiles, reached_appTree "./app".toList "./app/widgets.rb".toList rfl (by decide)] at h
  revert h
  decide

end DocTags.Run
