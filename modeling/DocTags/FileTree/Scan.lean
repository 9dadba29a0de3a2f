import DocTags.FileTree

/-!
Source files of a directory: the files with one of the given extensions, in the order of their
paths. A search that descends passes over hidden directories and over those named `target`, but not
over the directory where it starts. A directory that it can not list it leaves out and tells of.
-/

namespace DocTags

inductive ScanFault where
  | notFound (path : Text)
  | notDirectory (path : Text)
  deriving DecidableEq, Repr

def ScanFault.message : ScanFault → Text
  | notFound path => "Cannot access directory: ".toList ++ path
  | notDirectory path => "Not a directory: ".toList ++ path

namespace Scan

structure Filter where
  /-- Extensions without the dot. -/
  extensions : List Text
  /-- Whether directories below the first one are searched. -/
  recursive : Bool
  deriving DecidableEq, Repr

/-- A filter for extensions that may be written with dots in front. -/
def Filter.ofExtensions (extensions : List Text) (recursive : Bool) : Filter :=
  ⟨extensions.map fun e => e.dropWhile (· == '.'), recursive⟩

def Filter.accepts (f : Filter) (name : Text) : Bool :=
  match Path.extension? name with
  | some ext => f.extensions.contains ext
  | none => false

/-- Whether a directory is passed over. -/
def isSkipped (name : Text) : Bool :=
  name.head? == some '.' || name == "target".toList

/-- A directory that could not be listed. -/
structure Unlisted where
  path : Text
  fault : ReadFault
  deriving DecidableEq, Repr

/-- What a search finds, both in the order of paths. -/
structure Found where
  files : List Text
  unlisted : List Unlisted
  deriving DecidableEq, Repr

namespace Found

def empty : Found :=
  ⟨[], []⟩

def append (a b : Found) : Found :=
  ⟨a.files ++ b.files, a.unlisted ++ b.unlisted⟩

def sort (a : Found) : Found :=
  ⟨a.files.mergeSort Path.le, a.unlisted.mergeSort fun u v => Path.le u.path v.path⟩

end Found

mutual

/-- What an entry of a directory contributes. -/
def visit (f : Filter) (path name : Text) : Entry → Found
  | .file _ => if f.accepts name then ⟨[path], []⟩ else .empty
  | .sealed => if f.recursive && !isSkipped name then ⟨[], [⟨path, .denied⟩]⟩ else .empty
  | .directory entries =>
    if f.recursive && !isSkipped name then
      if Path.isLong path then ⟨[], [⟨path, .nameTooLong⟩]⟩ else visitAll f path entries
    else .empty

/-- What the entries of a directory contribute, in their order. -/
def visitAll (f : Filter) (path : Text) : List (Text × Entry) → Found
  | [] => .empty
  | (name, e) :: entries => (visit f (Path.child path name) name e).append (visitAll f path entries)

end

def run (t : FileTree) (f : Filter) (root : Text) : Except ScanFault Found :=
  match t.find root with
  | .error _ => .error (.notFound root)
  | .ok (.file _) => .error (.notDirectory root)
  | .ok .sealed => .ok ⟨[], [⟨root, .denied⟩]⟩
  | .ok (.directory entries) => .ok (visitAll f root entries).sort

end Scan
end DocTags
