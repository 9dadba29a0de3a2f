import DocTags.FileTree.Path
import DocTags.Problem

/-!
File trees: files and directories by name, without links. A path leads through a tree step by step;
what a path leads to, and what is written to it, are functions of the tree.
-/

namespace DocTags

inductive Entry where
  | file (content : ByteArray)
  | directory (entries : List (Text × Entry))
  /-- A directory that may be neither listed nor entered. -/
  | sealed

/-- A tree, and the names that lead to the working directory in it. -/
structure FileTree where
  root : Entry
  working : List Text

namespace Entry

def child? (name : Text) (entries : List (Text × Entry)) : Option Entry :=
  (entries.find? fun e => e.1 == name).map Prod.snd

def isDirectory : Entry → Bool
  | directory _ | sealed => true
  | file _ => false

/-- What steps lead to from a directory, given the directories above it. Every step, even one that
stays where it is, must start at a directory; the faults are those of the first step that fails. -/
def walk : (above : List Entry) → Entry → (steps : List Text) → Except ReadFault Entry
  | _, e, [] => .ok e
  | above, e, step :: steps =>
    match e with
    | .file _ => .error .notDirectory
    | .sealed => .error .denied
    | .directory entries =>
      if Path.isIdle step then walk above e steps
      else if step = ['.', '.'] then
        match above with
        | [] => walk [] e steps
        | up :: above => walk above up steps
      else if Path.isLongName step then .error .nameTooLong
      else
        match child? step entries with
        | none => .error .missing
        | some next => walk (e :: above) next steps

/-- Replaces the entry that names lead to by what `f` makes of it. There need be no such entry as
long as there is a directory for it. -/
def alter (f : Option Entry → Option Entry) : (names : List Text) → Entry → Option Entry
  | [], e => f (some e)
  | _ :: _, .file _ | _ :: _, .sealed => none
  | name :: names, .directory entries =>
    match child? name entries with
    | some e =>
      (alter f names e).map fun e =>
        .directory (entries.map fun (n, old) => if n = name then (n, e) else (n, old))
    | none =>
      if names.isEmpty then (f none).map fun e => .directory (entries ++ [(name, e)]) else none

end Entry

namespace FileTree

def steps (t : FileTree) (path : Text) : List Text :=
  if Path.isAbsolute path then Text.pieces '/' path else t.working ++ Text.pieces '/' path

def find (t : FileTree) (path : Text) : Except ReadFault Entry :=
  if Path.hasZero path then .error .zeroCharacter
  else if path.isEmpty then .error .missing
  else if Path.isLong path then .error .nameTooLong
  else t.root.walk [] (t.steps path)

def isDirectory (t : FileTree) (path : Text) : Bool :=
  match t.find path with
  | .ok e => e.isDirectory
  | .error _ => false

def isFile (t : FileTree) (path : Text) : Bool :=
  match t.find path with
  | .ok e => !e.isDirectory
  | .error _ => false

def has (t : FileTree) (path : Text) : Bool :=
  (t.find path).isOk

def readText (t : FileTree) (path : Text) : Except ReadFault Text :=
  match t.find path with
  | .error fault => .error fault
  | .ok (.directory _) => .error .isDirectory
  | .ok .sealed => .error .denied
  | .ok (.file content) =>
    match String.fromUTF8? content with
    | some s => .ok s.toList
    | none => .error .notText

/-- The names that steps lead through, where all of them lead through directories. -/
def namesOf (steps : List Text) : List Text :=
  steps.foldl (fun names step =>
    if Path.isIdle step then names
    else if step = ['.', '.'] then names.dropLast
    else names ++ [step]) []

def makeDirectory (t : FileTree) (names : List Text) : Option FileTree :=
  let make : Option Entry → Option Entry
    | none => some (.directory [])
    | some (.file _) => none
    | some e => some e
  if names.any Path.isLongName then none
  else (t.root.alter make names).map fun root => { t with root }

/-- Makes sure that steps lead to a directory, one step after the other, each from a directory that
can be entered; the directories that could be made stay, also if another one could not. -/
def makeSteps (t : FileTree) : (done steps : List Text) → FileTree × Bool
  | _, [] => (t, true)
  | done, step :: steps =>
    match t.root.walk [] done, t.makeDirectory (namesOf (done ++ [step])) with
    | .ok (.directory _), some t => makeSteps t (done ++ [step]) steps
    | _, _ => (t, false)

def makeDirectories (t : FileTree) (path : Text) : FileTree × Bool :=
  if Path.hasZero path || Path.isLong path then (t, false) else t.makeSteps [] (t.steps path)

/-- Writes a file in a directory that is there. -/
def writeFile (t : FileTree) (path : Text) (content : ByteArray) : Option FileTree :=
  let steps := t.steps path
  let make : Option Entry → Option Entry
    | some (.directory _) | some .sealed => none
    | some (.file _) | none => some (.file content)
  match steps.getLast? with
  | none => none
  | some last =>
    if Path.isIdle last || last == ['.', '.'] || Path.isLongName last then none
    else if Path.hasZero path || Path.isLong path then none
    else
      match t.root.walk [] steps.dropLast with
      | .ok (.directory _) => (t.root.alter make (namesOf steps)).map fun root => { t with root }
      | _ => none

end FileTree
end DocTags
