import DocTags.Run

/-!
The command line. What the arguments name of the file system is taken into a file tree; the run is a
function of that tree, and what it leaves behind is printed or written.
-/

namespace DocTags.CommandLine

/-- Puts a directory that may not be listed into a tree. -/
def putSealed (path : Text) (t : FileTree) : FileTree :=
  let root := t.root.alter (fun _ => some .sealed) (FileTree.namesOf (t.steps path))
  { t with root := root.getD t.root }

/-- Takes an entry of the file system into a tree: a file that is looked for with its content, and a
directory with what is in it as far as a search would go. -/
partial def takeEntry (filter : Scan.Filter) (descend : Bool) (path : Text) (t : FileTree) :
    IO FileTree := do
  let place := (← IO.currentDir) / String.ofList path
  if ← place.isDir then
    let mut t := (t.makeDirectories path).1
    if descend then
      match ← place.readDir.toBaseIO with
      | .ok entries =>
        for entry in entries do
          let name := entry.fileName.toList
          t ← takeEntry filter (filter.recursive && !Scan.isSkipped name) (Path.child path name) t
      | .error _ => t := putSealed path t
    return t
  else if filter.accepts ((Text.pieces '/' path).getLastD []) then
    return (t.writeFile path (← IO.FS.readBinFile place)).getD t
  else
    return t

/-- Takes the directories on the way to a path into a tree, and the file that stands in the way or
at its end, if there is one. -/
def takeWay (content : Bool) (path : Text) (t : FileTree) : IO FileTree := do
  let steps := t.steps path
  let mut t := t
  for n in List.range (steps.length + 1) do
    let way := '/' :: Text.join ['/'] (steps.take n)
    let place := (← IO.currentDir) / String.ofList way
    if ← place.isDir then
      t := (t.makeSteps [] (steps.take n)).1
    else if ← place.pathExists then
      let bytes ← if content then IO.FS.readBinFile place else pure ByteArray.empty
      t := (t.writeFile way bytes).getD t
  return t

/-- Takes what the arguments name into a tree. What is taken with its content comes last. -/
def takeTree (a : Arguments) : IO FileTree := do
  let working := (Text.pieces '/' (← IO.currentDir).toString.toList).filter (!·.isEmpty)
  let t : FileTree := ⟨.directory [], []⟩
  let mut t := { (t.makeSteps [] working).1 with working }
  for path in a.output do
    t ← takeWay false path t
  for directory in a.directories do
    t ← takeWay false directory t
    t ← takeEntry (.ofExtensions a.sourceExtensions a.recursive) true directory t
  for path in a.grammar do
    t ← takeWay true path t
  return t

/-- Writes the file that a run has left in its tree. -/
def putOutput (path : Text) (t : FileTree) : IO Unit := do
  let place := (← IO.currentDir) / String.ofList path
  for parent in place.parent do
    IO.FS.createDirAll parent
  match t.readText path with
  | .ok content => IO.FS.writeFile place (String.ofList content)
  | .error _ => pure ()

def warn (lead : String) (message : Text) : IO Unit :=
  IO.eprintln (lead ++ ": " ++ String.ofList message)

def runIn (a : Arguments) (t : FileTree) : IO UInt32 := do
  let outcome := run a t
  for entry in outcome.log do
    warn (match entry.level with | .warning => "warning" | .error => "error") entry.text
  match outcome.fault with
  | some fault =>
    warn "failed" fault.message
    return 1
  | none =>
    IO.print (String.ofList outcome.printed)
    for path in a.output do
      putOutput path outcome.tree
    return 0

def usage : String :=
  let line (s : Switch) : String :=
    let short := match s.short? with
      | some c => String.ofList ['-', c, ',', ' ']
      | none => "    "
    "  " ++ short ++ "--" ++ String.ofList s.long ++ (if s.takesValue then " <value>" else "")
  String.intercalate "\n" ("Options:" :: Switch.all.map line)

def refuse : UsageFault → IO UInt32
  | .displayHelp => do
    IO.println usage
    return 0
  | .displayVersion => do
    IO.println "0.1.0"
    return 0
  | .unknownArgument => do
    warn "usage" "unknown argument".toList
    return 2
  | .invalidValue => do
    warn "usage" "missing or invalid value".toList
    return 2
  | .argumentConflict => do
    warn "usage" "option given more than once".toList
    return 2
  | .tooManyValues => do
    warn "usage" "value for an option that has none".toList
    return 2

end DocTags.CommandLine

open DocTags in
def main (args : List String) : IO UInt32 := do
  match Arguments.ofCommandLine (args.map String.toList) with
  | .error fault => CommandLine.refuse fault
  | .ok a =>
    let t ← CommandLine.takeTree a
    match a.fault? t with
    | some fault =>
      CommandLine.warn "failed" fault.message
      return 1
    | none => CommandLine.runIn a t
