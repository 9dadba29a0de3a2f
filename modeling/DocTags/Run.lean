import DocTags.CommandLine.Arguments
import DocTags.Docs
import DocTags.FileTree.Scan
import DocTags.Grammar.Reader
import DocTags.Json.Printer
import DocTags.OpenApi.Build
import DocTags.OpenApi.Encoding
import DocTags.Yaml.Printer

/-!
A run of the program on a file tree: from the arguments to the document, the log, and the tree as
the run leaves it. A run that fails leaves no document behind; it may leave the directories that
were made for it.

The log has what the searches tell, the diagnostics, and the models that replace each other. Source
files are read side by side, and the lines that are printed while this fails for some of them come
in no fixed order; they are no part of the log, which has a diagnostic for each of these files.
-/

namespace DocTags

inductive ArgumentFault where
  | noDirectories
  | missingDirectory (path : Text)
  | notDirectory (path : Text)
  | missingGrammar (path : Text)
  deriving DecidableEq, Repr

def ArgumentFault.message : ArgumentFault → Text
  | noDirectories =>
    "No source directories given. Use --models and/or --controllers".toList
  | missingDirectory path => "Directory does not exist: ".toList ++ path
  | notDirectory path => "Path is not a directory: ".toList ++ path
  | missingGrammar path => "Grammar file does not exist: ".toList ++ path

namespace Arguments

/-- What is wrong with a directory to search. -/
def directoryFault? (t : FileTree) (path : Text) : Option ArgumentFault :=
  if !t.has path then some (.missingDirectory path)
  else if !t.isDirectory path then some (.notDirectory path)
  else none

/-- The first thing that keeps arguments from being run on a tree. -/
def fault? (a : Arguments) (t : FileTree) : Option ArgumentFault :=
  if a.directories.isEmpty then some .noDirectories
  else
    match a.directories.findSome? (directoryFault? t) with
    | some fault => some fault
    | none =>
      match a.grammar with
      | some path => if t.isFile path then none else some (.missingGrammar path)
      | none => none

end Arguments

inductive Level where
  | warning
  | error
  deriving DecidableEq, Repr

structure LogEntry where
  level : Level
  text : Text
  deriving DecidableEq, Repr

namespace LogEntry

def ofDiagnostic (d : Diagnostic) : LogEntry :=
  ⟨if d.isWarning then .warning else .error, d.message⟩

/-- The warning about a directory that is left out of a search. -/
def ofUnlisted (u : Scan.Unlisted) : LogEntry :=
  ⟨.warning, Problem.unlistedMessage u.path u.fault⟩

/-- The warning about a model that replaces another one. -/
def ofRepeatedModel (name : Text) : LogEntry :=
  ⟨.warning, "Model ".toList ++ name ++ " is documented more than once, the last block wins".toList⟩

end LogEntry

inductive RunFault where
  | unreadableGrammar (path : Text)
  | invalidGrammar (path : Text)
  | scan (fault : ScanFault)
  | noSources
  | nothingParsed
  | strict (diagnostics : Nat)
  | directoryNotMade (path : Text)
  | fileNotWritten (path : Text)
  deriving DecidableEq, Repr

def RunFault.message : RunFault → Text
  | unreadableGrammar path => "Failed to read grammar file: ".toList ++ path
  | invalidGrammar path => "Invalid grammar file: ".toList ++ path
  | scan fault => fault.message
  | noSources => "No source files found in the given directories".toList
  | nothingParsed => "No endpoints or models could be parsed".toList
  | strict n => Text.ofNat n ++ " diagnostic(s) reported in strict mode".toList
  | directoryNotMade path => "Failed to create directory: ".toList ++ path
  | fileNotWritten path => "Failed to write to file: ".toList ++ path

def OpenApi.Document.text (format : Format) (d : OpenApi.Document) : Text :=
  match format with
  | .json => d.encode.text
  | .yaml => Yaml.text d.encode

def Grammar.load (t : FileTree) (path : Text) : Except RunFault Grammar :=
  match t.readText path with
  | .error _ => .error (.unreadableGrammar path)
  | .ok content =>
    match Grammar.ofFile? content with
    | some g => .ok g
    | none => .error (.invalidGrammar path)

def Docs.ofFile (g : Grammar) (t : FileTree) (path : Text) : Docs :=
  match t.readText path with
  | .ok source => ofSource g path source
  | .error fault => ofUnreadable path fault

def Docs.ofFiles (g : Grammar) (t : FileTree) (paths : List Text) : Docs :=
  concat (paths.map (ofFile g t))

/-- The source files of a run, and the directories that were left out when they were looked for. -/
structure Sources where
  files : List Text
  diagnostics : List Diagnostic
  deriving DecidableEq, Repr

namespace Run

structure Outcome where
  fault : Option RunFault
  log : List LogEntry
  printed : Text
  tree : FileTree

/-- Leaves out the paths that are the same as an earlier one. -/
def distinct : (seen : List Text) → List Text → List Text
  | _, [] => []
  | seen, p :: ps =>
    if seen.any (Path.same p) then distinct seen ps else p :: distinct (p :: seen) ps

def grammar (a : Arguments) (t : FileTree) : Except RunFault Grammar :=
  match a.grammar with
  | some path => Grammar.load t path
  | none => .ok .standard

/-- Searches one of the directories. -/
def search (a : Arguments) (t : FileTree) (dir : Text) : Except ScanFault Scan.Found :=
  Scan.run t (.ofExtensions a.sourceExtensions a.recursive) dir

def scanDiagnostics (dir : Text) (found : Scan.Found) : List Diagnostic :=
  found.unlisted.map fun u => ⟨dir, .unlisted u.path u.fault⟩

/-- The source files of one of the directories. -/
def sourcesIn (a : Arguments) (t : FileTree) (dir : Text) : Except RunFault Sources :=
  match search a t dir with
  | .ok found => .ok ⟨found.files, scanDiagnostics dir found⟩
  | .error fault => .error (.scan fault)

/-- The source files of a run, each once, in the order of the directories. -/
def sources (a : Arguments) (t : FileTree) : Except RunFault Sources := do
  let found ← a.directories.mapM (sourcesIn a t)
  let files := distinct [] (found.flatMap (·.files))
  if files.isEmpty then throw .noSources else pure ⟨files, found.flatMap (·.diagnostics)⟩

/-- What the searches log, up to the first directory that can not be searched. -/
def searchLog (a : Arguments) (t : FileTree) : List Text → List LogEntry
  | [] => []
  | dir :: dirs =>
    match search a t dir with
    | .ok found => found.unlisted.map .ofUnlisted ++ searchLog a t dirs
    | .error _ => []

/-- What the source files say, behind the problems of the search for them. -/
def docs (a : Arguments) (t : FileTree) : Except RunFault Docs := do
  let g ← grammar a t
  let s ← sources a t
  let d := Docs.ofFiles g t s.files
  pure { d with diagnostics := s.diagnostics ++ d.diagnostics }

/-- What is logged before the sources are read. -/
def earlyLog (a : Arguments) (t : FileTree) : List LogEntry :=
  match grammar a t with
  | .ok _ => searchLog a t a.directories
  | .error _ => []

def groupDiagnostics (groups : List PathGroup) : List Diagnostic :=
  (PathGroup.duplicates groups).map fun problem => ⟨[], problem⟩

/-- Writes a document to a file, after making the directory for it. -/
def write (t : FileTree) (path content : Text) : Option RunFault × FileTree :=
  let file (t : FileTree) : Option RunFault × FileTree :=
    match t.writeFile path (String.ofList content).toUTF8 with
    | some t => (none, t)
    | none => (some (.fileNotWritten path), t)
  match Path.parent? path with
  | none | some [] => file t
  | some parent =>
    match t.makeDirectories parent with
    | (t, true) => file t
    | (t, false) => (some (.directoryNotMade parent), t)

/-- Puts a document where it belongs, a printed one with a line break behind it. -/
def deliver (a : Arguments) (t : FileTree) (log : List LogEntry) (content : Text) : Outcome :=
  match a.output with
  | none => ⟨none, log, content ++ ['\n'], t⟩
  | some path =>
    let (fault, t) := write t path content
    ⟨fault, log, [], t⟩

/-- Makes the document, unless there is nothing to put in it, or a problem in strict mode. -/
def finish (a : Arguments) (t : FileTree) (log : List LogEntry) (d : Docs) : Outcome :=
  if d.isEmpty then
    ⟨some .nothingParsed, log ++ d.diagnostics.map .ofDiagnostic, [], t⟩
  else
    let groups := PathGroup.ofEndpoints d.endpoints
    let diagnostics := d.diagnostics ++ groupDiagnostics groups
    let log := log ++ diagnostics.map .ofDiagnostic
    if a.strict && !diagnostics.isEmpty then ⟨some (.strict diagnostics.length), log, [], t⟩
    else
      let info : OpenApi.Info := ⟨a.title, a.description, a.apiVersion⟩
      let document := OpenApi.Document.build info a.servers groups d.models
      let repeated := (OpenApi.Document.repeatedModels [] d.models).map LogEntry.ofRepeatedModel
      deliver a t (log ++ repeated) (document.text a.format)

end Run

def run (a : Arguments) (t : FileTree) : Run.Outcome :=
  match Run.docs a t with
  | .error fault => ⟨some fault, Run.earlyLog a t, [], t⟩
  | .ok d => Run.finish a t (Run.earlyLog a t) d

end DocTags
