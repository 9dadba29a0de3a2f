import DocTags.Text.Basic

/-!
The options of the command line and what they say. A value is the next argument or is attached to
its option; short options may stand together behind one dash. An option is settled when the next
one is met, so that of two faults the one of an unknown argument is reported.
-/

namespace DocTags

inductive Format where
  | json
  | yaml
  deriving DecidableEq, Repr

structure Arguments where
  models : List Text
  controllers : List Text
  format : Format
  output : Option Text
  title : Text
  description : Option Text
  apiVersion : Text
  servers : List Text
  /-- Empty for the standard extension. -/
  extensions : List Text
  recursive : Bool
  grammar : Option Text
  strict : Bool
  verbose : Bool
  deriving DecidableEq, Repr

namespace Arguments

/-- The arguments of an empty command line. -/
def standard : Arguments where
  models := []
  controllers := []
  format := .json
  output := none
  title := "Generated API".toList
  description := none
  apiVersion := "1.0.0".toList
  servers := []
  extensions := []
  recursive := false
  grammar := none
  strict := false
  verbose := false

def sourceExtensions (a : Arguments) : List Text :=
  if a.extensions.isEmpty then ["rb".toList] else a.extensions

/-- The directories to search, those of models first. -/
def directories (a : Arguments) : List Text :=
  a.models ++ a.controllers

end Arguments

inductive UsageFault where
  | unknownArgument
  /-- A value is missing, is empty where it must not be, or is none of the possible ones. -/
  | invalidValue
  /-- An option that can be given once is given again. -/
  | argumentConflict
  /-- A value is attached to an option that has none. -/
  | tooManyValues
  | displayHelp
  | displayVersion
  deriving DecidableEq, Repr

namespace CommandLine

inductive Switch where
  | models
  | controllers
  | format
  | output
  | title
  | description
  | apiVersion
  | server
  | extension
  | recursive
  | grammar
  | strict
  | verbose
  | help
  | version
  deriving DecidableEq, Repr

namespace Switch

def all : List Switch :=
  [models, controllers, format, output, title, description, apiVersion, server, extension,
    recursive, grammar, strict, verbose, help, version]

def long : Switch → Text
  | models => "models".toList
  | controllers => "controllers".toList
  | format => "format".toList
  | output => "output".toList
  | title => "title".toList
  | description => "description".toList
  | apiVersion => "api-version".toList
  | server => "server".toList
  | extension => "extension".toList
  | recursive => "recursive".toList
  | grammar => "grammar".toList
  | strict => "strict".toList
  | verbose => "verbose".toList
  | help => "help".toList
  | version => "version".toList

def short? : Switch → Option Char
  | models => some 'm'
  | controllers => some 'c'
  | format => some 'f'
  | output => some 'o'
  | extension => some 'e'
  | recursive => some 'r'
  | verbose => some 'v'
  | help => some 'h'
  | version => some 'V'
  | _ => none

def takesValue : Switch → Bool
  | recursive | strict | verbose | help | version => false
  | _ => true

def isRepeatable : Switch → Bool
  | models | controllers | server | extension => true
  | _ => false

def ofLong? (name : Text) : Option Switch :=
  all.find? fun s => s.long == name

def ofShort? (c : Char) : Option Switch :=
  all.find? fun s => s.short? == some c

end Switch

/-- A value that names a file or a directory; it can not be empty. -/
def path? (value : Text) : Except UsageFault Text :=
  if value.isEmpty then .error .invalidValue else .ok value

def format? (value : Text) : Except UsageFault Format :=
  if value = "json".toList then .ok .json
  else if value = "yaml".toList then .ok .yaml
  else .error .invalidValue

def Switch.set (s : Switch) (value : Text) (a : Arguments) : Except UsageFault Arguments :=
  match s with
  | models => (path? value).map fun p => { a with models := a.models ++ [p] }
  | controllers => (path? value).map fun p => { a with controllers := a.controllers ++ [p] }
  | format => (format? value).map fun f => { a with format := f }
  | output => (path? value).map fun p => { a with output := some p }
  | title => .ok { a with title := value }
  | description => .ok { a with description := some value }
  | apiVersion => .ok { a with apiVersion := value }
  | server => .ok { a with servers := a.servers ++ [value] }
  | extension => .ok { a with extensions := a.extensions ++ [value] }
  | recursive => .ok { a with recursive := true }
  | grammar => (path? value).map fun p => { a with grammar := some p }
  | strict => .ok { a with strict := true }
  | verbose => .ok { a with verbose := true }
  | help => .error .displayHelp
  | version => .error .displayVersion

/-- An option that has been met but not settled. -/
structure Pending where
  switch : Switch
  value : Option Text
  deriving DecidableEq, Repr

/-- What has been read of a command line. -/
structure State where
  arguments : Arguments
  seen : List Switch
  pending : Option Pending
  /-- Whether two dashes have ended the options. -/
  ended : Bool
  deriving DecidableEq, Repr

namespace State

def start : State :=
  ⟨.standard, [], none, false⟩

def apply (s : Switch) (value : Option Text) (st : State) : Except UsageFault State :=
  if s.takesValue && value.isNone then .error .invalidValue
  else if !s.isRepeatable && st.seen.contains s then .error .argumentConflict
  else (s.set (value.getD []) st.arguments).map fun arguments =>
    { st with arguments, seen := s :: st.seen }

/-- Carries out the option that has been met last. -/
def settle (st : State) : Except UsageFault State :=
  match st.pending with
  | none => .ok st
  | some p => { st with pending := none }.apply p.switch p.value

/-- Meets an option together with its value, or one that has none. -/
def meet (s : Switch) (value : Option Text) (st : State) : Except UsageFault State := do
  (← st.settle).apply s value

/-- Meets an option that has its value still to come. -/
def await (s : Switch) (st : State) : Except UsageFault State := do
  pure { ← st.settle with pending := some ⟨s, none⟩ }

def readLong (arg : Text) (st : State) : Except UsageFault State :=
  let (name, value) := match Text.cut? (· == '=') arg with
    | some (name, value) => (name, some value)
    | none => (arg, none)
  match Switch.ofLong? name with
  | none => .error .unknownArgument
  | some s =>
    if s.takesValue then
      match value with
      | some value => st.meet s (some value)
      | none => st.await s
    else if value.isSome then .error .tooManyValues
    else st.meet s none

/-- Reads the letters behind one dash. What follows the letter of an option with a value is that
value. -/
def readShort : Text → State → Except UsageFault State
  | [], st => .ok st
  | c :: rest, st =>
    match Switch.ofShort? c with
    | none => .error .unknownArgument
    | some s =>
      if s.takesValue then
        match rest with
        | [] => st.await s
        | '=' :: value => st.meet s (some value)
        | value => st.meet s (some value)
      else do
        readShort rest (← st.meet s none)

def readValue (arg : Text) (st : State) : Except UsageFault State :=
  match st.pending with
  | some ⟨s, none⟩ => .ok { st with pending := some ⟨s, some arg⟩ }
  | _ => .error .unknownArgument

def read (st : State) (arg : Text) : Except UsageFault State :=
  if st.ended then .error .unknownArgument
  else
    match arg with
    | ['-', '-'] => .ok { st with ended := true }
    | '-' :: '-' :: name => st.readLong name
    | '-' :: c :: letters => readShort (c :: letters) st
    | arg => st.readValue arg

end State

end CommandLine

def Arguments.ofCommandLine (args : List Text) : Except UsageFault Arguments := do
  let st ← args.foldlM CommandLine.State.read .start
  pure (← st.settle).arguments

end DocTags
