import DocTags.Text.Basic

/-!
Problems found in sources. A problem is held as its cause; `Problem.message` is the one place where
causes are put into words.
-/

namespace DocTags

inductive ReadFault where
  | missing
  /-- A part of the path that should be a directory is a file. -/
  | notDirectory
  | isDirectory
  /-- A name in the path, or the path itself, is longer than any can be. -/
  | nameTooLong
  /-- The path has a zero character, which no path can have. -/
  | zeroCharacter
  /-- A directory may not be entered, or the file may not be read. -/
  | denied
  | notText
  deriving DecidableEq, Repr

def ReadFault.message : ReadFault → Text
  | missing => "No such file or directory (os error 2)".toList
  | notDirectory => "Not a directory (os error 20)".toList
  | isDirectory => "Is a directory (os error 21)".toList
  | nameTooLong => "File name too long (os error 36)".toList
  | zeroCharacter => "file name contained an unexpected NUL byte".toList
  | denied => "Permission denied (os error 13)".toList
  | notText => "stream did not contain valid UTF-8".toList

inductive PathFault where
  | noPathLine
  /-- An opening bracket without a closing one. -/
  | unterminatedVerb (rest : Text)
  | unknownVerb (verb : Text)
  | emptyPath
  deriving DecidableEq, Repr

def PathFault.message : PathFault → Text
  | noPathLine => "block has no @path line".toList
  | unterminatedVerb rest => "unterminated verb in '".toList ++ rest ++ "'".toList
  | unknownVerb verb => "unknown HTTP verb '".toList ++ verb ++ "'".toList
  | emptyPath => "empty path".toList

inductive ParameterFault where
  | noLocation (name : Text)
  | unknownLocation (name token : Text)
  deriving DecidableEq, Repr

def ParameterFault.message : ParameterFault → Text
  | noLocation name => "parameter '".toList ++ name ++ "' has no (location)".toList
  | unknownLocation name token =>
    "parameter '".toList ++ name ++ "' has unknown location '".toList ++ token ++ "'".toList

inductive Problem where
  | unreadable (path : Text) (fault : ReadFault)
  /-- A directory whose entries can not be listed. -/
  | unlisted (path : Text) (fault : ReadFault)
  | malformedPath (line : Nat) (fault : PathFault)
  | malformedParameter (line : Nat) (fault : ParameterFault)
  /-- A response without a status code. -/
  | malformedResponse (line : Nat)
  /-- Endpoints that no resource block precedes; the line is that of the first one. -/
  | missingResource (line : Nat)
  /-- A line of a model that mentions a parameter tag. -/
  | ambiguousModel (line : Nat) (model : Text)
  | duplicateOperation (path method : Text)
  deriving DecidableEq, Repr

namespace Problem

/-- What a problem is about is left out of the document, but a warning leaves the model and the last
of the operations in it. Endpoints without a resource are left out although that is a warning. -/
def isWarning : Problem → Bool
  | missingResource _ | ambiguousModel _ _ | duplicateOperation _ _ => true
  | _ => false

/-- What a search says of a directory that it can not list. -/
def unlistedMessage (path : Text) (fault : ReadFault) : Text :=
  "Failed to access path: IO error for operation on ".toList ++ path ++ ": ".toList ++ fault.message

def atLine (lead : Text) (line : Nat) (fault : Text) : Text :=
  lead ++ " at line ".toList ++ Text.ofNat line ++ ": ".toList ++ fault

def message : Problem → Text
  | unreadable path fault =>
    "IO error: Failed to read file: ".toList ++ path ++ ": ".toList ++ fault.message
  | unlisted path fault => "IO error: ".toList ++ unlistedMessage path fault
  | malformedPath line fault => atLine "malformed @path".toList line fault.message
  | malformedParameter line fault => atLine "malformed @parameter".toList line fault.message
  | malformedResponse line =>
    atLine "malformed @response".toList line "response has no status code".toList
  | missingResource line =>
    "endpoint block at line ".toList ++ Text.ofNat line ++
      " has no preceding @resource block, skipped".toList
  | ambiguousModel line model =>
    "model ".toList ++ model ++ " contains a @parameter tag at line ".toList ++ Text.ofNat line
  | duplicateOperation path method =>
    method ++ " ".toList ++ path ++ " is documented more than once, the last block wins".toList

end Problem

structure Diagnostic where
  /-- Empty for a problem between files. -/
  file : Text
  problem : Problem
  deriving DecidableEq, Repr

namespace Diagnostic

def isWarning (d : Diagnostic) : Bool :=
  d.problem.isWarning

def message (d : Diagnostic) : Text :=
  if d.file.isEmpty then d.problem.message
  else d.file ++ ": ".toList ++ d.problem.message

end Diagnostic
end DocTags
