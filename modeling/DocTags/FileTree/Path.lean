import DocTags.Text.Basic

/-!
Paths as they are written. Repeated slashes, slashes at the end, and dots other than a leading one
do not matter when paths are compared; they stay where they are when a path is shown.
-/

namespace DocTags.Path

/-- A part of a path that matters when paths are compared. -/
inductive Component where
  | root
  /-- A dot at the start. -/
  | here
  | parent
  | name (n : Text)
  deriving DecidableEq, Repr

/-- The place of a component in the order of paths; names come last. -/
def Component.rank : Component → Nat
  | root => 0
  | here => 1
  | parent => 2
  | name _ => 3

def nameLe : Text → Text → Bool
  | [], _ => true
  | _ :: _, [] => false
  | c :: s, d :: t => if c = d then nameLe s t else decide (c < d)

def Component.le : Component → Component → Bool
  | name n, name m => nameLe n m
  | a, b => a.rank ≤ b.rank

/-- Whether a piece between slashes says nothing. -/
def isIdle (piece : Text) : Bool :=
  piece.isEmpty || piece == ['.']

/-- Whether a name is longer than any in a directory can be. -/
def isLongName (name : Text) : Bool :=
  255 < Text.byteLength name

/-- Whether a path is longer than any that can be looked up. -/
def isLong (path : Text) : Bool :=
  4096 ≤ Text.byteLength path

def hasZero (path : Text) : Bool :=
  path.any fun c => c.toNat == 0

def Component.ofPiece? (piece : Text) : Option Component :=
  if isIdle piece then none
  else if piece = ['.', '.'] then some parent
  else some (name piece)

def isAbsolute (path : Text) : Bool :=
  path.head? == some '/'

def components (path : Text) : List Component :=
  match Text.pieces '/' path with
  | [] => []
  | first :: rest =>
    let head :=
      if isAbsolute path then [Component.root]
      else if first = ['.'] then [Component.here]
      else (Component.ofPiece? first).toList
    head ++ rest.filterMap Component.ofPiece?

/-- The order of lists of components: component by component, shorter ones first. -/
def componentsLe : List Component → List Component → Bool
  | [], _ => true
  | _ :: _, [] => false
  | a :: as, b :: bs => if a = b then componentsLe as bs else a.le b

def le (p q : Text) : Bool :=
  componentsLe (components p) (components q)

def same (p q : Text) : Bool :=
  components p == components q

def child (directory name : Text) : Text :=
  if directory.getLast? = some '/' then directory ++ name else directory ++ '/' :: name

/-- The extension of a file name: what follows its last dot, unless the dot comes first. -/
def extension? (name : Text) : Option Text :=
  match Text.afterLast? (· == '.') name with
  | some ext => if ext.length + 1 < name.length then some ext else none
  | none => none

/-- The path without its last component, if it has one. -/
def parent? (path : Text) : Option Text :=
  match Text.pieces '/' path with
  | [] => none
  | first :: rest =>
    match rest.reverse.dropWhile isIdle with
    | [] => if first.isEmpty then none else some []
    | _ :: above =>
      let above := (above.dropWhile isIdle).reverse
      if first.isEmpty && above.isEmpty then some ['/'] else some (Text.join ['/'] (first :: above))

end DocTags.Path
