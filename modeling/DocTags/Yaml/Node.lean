import DocTags.Yaml.Token

/-!
Nodes of YAML text. Aliases stay as they are in a node and are looked up in the document, since a
node may be an alias of one that contains it.
-/

namespace DocTags.Yaml

inductive Node where
  | scalar (text : Text) (plain : Bool)
  | sequence (items : List Node)
  | mapping (members : List (Node × Node))
  /-- The node with the anchor of this number. -/
  | alias (id : Nat)

/-- What stands where nothing is written. -/
def Node.nothing : Node :=
  .scalar [] true

/-- The anchors of a document. A name has the number of the names that were known when it was last
given to a node. -/
structure Anchors where
  names : List (Text × Nat)
  /-- The nodes by their numbers, in the order in which they begin. -/
  nodes : List (Nat × Node)

namespace Anchors

def empty : Anchors :=
  ⟨[], []⟩

/-- Gives a name to a node that begins here. -/
def declare (name : Text) (a : Anchors) : Anchors :=
  let id := a.names.length
  ⟨(name, id) :: a.names.filter (·.1 != name), a.nodes ++ [(id, .nothing)]⟩

/-- Fills in the node that began at a place. -/
def fill (place : Nat) (node : Node) (a : Anchors) : Anchors :=
  { a with nodes := a.nodes.modify place fun (id, _) => (id, node) }

def number? (name : Text) (a : Anchors) : Option Nat :=
  (a.names.find? (·.1 == name)).map Prod.snd

/-- The node with a number; of several the last one. -/
def node? (id : Nat) (a : Anchors) : Option Node :=
  (a.nodes.reverse.find? (·.1 == id)).map Prod.snd

end Anchors

/-- Tokens that are still to be read, with the anchors met so far. -/
structure NodeReader where
  tokens : List Token
  anchors : Anchors

namespace NodeReader

def peek? (r : NodeReader) : Option Token :=
  r.tokens.head?

def skip (r : NodeReader) : NodeReader :=
  { r with tokens := r.tokens.tail }

def isAt (ts : List Token) (r : NodeReader) : Bool :=
  r.peek?.any fun t => decide (t ∈ ts)

def expect (t : Token) (r : NodeReader) : Option NodeReader :=
  if r.peek? = some t then some r.skip else none

/-- Reads an anchor, if there is one. -/
def anchor? (r : NodeReader) : Option Text × NodeReader :=
  match r.peek? with
  | some (.anchor name) => (some name, r.skip)
  | _ => (none, r)

/-- Reads a tag, if there is one: whether there is, unless its handle is not declared. -/
def tag? (handles : List Text) (r : NodeReader) : Option (Bool × NodeReader) :=
  match r.peek? with
  | some (.tag handle) =>
    if handle.isEmpty ∨ handle ∈ handles then some (true, r.skip) else none
  | _ => some (false, r)

def properties (handles : List Text) (r : NodeReader) :
    Option ((Option Text × Bool) × NodeReader) := do
  match r.anchor? with
  | (some name, r) =>
    let (tagged, r) ← r.tag? handles
    some ((some name, tagged), r)
  | (none, r) =>
    let (tagged, r) ← r.tag? handles
    if tagged then
      let (name, r) := r.anchor?
      some ((name, true), r)
    else some ((none, false), r)

mutual

/-- Reads a node. In block context it may be a block collection, and where `indentless` holds also
a sequence whose items are not indented. -/
def node (handles : List Text) :
    (fuel : Nat) → (block indentless : Bool) → NodeReader → Option (Node × NodeReader)
  | 0, _, _, _ => none
  | fuel + 1, block, indentless, r =>
    match r.peek? with
    | some (.alias name) => do
      let id ← r.anchors.number? name
      some (.alias id, r.skip)
    | _ => do
      let ((name, tagged), r) ← r.properties handles
      let place := r.anchors.nodes.length
      let r := match name with
        | some name => { r with anchors := r.anchors.declare name }
        | none => r
      let (n, r) ← content handles fuel block indentless (name.isSome || tagged) r
      let r := if name.isSome then { r with anchors := r.anchors.fill place n } else r
      some (n, r)

/-- Reads what stands behind the anchor and the tag of a node. -/
def content (handles : List Text) :
    (fuel : Nat) → (block indentless mayBeEmpty : Bool) → NodeReader →
      Option (Node × NodeReader)
  | 0, _, _, _, _ => none
  | fuel + 1, block, indentless, mayBeEmpty, r =>
    match r.peek? with
    | some (.scalar text plain) => some (.scalar text plain, r.skip)
    | some .item =>
      if indentless then do
        let (items, r) ← indentlessItems handles fuel r
        some (.sequence items, r)
      else if mayBeEmpty then some (.nothing, r) else none
    | some .flowSequence => do
      let (items, r) ← flowItems handles fuel true r.skip
      some (.sequence items, r)
    | some .flowMapping => do
      let (members, r) ← flowMembers handles fuel true r.skip
      some (.mapping members, r)
    | some .blockSequence =>
      if block then do
        let (items, r) ← blockItems handles fuel r.skip
        some (.sequence items, r)
      else if mayBeEmpty then some (.nothing, r) else none
    | some .blockMapping =>
      if block then do
        let (members, r) ← blockMembers handles fuel r.skip
        some (.mapping members, r)
      else if mayBeEmpty then some (.nothing, r) else none
    | _ => if mayBeEmpty then some (.nothing, r) else none

/-- Reads a node, unless one of the tokens `ends` comes next. -/
def nodeUnless (handles : List Text) :
    (fuel : Nat) → (ends : List Token) → (block indentless : Bool) → NodeReader →
      Option (Node × NodeReader)
  | 0, _, _, _, _ => none
  | fuel + 1, ends, block, indentless, r =>
    if r.isAt ends then some (.nothing, r) else node handles fuel block indentless r

def blockItems (handles : List Text) :
    (fuel : Nat) → NodeReader → Option (List Node × NodeReader)
  | 0, _ => none
  | fuel + 1, r =>
    if r.isAt [.item] then do
      let (n, r) ← nodeUnless handles fuel [.item, .blockEnd] true false r.skip
      let (ns, r) ← blockItems handles fuel r
      some (n :: ns, r)
    else do
      some ([], ← r.expect .blockEnd)

/-- Reads the items of a sequence that has no end token. -/
def indentlessItems (handles : List Text) :
    (fuel : Nat) → NodeReader → Option (List Node × NodeReader)
  | 0, _ => none
  | fuel + 1, r =>
    if r.isAt [.item] then do
      let (n, r) ← nodeUnless handles fuel [.item, .key, .value, .blockEnd] true false r.skip
      let (ns, r) ← indentlessItems handles fuel r
      some (n :: ns, r)
    else some ([], r)

def blockMembers (handles : List Text) :
    (fuel : Nat) → NodeReader → Option (List (Node × Node) × NodeReader)
  | 0, _ => none
  | fuel + 1, r =>
    if r.isAt [.key] then do
      let (k, r) ← nodeUnless handles fuel [.key, .value, .blockEnd] true true r.skip
      let (v, r) ← memberValue handles fuel [.key, .value, .blockEnd] true r
      let (ms, r) ← blockMembers handles fuel r
      some ((k, v) :: ms, r)
    else do
      some ([], ← r.expect .blockEnd)

/-- Reads the value of a member, if there is a value token. -/
def memberValue (handles : List Text) :
    (fuel : Nat) → (ends : List Token) → (block : Bool) → NodeReader → Option (Node × NodeReader)
  | 0, _, _, _ => none
  | fuel + 1, ends, block, r =>
    if r.isAt [.value] then nodeUnless handles fuel ends block block r.skip
    else some (.nothing, r)

/-- Reads the items of a flow sequence, up to its end. An item with a key is a mapping of one
member; a key that is left out takes the token behind it with it. -/
def flowItems (handles : List Text) :
    (fuel : Nat) → (first : Bool) → NodeReader → Option (List Node × NodeReader)
  | 0, _, _ => none
  | fuel + 1, first, r =>
    if r.isAt [.flowSequenceEnd] then some ([], r.skip)
    else do
      let r ← if first then some r else r.expect .comma
      if r.isAt [.key] then
        let r := r.skip
        let (k, r) ←
          if r.isAt [.value, .comma, .flowSequenceEnd] then some (.nothing, r.skip)
          else node handles fuel false false r
        let (v, r) ← memberValue handles fuel [.comma, .flowSequenceEnd] false r
        let (ns, r) ← flowItems handles fuel false r
        some (.mapping [(k, v)] :: ns, r)
      else if r.isAt [.flowSequenceEnd] then some ([], r.skip)
      else
        let (n, r) ← node handles fuel false false r
        let (ns, r) ← flowItems handles fuel false r
        some (n :: ns, r)

def flowMembers (handles : List Text) :
    (fuel : Nat) → (first : Bool) → NodeReader → Option (List (Node × Node) × NodeReader)
  | 0, _, _ => none
  | fuel + 1, first, r =>
    if r.isAt [.flowMappingEnd] then some ([], r.skip)
    else do
      let r ← if first then some r else r.expect .comma
      if r.isAt [.key] then
        let (k, r) ← nodeUnless handles fuel [.value, .comma, .flowMappingEnd] false false r.skip
        let (v, r) ← memberValue handles fuel [.comma, .flowMappingEnd] false r
        let (ms, r) ← flowMembers handles fuel false r
        some ((k, v) :: ms, r)
      else if r.isAt [.flowMappingEnd] then some ([], r.skip)
      else
        let (k, r) ← node handles fuel false false r
        let (ms, r) ← flowMembers handles fuel false r
        some ((k, .nothing) :: ms, r)

end

end NodeReader

/-- A document: its node, and the anchors that aliases refer to. -/
structure YamlDocument where
  root : Node
  anchors : Anchors

namespace YamlDocument

def resolve? (d : YamlDocument) : Node → Option Node
  | .alias id => d.anchors.node? id
  | n => some n

/-- The tag handles that need no declaration. -/
def standardHandles : List Text :=
  ["!".toList, "!!".toList]

/-- Reads the directives in front of a document: whether there was a version, and the handles
declared. Versions other than 1.1 and 1.2, and repeated declarations, are errors. -/
def readDirectives (version : Bool) (handles : List Text) :
    List Token → Option (List Text × List Token)
  | .version major minor :: ts =>
    if version ∨ major ≠ 1 ∨ (minor ≠ 1 ∧ minor ≠ 2) then none else readDirectives true handles ts
  | .tagHandle handle :: ts =>
    if handle ∈ handles then none else readDirectives version (handle :: handles) ts
  | ts => some (handles, ts)

/-- Whether a document begins with this token. -/
def isPreamble : Token → Bool
  | .version _ _ | .tagHandle _ | .documentStart => true
  | _ => false

/-- Reads the node of a document and the end of the text, with nothing else behind it. -/
def readRoot (handles : List Text) (mayBeEmpty : Bool) (ts : List Token) : Option YamlDocument := do
  let r : NodeReader := ⟨ts, .empty⟩
  let isEmpty := r.peek?.any fun t => isPreamble t || t == .documentEnd || t == .streamEnd
  let (root, r) ←
    if mayBeEmpty && isEmpty then some (.nothing, r)
    else r.node handles (4 * ts.length + 4) true false
  if r.tokens.dropWhile (· == .documentEnd) = [.streamEnd] then some ⟨root, r.anchors⟩ else none

/-- Reads a text that holds at most one document. -/
def ofText? (s : Text) : Option (Option YamlDocument) := do
  match ← Token.ofText? s with
  | [.streamEnd] => some none
  | t :: ts =>
    if isPreamble t then
      let (handles, ts) ← readDirectives false [] (t :: ts)
      match ts with
      | .documentStart :: ts => (readRoot (handles ++ standardHandles) true ts).map some
      | _ => none
    else (readRoot standardHandles false (t :: ts)).map some
  | [] => none

end YamlDocument
end DocTags.Yaml
