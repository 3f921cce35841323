import Stencil.Yaml.Lexer

/-!
# Nodes of configuration texts

* `Yaml.Node`: scalars with what they are written as, sequences and mappings; names of nodes are
  resolved.
* `Yaml.document`: the node of a text, if there is one.
-/

namespace Stencil.Yaml

/-- **A node**, with its tag if it has one. -/
inductive Node where
  | scalar (tag : Option String) (text : List Char) (plain : Bool)
  | sequence (tag : Option String) (items : List Node)
  | mapping (tag : Option String) (entries : List (Node × Node))
  deriving Inhabited, Repr

/-- The node of nothing. -/
def Node.empty : Node := .scalar none [] true

/-- **What is left to read**, and the nodes that have names, the last one first. -/
structure Parts where
  tokens : List Token
  anchors : List (String × Node)
  deriving Repr

/-- A reading step. -/
abbrev Read := StateT Parts (Except Problem)

namespace Read

/-- The next part. -/
def peek : Read (Option Token) := return (← get).tokens.head?

/-- Leaves the next part behind. -/
def drop : Read Unit := modify fun p => { p with tokens := p.tokens.tail }

/-- The next part is one of the given ones. -/
def sees (ts : List Token) : Read Bool := return (← peek).any ts.contains

/-- The next part must be the given one. -/
def expect (t : Token) : Read Unit := do
  if !(← sees [t]) then throw .unexpectedToken
  drop

/-- The name and the tag before a node, each at most once and in any order. -/
def properties : Read (Option String × Option String) := do
  match ← peek with
  | some (.anchor a) =>
    drop
    match ← peek with
    | some (.tag t) =>
      drop
      return (a, t)
    | _ => return (a, none)
  | some (.tag t) =>
    drop
    match ← peek with
    | some (.anchor a) =>
      drop
      return (a, t)
    | _ => return (none, t)
  | _ => return (none, none)

/-- Keeps a node under its name, if it has one. -/
def keep (anchor : Option String) (node : Node) : Read Unit :=
  match anchor with
  | some a => modify fun p => { p with anchors := (a, node) :: p.anchors }
  | none => return

/-- The node of a scalar; a tag that says nothing makes it plain. -/
def scalarNode (tag : Option String) (text : List Char) (plain : Bool) : Node :=
  if tag = some "!" then .scalar none text true else .scalar tag text plain

/-- The tag of a collection; one that says nothing is none. -/
def collectionTag (tag : Option String) : Option String := tag.filter (· != "!")

mutual

/-- A node. Outside brackets it may be a block; as a value, also entries that are not indented. -/
def node (block indentless : Bool) : Nat → Read Node
  | 0 => throw .outOfSteps
  | steps + 1 => do
    match ← peek with
    | some (.reference name) =>
      drop
      match (← get).anchors.lookup name with
      | some n => return n
      | none => throw (.undefinedAlias name)
    | _ =>
      let (anchor, tag) ← properties
      let n ← bare block indentless (anchor.isSome || tag.isSome) tag steps
      keep anchor n
      return n
termination_by structural x => x

/-- A node after its name and its tag. -/
def bare (block indentless named : Bool) (tag : Option String) : Nat → Read Node
  | 0 => throw .outOfSteps
  | steps + 1 => do
    match ← peek, block, indentless with
    | some .entry, _, true => return .sequence (collectionTag tag) (← looseItems steps)
    | some (.scalar text plain), _, _ =>
      drop
      return scalarNode tag text plain
    | some .flowSequenceStart, _, _ =>
      drop
      return .sequence (collectionTag tag) (← flowItems true steps)
    | some .flowMappingStart, _, _ =>
      drop
      return .mapping (collectionTag tag) (← flowEntries true steps)
    | some .sequenceStart, true, _ =>
      drop
      return .sequence (collectionTag tag) (← items steps)
    | some .mappingStart, true, _ =>
      drop
      return .mapping (collectionTag tag) (← entries steps)
    | _, _, _ => if named then return scalarNode tag [] true else throw .unexpectedToken
termination_by structural x => x

/-- A node, or the empty one if one of the given parts follows. -/
def nodeUnless (ts : List Token) (block indentless : Bool) : Nat → Read Node
  | 0 => throw .outOfSteps
  | steps + 1 => do if ← sees ts then return .empty else node block indentless steps
termination_by structural x => x

/-- The entries of a block. -/
def items : Nat → Read (List Node)
  | 0 => throw .outOfSteps
  | steps + 1 => do
    if ← sees [.entry] then
      drop
      let n ← nodeUnless [.entry, .blockEnd] true false steps
      return n :: (← items steps)
    else
      expect .blockEnd
      return []
termination_by structural x => x

/-- The entries of a block that is not indented. -/
def looseItems : Nat → Read (List Node)
  | 0 => throw .outOfSteps
  | steps + 1 => do
    if ← sees [.entry] then
      drop
      let n ← nodeUnless [.entry, .key, .value, .blockEnd] true false steps
      return n :: (← looseItems steps)
    else return []
termination_by structural x => x

/-- A value after its colon, or the empty node. -/
def valueUnless (ts : List Token) (block : Bool) : Nat → Read Node
  | 0 => throw .outOfSteps
  | steps + 1 => do
    if ← sees [.value] then
      drop
      nodeUnless ts block block steps
    else return .empty
termination_by structural x => x

/-- The keys and values of a block. -/
def entries : Nat → Read (List (Node × Node))
  | 0 => throw .outOfSteps
  | steps + 1 => do
    if ← sees [.key] then
      drop
      let k ← nodeUnless [.key, .value, .blockEnd] true true steps
      let v ← valueUnless [.key, .value, .blockEnd] true steps
      return (k, v) :: (← entries steps)
    else
      expect .blockEnd
      return []
termination_by structural x => x

/-- The entries between brackets; `first` says that no comma goes before the next one. -/
def flowItems (first : Bool) : Nat → Read (List Node)
  | 0 => throw .outOfSteps
  | steps + 1 => do
    if ← sees [.flowSequenceEnd] then
      drop
      return []
    else
      if !first then expect .comma
      if ← sees [.flowSequenceEnd] then
        drop
        return []
      else if ← sees [.key] then
        drop
        let k ← nodeUnless [.value, .comma, .flowSequenceEnd] false false steps
        let v ← valueUnless [.comma, .flowSequenceEnd] false steps
        return .mapping none [(k, v)] :: (← flowItems false steps)
      else
        let n ← node false false steps
        return n :: (← flowItems false steps)
termination_by structural x => x

/-- The keys and values between braces. -/
def flowEntries (first : Bool) : Nat → Read (List (Node × Node))
  | 0 => throw .outOfSteps
  | steps + 1 => do
    if ← sees [.flowMappingEnd] then
      drop
      return []
    else
      if !first then expect .comma
      if ← sees [.flowMappingEnd] then
        drop
        return []
      else if ← sees [.key] then
        drop
        let k ← nodeUnless [.value, .comma, .flowMappingEnd] false false steps
        let v ← valueUnless [.comma, .flowMappingEnd] false steps
        return (k, v) :: (← flowEntries false steps)
      else
        let k ← node false false steps
        return (k, .empty) :: (← flowEntries false steps)
termination_by structural x => x

end

/-- Leaves the next parts behind as long as they are the given one. -/
def dropAll (t : Token) : Read Unit :=
  modify fun p => { p with tokens := p.tokens.dropWhile (· = t) }

/-- **The node of the only document**, if there is one. -/
def document : Read (Option Node) := do
  match ← peek with
  | none => return none
  | some _ =>
    if ← sees [.directive, .documentStart] then
      dropAll .directive
      expect .documentStart
    let steps := 4 * (← get).tokens.length + 4
    let empty := (← peek).isNone || (← sees [.directive, .documentStart, .documentEnd])
    let n ← if empty then pure .empty else node true false steps
    dropAll .documentEnd
    if (← peek).isSome then throw .severalDocuments
    return some n

end Read

/-- **The node of a text**, if there is one. -/
def document (text : List Char) : Except Problem (Option Node) := do
  return (← Read.document.run ⟨← tokens text, []⟩).1

end Stencil.Yaml
