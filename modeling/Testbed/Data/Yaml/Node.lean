import Testbed.Data.Yaml.Scalar
import Testbed.Data.Yaml.Token

/-!
# Nodes of YAML

The nodes of a document, numbered in the order in which they begin.  A collection names its parts by
their numbers, because an alias can make one node a part of several, even of itself.
-/

namespace Testbed.Data.Yaml

inductive Content where
  | scalar (chars : List Char)
  | sequence (items : List Nat)
  | mapping (entries : List (Nat × Nat))

structure Node where
  tag : Tag
  content : Content

/-- The nodes of a document and the number of its root; an empty stream has none. -/
structure Graph where
  nodes : Array Node
  root : Option Nat

/-! ## Reading tokens -/

/-- What is left of a stream while the nodes of its document are made. -/
structure Composing where
  tokens : List Token
  fault : Option Fault
  nodes : Array Node := #[]
  anchors : List (List Char × Nat) := []
  handles : List (List Char × List Char) := []

abbrev Composer := StateT Composing (Except Fault)

namespace Composer

def refuse {α : Type} : Composer α :=
  throw .malformed

/-- The next token, unless the stream has ended. -/
def peek : Composer (Option Token) := do
  let s ← get
  match s.tokens, s.fault with
  | t :: _, _ => return some t
  | [], none => return none
  | [], some f => throw f

def advance : Composer Unit :=
  modify fun s ↦ { s with tokens := s.tokens.tail }

/-- Whether the next token is one of some. -/
def next (tokens : List Token) : Composer Bool := do
  return (← peek).any tokens.contains

/-- Skips the next token if it is the given one, and tells whether it was. -/
def skip (t : Token) : Composer Bool := do
  if ← next [t] then
    advance
    return true
  else return false

/-- Skips the next token, which has to be the given one. -/
def expect (t : Token) : Composer Unit := do
  unless ← skip t do refuse

end Composer

open Composer

/-! ## Making nodes -/

/-- What may stand before the content of a node: a name for it, and its tag in full. -/
structure Properties where
  anchor : Option (List Char) := none
  tag : Option (List Char) := none

/-- The tag that leaves the meaning to the content. -/
def openTag : List Char := ['!']

/-- The tag of a node whose content is read as `otherwise` unless a tag says more. -/
def Properties.tagOr (p : Properties) (otherwise : Tag) : Tag :=
  match p.tag with
  | none => otherwise
  | some name => if name = openTag then otherwise else .ofName name

/-- Scalars without quotes are resolved by their form, and so are all that have the open tag. -/
def Properties.scalarTag (p : Properties) (plain : Bool) (chars : List Char) : Tag :=
  let byForm := plain || p.tag = some openTag
  p.tagOr (if byForm then resolve chars else .text)

/-- Adds a node, under its name if it has one. -/
def addNode (p : Properties) (node : Node) : Composer Nat := do
  let s ← get
  let id := s.nodes.size
  let anchors := match p.anchor with
    | some name => (name, id) :: s.anchors
    | none => s.anchors
  set { s with nodes := s.nodes.push node, anchors := anchors }
  return id

def setContent (id : Nat) (node : Node) : Composer Unit :=
  modify fun s ↦ { s with nodes := s.nodes.setIfInBounds id node }

/-- Adds a collection, whose parts may name it already. -/
def addCollection (p : Properties) (kind : Tag) (parts : Composer Content) : Composer Nat := do
  let tag := p.tagOr kind
  let id ← addNode p ⟨tag, .sequence []⟩
  let content ← parts
  setContent id ⟨tag, content⟩
  return id

/-- A node without content. -/
def emptyNode (p : Properties := {}) : Composer Nat :=
  addNode p ⟨p.tagOr .null, .scalar []⟩

/-- The tag that is written in a document, in full. -/
def fullTag (t : WrittenTag) : Composer (List Char) := do
  match t.handle with
  | none => return t.suffix
  | some handle => match (← get).handles.lookup handle with
    | some start => return start ++ t.suffix
    | none => refuse

/-- A name and a tag, in either order. -/
def properties : Composer Properties := do
  match ← peek with
  | some (.anchor name) =>
    advance
    match ← peek with
    | some (.tag t) =>
      advance
      return { anchor := some name, tag := some (← fullTag t) }
    | _ => return { anchor := some name }
  | some (.tag t) =>
    advance
    match ← peek with
    | some (.anchor name) =>
      advance
      return { anchor := some name, tag := some (← fullTag t) }
    | _ => return { tag := some (← fullTag t) }
  | _ => return {}

/-- A node of which there is no content, which is a node only if it has a name or a tag. -/
def bareNode (p : Properties) : Composer Nat :=
  if p.anchor.isSome || p.tag.isSome then emptyNode p else refuse

mutual

/-- A node; `block` allows collections by indentation, and `indentless` a sequence that is indented
no deeper than the mapping around it. -/
def node (block indentless : Bool) : (fuel : Nat) → Composer Nat
  | 0 => refuse
  | fuel + 1 => do
    if let some (.aliasOf name) ← peek then
      advance
      match (← get).anchors.lookup name with
      | some id => return id
      | none => refuse
    else
      let p ← properties
      let known := (← get).anchors
      if p.anchor.any fun name ↦ (known.lookup name).isSome then refuse
      else match ← peek with
      | some (.scalar plain chars) =>
        advance
        addNode p ⟨p.scalarTag plain chars, .scalar chars⟩
      | some .flowSequenceStart =>
        advance
        addCollection p .list (.sequence <$> flowItems true fuel)
      | some .flowMappingStart =>
        advance
        addCollection p .map (.mapping <$> flowEntries true fuel)
      | some .blockEntry =>
        if indentless then addCollection p .list (.sequence <$> indentlessItems fuel)
        else bareNode p
      | some .blockSequenceStart =>
        if block then
          advance
          addCollection p .list (.sequence <$> blockItems fuel)
        else bareNode p
      | some .blockMappingStart =>
        if block then
          advance
          addCollection p .map (.mapping <$> blockEntries fuel)
        else bareNode p
      | _ => bareNode p

/-- A node, or an empty one before a token of the given kind. -/
def nodeUnless (stops : List Token) (block indentless : Bool) : (fuel : Nat) → Composer Nat
  | 0 => refuse
  | fuel + 1 => do
    if ← next stops then emptyNode else node block indentless fuel

/-- The items of a sequence by indentation, and its end. -/
def blockItems : (fuel : Nat) → Composer (List Nat)
  | 0 => refuse
  | fuel + 1 => do
    if ← skip .blockEntry then
      let item ← nodeUnless [.blockEntry, .blockEnd] true false fuel
      return item :: (← blockItems fuel)
    else
      expect .blockEnd
      return []

/-- The items of a sequence that is not indented. -/
def indentlessItems : (fuel : Nat) → Composer (List Nat)
  | 0 => refuse
  | fuel + 1 => do
    if ← skip .blockEntry then
      let item ← nodeUnless [.blockEntry, .key, .value, .blockEnd] true false fuel
      return item :: (← indentlessItems fuel)
    else return []

/-- The entries of a mapping by indentation, and its end. -/
def blockEntries : (fuel : Nat) → Composer (List (Nat × Nat))
  | 0 => refuse
  | fuel + 1 => do
    if ← skip .key then
      let stops := [.key, .value, .blockEnd]
      let k ← nodeUnless stops true true fuel
      let v ← if ← skip .value then nodeUnless stops true true fuel else emptyNode
      return (k, v) :: (← blockEntries fuel)
    else
      expect .blockEnd
      return []

/-- The items of a sequence in brackets, and its end.  An item that starts as a key is a mapping of
one entry. -/
def flowItems (first : Bool) : (fuel : Nat) → Composer (List Nat)
  | 0 => refuse
  | fuel + 1 => do
    if ← skip .flowSequenceEnd then return []
    else
      unless first do expect .flowEntry
      if ← skip .key then
        let stops := [.flowEntry, .flowSequenceEnd]
        let item ← addCollection {} .map do
          let k ← nodeUnless (.value :: stops) false false fuel
          let v ← if ← skip .value then nodeUnless stops false false fuel else emptyNode
          return .mapping [(k, v)]
        return item :: (← flowItems false fuel)
      else if ← skip .flowSequenceEnd then return []
      else
        let item ← node false false fuel
        return item :: (← flowItems false fuel)

/-- The entries of a mapping in braces, and its end. -/
def flowEntries (first : Bool) : (fuel : Nat) → Composer (List (Nat × Nat))
  | 0 => refuse
  | fuel + 1 => do
    if ← skip .flowMappingEnd then return []
    else
      unless first do expect .flowEntry
      let stops := [.flowEntry, .flowMappingEnd]
      if ← skip .key then
        let k ← nodeUnless (.value :: stops) false false fuel
        let v ← if ← skip .value then nodeUnless stops false false fuel else emptyNode
        return (k, v) :: (← flowEntries false fuel)
      else if ← skip .flowMappingEnd then return []
      else
        let k ← node false false fuel
        let v ← emptyNode
        return (k, v) :: (← flowEntries false fuel)

end

/-! ## Documents -/

/-- The handles that every document knows. -/
def commonHandles : List (List Char × List Char) :=
  [(['!'], ['!']), (['!', '!'], tagSpace)]

/-- The directives before a document: at most one version, of the first major kind, and at most one
definition of each handle. -/
def directives (versioned : Bool) : (fuel : Nat) → Composer Unit
  | 0 => refuse
  | fuel + 1 => do
    match ← peek with
    | some (.directive d) =>
      advance
      match d with
      | .version major =>
        if versioned || major ≠ 1 then refuse else directives true fuel
      | .handle handle start =>
        let s ← get
        if (s.handles.lookup handle).isSome then refuse
        else
          set { s with handles := (handle, start) :: s.handles }
          directives versioned fuel
      | .other => directives versioned fuel
    | _ => modify fun s ↦ { s with handles := s.handles ++ commonHandles }

/-- The end of the only document of a stream. -/
def streamEnd : (fuel : Nat) → Composer Unit
  | 0 => refuse
  | fuel + 1 => do
    if ← skip .documentEnd then streamEnd fuel
    else if (← peek).isSome then refuse

/-- The root of a document that is introduced by directives or a separator. -/
def explicitDocument (fuel : Nat) : Composer Nat := do
  directives false fuel
  expect .documentStart
  match ← peek with
  | none | some (.directive _) | some .documentStart | some .documentEnd => emptyNode
  | some _ => node true false fuel

/-- The root of the only document of a stream. -/
def document (fuel : Nat) : Composer (Option Nat) := do
  match ← peek with
  | none => return none
  | some (.directive _) | some .documentStart =>
    let root ← explicitDocument fuel
    streamEnd fuel
    return some root
  | some _ =>
    modify fun s ↦ { s with handles := commonHandles }
    let root ← node true false fuel
    streamEnd fuel
    return some root

/-- The nodes of a stream that holds at most one document. -/
def Graph.ofChars (cs : List Char) : Except Fault Graph := do
  let ts := Tokens.ofChars cs
  let fuel := 3 * ts.certain.length + 3
  let (root, s) ← (document fuel).run { tokens := ts.certain, fault := ts.fault }
  return { nodes := s.nodes, root := root }

end Testbed.Data.Yaml
