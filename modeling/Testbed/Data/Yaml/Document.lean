import Testbed.Data.Yaml.Node

/-!
# Documents of YAML

The value of the only document in a stream.  Nodes are met from the root outwards: the parts of a
collection are met before any of them is opened, so of two faults the one nearer to the root is
found first.

Values are finite.  A collection that contains itself has no value of this kind, so documents with one
are left out of account: here it holds an empty collection in its own place.
-/

namespace Testbed.Data.Yaml

def Tag.isCollection : Tag → Bool
  | .list | .map | .set | .pairs => true
  | _ => false

/-- The nodes met so far. -/
structure Meeting where
  nodes : Array Node
  /-- The values of the scalars, by the number of their node. -/
  scalars : List (Nat × Value) := []
  /-- The collections, in the order in which they were met. -/
  collections : List Nat := []
  /-- How many of them have been opened. -/
  opened : Nat := 0

abbrev Meet := StateT Meeting (Except Fault)

namespace Meet

def refuse {α : Type} : Meet α :=
  throw .malformed

def nodeAt (id : Nat) : Meet Node := do
  match (← get).nodes[id]? with
  | some node => return node
  | none => refuse

def setNode (id : Nat) (node : Node) : Meet Unit :=
  modify fun s ↦ { s with nodes := s.nodes.setIfInBounds id node }

def itemsOf (id : Nat) : Meet (List Nat) := do
  match (← nodeAt id).content with
  | .sequence items => return items
  | _ => refuse

def entriesOf (id : Nat) : Meet (List (Nat × Nat)) := do
  match (← nodeAt id).content with
  | .mapping entries => return entries
  | _ => refuse

def hasTag (tag : Tag) (id : Nat) : Meet Bool := do
  return (← nodeAt id).tag = tag

/-! ## Scalars -/

/-- The characters of a scalar.  A mapping has those of the scalar that stands for it. -/
def scalarChars : (fuel : Nat) → (id : Nat) → Meet (List Char)
  | 0, _ => refuse
  | fuel + 1, id => do
    match (← nodeAt id).content with
    | .scalar chars => return chars
    | .sequence _ => refuse
    | .mapping entries =>
      match ← entries.findM? fun (k, _) ↦ hasTag .stand k with
      | some (_, v) => scalarChars fuel v
      | none => refuse

/-- Notes a node that is part of another one or the root. -/
def meet (id : Nat) : Meet Unit := do
  let s ← get
  let node ← nodeAt id
  if node.tag.isCollection then
    unless s.collections.contains id do
      set { s with collections := s.collections ++ [id] }
  else if (s.scalars.lookup id).isNone then
    let chars ← scalarChars (s.nodes.size + 1) id
    let v ← (readScalar node.tag chars : Except Fault Value)
    set { s with scalars := (id, v) :: s.scalars }

/-! ## Collections -/

/-- Puts the entries of the mappings that are merged into a mapping before its own, and turns the
keys that would stand for it into texts. -/
def flatten : (fuel : Nat) → (id : Nat) → Meet Unit
  | 0, _ => refuse
  | fuel + 1, id => do
    let entries ← entriesOf id
    let merges ← entries.filterM fun (k, _) ↦ hasTag .merge k
    let own ← entries.filterM fun (k, _) ↦ return !(← hasTag .merge k)
    let stands ← own.filterM fun (k, _) ↦ hasTag .stand k
    for (k, _) in stands do
      setNode k { ← nodeAt k with tag := .text }
    let node ← nodeAt id
    setNode id { node with content := .mapping own }
    let merged ← merges.mapM fun (_, v) ↦ do
      match (← nodeAt v).content with
      | .mapping _ =>
        flatten fuel v
        entriesOf v
      | .sequence items =>
        let parts ← items.mapM fun item ↦ do
          flatten fuel item
          entriesOf item
        return parts.reverse.flatten
      | .scalar _ => refuse
    setNode id { node with content := .mapping (merged.flatten ++ own) }

/-- Meets the entries of a mapping, whose keys have to be scalars. -/
def meetEntries (entries : List (Nat × Nat)) : Meet Unit := do
  for (k, v) in entries do
    meet k
    if (← nodeAt k).tag.isCollection then refuse
    meet v

/-- Meets the parts of a collection. -/
def openNode (id : Nat) : Meet Unit := do
  let s ← get
  match (← nodeAt id).tag with
  | .list => for item in ← itemsOf id do meet item
  | .pairs =>
    for item in ← itemsOf id do
      match ← entriesOf item with
      | [(k, v)] =>
        meet k
        meet v
      | _ => refuse
  | _ =>
    flatten (s.nodes.size + 1) id
    meetEntries (← entriesOf id)

/-- Opens the collections in the order in which they were met. -/
def openAll : (fuel : Nat) → Meet Unit
  | 0 => refuse
  | fuel + 1 => do
    let s ← get
    match s.collections[s.opened]? with
    | none => return
    | some id =>
      set { s with opened := s.opened + 1 }
      openNode id
      openAll fuel

end Meet

/-! ## Values -/

/-- A collection without parts. -/
def emptyOf : Tag → Value
  | .map => .map []
  | .set => .set []
  | _ => .list []

/-- The value of a node inside of others.  A node inside of itself would have a value without an end;
an empty collection stands there instead, and nothing is claimed about such documents. -/
def valueOf (s : Meeting) : (fuel : Nat) → (around : List Nat) → (id : Nat) → Value
  | 0, _, _ => .null
  | fuel + 1, around, id =>
    match s.scalars.lookup id, s.nodes[id]? with
    | some v, _ => v
    | none, none => .null
    | none, some node =>
      let part (child : Nat) : Value := valueOf s fuel (id :: around) child
      if around.contains id then emptyOf node.tag
      else match node.tag, node.content with
        | .map, .mapping entries =>
          .map (Entries.ofList (entries.map fun (k, v) ↦ (part k, part v)))
        | .set, .mapping entries =>
          .set ((Entries.ofList (entries.map fun (k, v) ↦ (part k, part v))).map Prod.fst)
        | .list, .sequence items => .list (items.map part)
        | .pairs, .sequence items =>
          .list (items.map fun item ↦ match s.nodes[item]?.map Node.content with
            | some (.mapping [(k, v)]) => .list [part k, part v]
            | _ => .null)
        | tag, _ => emptyOf tag

/-- The value of a graph of nodes. -/
def Graph.value (g : Graph) : Except Fault Value := do
  match g.root with
  | none => .ok .null
  | some root =>
    let fuel := g.nodes.size + 1
    let (_, s) ← (do
      Meet.meet root
      Meet.openAll fuel : Meet Unit).run { nodes := g.nodes }
    .ok (valueOf s fuel [] root)

/-- The value of a stream that holds at most one document; an empty stream is null. -/
def read (cs : List Char) : Except Fault Value := do
  (← Graph.ofChars cs).value

end Testbed.Data.Yaml
