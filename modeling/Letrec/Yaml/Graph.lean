import Letrec.Yaml.Scalar

/-!
# Node graphs

The content of a document: scalars, sequences and mappings, and aliases that refer to other nodes.
Nodes are numbered, so that a graph may be cyclic.
-/

namespace Letrec.Yaml

inductive Shape where
  | scalar (text : String)
  | sequence (items : List Nat)
  | mapping (entries : List (Nat × Nat))
  | alias (anchor : String) (target : Nat)
deriving DecidableEq, Repr, Inhabited

/-- Lines and columns count from one. -/
structure Node where
  tag : Tag
  shape : Shape
  line : Nat
  column : Nat
deriving DecidableEq, Repr, Inhabited

/-- The text of the node itself: that of a scalar, the name of an alias, and nothing for a
collection. -/
def Node.text (n : Node) : String :=
  match n.shape with
  | .scalar text => text
  | .alias anchor _ => anchor
  | .sequence _ | .mapping _ => ""

structure Graph where
  nodes : Array Node
  root : Nat
deriving DecidableEq, Repr, Inhabited

namespace Graph

def node (g : Graph) (i : Nat) : Node := g.nodes.getD i default

def follow (g : Graph) (i : Nat) : Nat :=
  match (g.node i).shape with
  | .alias _ target => target
  | _ => i

end Graph

/-- A document without aliases, as it is written out. A mapping may be written in one line. -/
inductive Tree where
  | scalar (tag : Tag) (text : String)
  | sequence (items : List Tree)
  | mapping (inline : Bool) (entries : List (Tree × Tree))
deriving Repr, Inhabited

namespace Tree

def str (text : String) : Tree := .scalar .str text

def single (key : String) (value : Tree) : Tree := .mapping false [(str key, value)]

mutual
/-- The nodes of a tree, added to `nodes`, and the number of its root. -/
def addTo (nodes : Array Node) : Tree → Array Node × Nat
  | .scalar tag text => (nodes.push ⟨tag, .scalar text, 0, 0⟩, nodes.size)
  | .sequence items =>
    let (nodes, items) := addItems nodes items
    (nodes.push ⟨.seq, .sequence items, 0, 0⟩, nodes.size)
  | .mapping _ entries =>
    let (nodes, entries) := addEntries nodes entries
    (nodes.push ⟨.map, .mapping entries, 0, 0⟩, nodes.size)

def addItems (nodes : Array Node) : List Tree → Array Node × List Nat
  | [] => (nodes, [])
  | item :: rest =>
    let (nodes, i) := addTo nodes item
    let (nodes, is) := addItems nodes rest
    (nodes, i :: is)

def addEntries (nodes : Array Node) : List (Tree × Tree) → Array Node × List (Nat × Nat)
  | [] => (nodes, [])
  | (key, value) :: rest =>
    let (nodes, k) := addTo nodes key
    let (nodes, v) := addTo nodes value
    let (nodes, es) := addEntries nodes rest
    (nodes, (k, v) :: es)
end

def toGraph (t : Tree) : Graph :=
  let (nodes, root) := t.addTo #[]
  ⟨nodes, root⟩

end Tree

end Letrec.Yaml
