import ShiftReduce.Item

/-!
The canonical collection of item sets, breadth first. A node is told by its kernel, as a set: the
kernel fixes the closure, and it is what the closed set holds besides items with the dot in front. A
node keeps the order in which its items were found first, and the edge it was first reached by. Its
own edges are recorded when it is expanded.
-/
namespace ShiftReduce

structure Node where
  id : Nat
  kernel : List Item
  /-- The closure of the kernel. -/
  items : List Item
  /-- The node and symbol it was first reached from; a start node has none. -/
  origin : Option (Nat × Symbol)

namespace Node

def ofKernel (registry : Registry) (id : Nat) (kernel : List Item) (origin : Option (Nat × Symbol)) :
    Node :=
  ⟨id, kernel, registry.close kernel, origin⟩

def hasKernel (kernel : List Item) (node : Node) : Bool :=
  OrderedSet.sameMembers node.kernel kernel

end Node

structure Collection where
  nodes : List Node
  /-- The edges of the nodes expanded so far, which are the first ones. -/
  rows : List (List (Symbol × Nat))
  /-- The start nodes, in the order in which they were asked for. -/
  roots : List Nat

namespace Collection

def indexOf? (nodes : List Node) (kernel : List Item) : Option Nat :=
  nodes.findIdx? (·.hasKernel kernel)

/-- The number of the node of a kernel, which is appended unless it is there. -/
def intern (registry : Registry) (origin : Option (Nat × Symbol)) (nodes : List Node)
    (kernel : List Item) : Nat × List Node :=
  match indexOf? nodes kernel with
  | some i => (i, nodes)
  | none => (nodes.length, nodes ++ [.ofKernel registry nodes.length kernel origin])

def follow (registry : Registry) (i : Nat) (found : List Node × List (Symbol × Nat))
    (group : Symbol × List Item) : List Node × List (Symbol × Nat) :=
  let (target, nodes) := intern registry (some (i, group.1)) found.1 group.2
  (nodes, found.2 ++ [(group.1, target)])

/-- Adds the nodes one symbol away from the node numbered `i`. The edges to them are in order of first
appearance of their symbols. -/
def expand (registry : Registry) (i : Nat) (node : Node) (nodes : List Node) :
    List Node × List (Symbol × Nat) :=
  (registry.kernels node.items).foldl (follow registry i) (nodes, [])

def advance (registry : Registry) (node : Node) (collection : Collection) : Collection :=
  let (nodes, row) := expand registry collection.rows.length node collection.nodes
  { collection with nodes, rows := collection.rows ++ [row] }

/-- Scans the growing list of nodes and expands each. -/
def exploreFrom (registry : Registry) : Nat → Collection → Collection
  | 0, collection => collection
  | fuel + 1, collection =>
    match collection.nodes[collection.rows.length]? with
    | none => collection
    | some node => exploreFrom registry fuel (collection.advance registry node)

/-- Adds a start node and all that is reachable from it. Nodes differ in their kernels, so there are
never more of them than there are sets of items. -/
def explore (registry : Registry) (collection : Collection) (production : Nat) : Collection :=
  let (root, nodes) := intern registry none collection.nodes [⟨production, 0⟩]
  exploreFrom registry (Nat.pow 2 registry.itemCount)
    { collection with nodes, roots := collection.roots ++ [root] }

/-- The nodes reachable from the start nodes of several productions, which share what they can. -/
def ofStarts (registry : Registry) (productions : List Nat) : Collection :=
  productions.foldl (explore registry) ⟨[], [], []⟩

end Collection

end ShiftReduce
