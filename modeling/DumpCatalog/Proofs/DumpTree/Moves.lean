import DumpCatalog.DumpTree
import DumpCatalog.Path
import DumpCatalog.Proofs.Lists
import Mathlib.Logic.Relation

/-! # Moving about in a tree

One moves from a node to a node in its directory, to the directory that it is in, or to the node
again. `DumpTree.Reaches` holds of the nodes to which such moves lead from the root, and
`DumpTree.Reaches.keeps` says that they have every property that the root has and each move keeps.
In a coherent tree (`DumpTree.Coherent`) these moves agree: a way down is undone by the way up, and
the path of a node is written by the names on the way.

A walk over directories that can be listed lists the nodes in turn (`DumpTree.walk_of_children`). -/

namespace DumpCatalog.DumpTree

variable {Node : Type} {tree : DumpTree Node}

/-! ### Moves -/

/-- One move in a tree. -/
inductive Move (tree : DumpTree Node) : Node → Node → Prop
  | down {node child : Node} {nodes : List Node} (listed : tree.children node = .ok nodes)
      (member : child ∈ nodes) : tree.Move node child
  | up (node : Node) : tree.Move node (tree.parent node)
  | stay {node there : Node} (found : tree.stat node = .ok there) : tree.Move node there

/-- Moves lead from the root to the node. -/
def Reaches (tree : DumpTree Node) (node : Node) : Prop :=
  Relation.ReflTransGen tree.Move tree.root node

/-- What holds of the root and is kept by each move holds of every node that is reached. -/
theorem Reaches.keeps {node : Node} {inv : Node → Prop} (reached : tree.Reaches node)
    (root : inv tree.root) (move : ∀ {here there}, inv here → tree.Move here there → inv there) :
    inv node := by
  induction reached with
  | refl => exact root
  | tail _ last ih => exact move ih last

/-- **Moves agree with each other.** What is in the directory at a node has this node for its
parent, and its path is that of the node with its own name behind it; only the root is its own
parent; and the way up leads from every node to the root. -/
structure Coherent (tree : DumpTree Node) : Prop where
  parent_child : ∀ node nodes child, tree.Reaches node → tree.children node = .ok nodes →
    child ∈ nodes → tree.parent child = node
  path_child : ∀ node nodes child, tree.Reaches node → tree.children node = .ok nodes →
    child ∈ nodes → tree.path child = Path.join (tree.path node) (tree.name child)
  parent_eq_self_iff : ∀ node, tree.Reaches node → (tree.parent node = node ↔ node = tree.root)
  climbs : ∀ node, tree.Reaches node → ∃ n, tree.parent^[n] node = tree.root

/-! ### Walks -/

theorem walkChild_of_file {node : Node} (file : tree.isDirectory node = false) :
    tree.walkChild node = .ok [tree.listed node] := by
  rw [walkChild, if_neg (by simp [file])]
  rfl

theorem walkChild_of_directory {node : Node} {lines : List Listed}
    (directory : tree.isDirectory node = true) (walked : tree.walk node = .ok lines) :
    tree.walkChild node = .ok (tree.listed node :: lines) := by
  rw [walkChild, if_pos directory, walked]
  rfl

theorem walk_of_children {node : Node} {nodes : List Node} {lines : Node → List Listed}
    (listed : tree.children node = .ok nodes)
    (each : ∀ child ∈ nodes, tree.walkChild child = .ok (lines child)) :
    tree.walk node = .ok (nodes.flatMap lines) := by
  have parts : nodes.mapM tree.walkChild = .ok (nodes.map lines) := by
    rw [mapM_eq_ok_iff, List.forall₂_map_right_iff]
    exact List.forall₂_same.mpr each
  rw [walk_eq, listed]
  show nodes.mapM tree.walkChild >>= _ = _
  rw [parts]
  rfl

end DumpCatalog.DumpTree
