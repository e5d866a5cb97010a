import DumpCatalog.Fault

/-! # Dump trees

A dump has the shape of a tree: one directory per database with files for its collections, and files
of the top level beside them. A `DumpTree` is a view of such a tree through its nodes, whatever
they are; a directory on disk gives one, and so does a catalog. `DumpTree.walk` lists what is below
a node. -/

namespace DumpCatalog

/-- A tree seen through its nodes. The height bounds how deep directories are nested below a node:
it falls from a directory to the directories in it. -/
structure DumpTree (Node : Type) where
  root : Node
  /-- The name that is shown for a node. -/
  name : Node → String
  /-- The path of a node from the root. -/
  path : Node → String
  /-- The size of a file in bytes, and zero for all else. -/
  size : Node → Int64
  isDirectory : Node → Bool
  /-- The node again, if it is still there. -/
  stat : Node → Except Fault Node
  /-- The nodes in a directory. -/
  children : Node → Except Fault (List Node)
  /-- The directory that a node is in. The root is in itself. -/
  parent : Node → Node
  height : Node → Nat
  height_lt : ∀ {node : Node} {nodes : List Node} {child : Node}, children node = .ok nodes →
    child ∈ nodes → isDirectory child = true → height child < height node

/-- A line of a listing. -/
structure Listed where
  path : String
  size : Int64
  isDirectory : Bool
  deriving DecidableEq, Repr

namespace DumpTree

variable {Node : Type}

/-- The line of a node. -/
def listed (tree : DumpTree Node) (node : Node) : Listed :=
  ⟨tree.path node, tree.size node, tree.isDirectory node⟩

/-- All that is below a node: each child, and behind a directory all that is below it. -/
def walk (tree : DumpTree Node) (node : Node) : Except Fault (List Listed) :=
  match h : tree.children node with
  | .error fault => .error fault
  | .ok nodes => do
    let parts ← nodes.attach.mapM fun ⟨child, member⟩ =>
      if directory : tree.isDirectory child = true then do
        have := tree.height_lt h member directory
        return tree.listed child :: (← tree.walk child)
      else return [tree.listed child]
    return parts.flatten
termination_by tree.height node

/-- All that is below the root. -/
def listing (tree : DumpTree Node) : Except Fault (List Listed) := tree.walk tree.root

/-- What a child adds to the listing of its directory. -/
def walkChild (tree : DumpTree Node) (child : Node) : Except Fault (List Listed) :=
  if tree.isDirectory child then do return tree.listed child :: (← tree.walk child)
  else return [tree.listed child]

private theorem mapM_attach {α β : Type} {l : List α} {f : {a // a ∈ l} → Except Fault β}
    {g : α → Except Fault β} (h : ∀ a, f a = g a.1) : l.attach.mapM f = l.mapM g := by
  rw [show f = fun a => g a.1 from funext h]
  conv => rhs; rw [← List.attach_map_subtype_val l]
  rw [List.mapM_map]
  rfl

theorem walk_eq (tree : DumpTree Node) (node : Node) :
    tree.walk node = do
      let parts ← (← tree.children node).mapM tree.walkChild
      return parts.flatten := by
  rw [walk]
  split
  · next h => rw [h]; rfl
  · next nodes h =>
    conv => rhs; rw [h]
    change _ = nodes.mapM tree.walkChild >>= fun parts => pure parts.flatten
    congr 1
    apply mapM_attach
    rintro ⟨child, member⟩
    simp only [walkChild]
    rfl

end DumpTree

end DumpCatalog
