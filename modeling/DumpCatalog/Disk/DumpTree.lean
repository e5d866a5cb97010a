import DumpCatalog.Disk.Basic
import DumpCatalog.DumpTree

/-! # A directory as a dump tree

The tree below a directory on disk. Its nodes are the chains of names below the directory, and the
names in a directory are sorted, so the order in which the system enumerates them does not show.

A place on the disk is a directory or a file, and both may be read by everybody. So the system
refuses what is asked of a node for three reasons only: nothing is there, the path to it leads
through a file, or it is a directory where a file is asked for. -/

namespace DumpCatalog

/-- A directory on disk, by the path that was given for it. -/
structure DumpDirectory where
  disk : Disk
  path : String

/-- A place below the root of a dump directory: the names that lead to it. -/
abbrev DiskNode := List FileName

namespace DumpDirectory

variable (directory : DumpDirectory)

/-- The root, which has to be a directory. -/
def top : Except SystemFault Entry := directory.disk.lookup (Path.join directory.path "")

/-- What is at a node. -/
def entry (node : DiskNode) : Except SystemFault Entry := do
  (← directory.top).descend (node.map (·.text))

/-- The path of a node from the root. -/
def relativePath (node : DiskNode) : String := node.foldl (fun path name => Path.join path name.text) ""

/-- The path of a node as the system takes it. -/
def fullPath (node : DiskNode) : String := Path.join directory.path (relativePath node)

/-- The name of a node; the root has the name in which its path ends. -/
def nodeName (node : DiskNode) : String :=
  match node.getLast? with
  | some name => name.text
  | none => (Path.fileName? directory.path).getD ""

/-- The size of a file. One that is too long for a size has the greatest. -/
def fileSize (node : DiskNode) : Int64 :=
  match directory.entry node with
  | .ok (.file content) => Int64.ofIntClamp content.length
  | _ => 0

/-- Whether a node is a directory. -/
def isDirectory (node : DiskNode) : Bool :=
  match directory.entry node with
  | .ok (.directory _) => true
  | _ => false

/-- The node, if it is still there. -/
def stat (node : DiskNode) : Except Fault DiskNode :=
  match directory.entry node with
  | .ok _ => .ok node
  | .error fault => .error (.io (.system fault))

/-- The names of a directory in ascending order, each of them once. -/
def sortedNames (entries : Entries) : List FileName :=
  (entries.map (·.1)).eraseDups.mergeSort fun a b => decide (a.text ≤ b.text)

/-- The nodes in a directory, sorted by name. -/
def children (node : DiskNode) : Except Fault (List DiskNode) :=
  match directory.entry node with
  | .ok (.directory entries) => .ok ((sortedNames entries).map fun name => node ++ [name])
  | _ => .error (.notADirectory (relativePath node))

/-- How deep directories are nested below a node. -/
def height (node : DiskNode) : Nat :=
  match directory.entry node with
  | .ok entry => entry.height
  | .error _ => 0

theorem entry_append (node : DiskNode) (name : FileName) :
    directory.entry (node ++ [name]) =
      directory.entry node >>= fun found => found.descend [name.text] := by
  unfold entry
  cases directory.top with
  | error fault => rfl
  | ok top =>
    change top.descend _ = top.descend _ >>= _
    rw [List.map_append, Entry.descend_append]
    rfl

theorem height_lt {node child : DiskNode} {nodes : List DiskNode}
    (h : directory.children node = .ok nodes) (member : child ∈ nodes) :
    directory.height child < directory.height node := by
  unfold children at h
  split at h
  · next entries here =>
    cases h
    obtain ⟨name, listed, rfl⟩ := List.mem_map.1 member
    have present : name ∈ entries.map (·.1) := List.mem_eraseDups.1 (List.mem_mergeSort.1 listed)
    have found : (Entries.get? entries name.text).isSome :=
      Entries.isSome_get?_iff.mpr ⟨name, present, rfl⟩
    obtain ⟨⟨_, entry⟩, found⟩ := Option.isSome_iff_exists.1 found
    have below := Entry.height_lt_of_get? found
    have child : directory.entry (node ++ [name]) = .ok entry := by
      rw [entry_append, here]
      simp [bind, Except.bind, Entry.descend, found]
    simpa [height, child, here] using below
  · cases h

/-- The tree below the directory. -/
def tree : DumpTree DiskNode where
  root := []
  name := directory.nodeName
  path := relativePath
  size := directory.fileSize
  isDirectory := directory.isDirectory
  stat := directory.stat
  children := directory.children
  parent := List.dropLast
  height := directory.height
  height_lt h member _ := directory.height_lt h member

/-- The bytes of a file, by its path from the root. -/
def content (relative : String) : Except SystemFault Bytes := do
  match ← (← directory.top).descend (Path.components relative) with
  | .file content => return content
  | .directory _ => throw .isADirectory

end DumpDirectory

end DumpCatalog
