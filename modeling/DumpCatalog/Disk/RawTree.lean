import DumpCatalog.DumpTree
import DumpCatalog.Text.Lossy

/-! # Directories with names of any bytes

The system takes almost any bytes for a name, also such as are no text. The tree below a directory
is made of bytes then: its nodes are the chains of names below the directory, paths are joined of
their bytes, and the names in a directory are sorted by them. Only what is shown of a node is text,
with replacements for what is none. -/

namespace DumpCatalog

namespace RawPath

/-- The byte between the names in a path. -/
def separator : UInt8 := 0x2F

/-- The byte of a point. -/
def point : UInt8 := 0x2E

/-- The path of `relative` as seen from `base`. An absolute path stands for itself. -/
def join (base relative : Bytes) : Bytes :=
  if relative.head? = some separator then relative
  else if base.isEmpty || base.getLast? = some separator then base ++ relative
  else base ++ separator :: relative

/-- The components that lead somewhere: neither empty ones nor single points. -/
def steps (path : Bytes) : List Bytes :=
  (path.splitOn separator).filter fun component => !component.isEmpty && component != [point]

/-- The last name of a path, if it ends in one. -/
def fileName? (path : Bytes) : Option Bytes :=
  match (steps path).getLast? with
  | none => none
  | some last => if last = [point, point] then none else some last

end RawPath

/-- Bytes that can name an entry of a directory. -/
def isRawName (bytes : Bytes) : Bool :=
  !bytes.isEmpty && bytes != [RawPath.point] && bytes != [RawPath.point, RawPath.point] &&
    bytes.all fun byte => byte != RawPath.separator && byte != 0

/-- The name of an entry. -/
structure RawName where
  bytes : Bytes
  valid : isRawName bytes = true
  deriving DecidableEq, Repr

/-- Whether a name is written in UTF-8. -/
def RawName.IsText (name : RawName) : Prop := ∃ text, Text.toBytes text = name.bytes

/-- A file or a directory. -/
inductive RawEntry where
  | file (content : Bytes)
  | directory (entries : List (RawName × RawEntry))

/-- The entries of a directory. -/
abbrev RawEntries := List (RawName × RawEntry)

namespace RawEntry

mutual

/-- How deep directories are nested, files aside. -/
def height : RawEntry → Nat
  | .file _ => 0
  | .directory entries => heightBelow entries + 1

/-- The greatest height among entries. -/
def heightBelow : List (RawName × RawEntry) → Nat
  | [] => 0
  | (_, entry) :: entries => max entry.height (heightBelow entries)

end

theorem height_lt_of_lookup {entries : RawEntries} {name : RawName} {entry : RawEntry}
    (h : entries.lookup name = some entry) : entry.height < (directory entries).height := by
  have below : entry.height ≤ heightBelow entries := by
    induction entries with
    | nil => cases h
    | cons first later ih =>
      obtain ⟨firstName, first⟩ := first
      rw [List.lookup_cons] at h
      rw [heightBelow]
      split at h
      · cases h
        exact Nat.le_max_left ..
      · exact Nat.le_trans (ih h) (Nat.le_max_right ..)
  rw [height]
  omega

/-- The entry at the end of a chain of names. -/
def descend : RawEntry → List RawName → Except SystemFault RawEntry
  | entry, [] => .ok entry
  | .file _, _ :: _ => .error .notADirectory
  | .directory entries, name :: names =>
    match entries.lookup name with
    | none => .error .noSuchFile
    | some entry => entry.descend names

theorem descend_append (entry : RawEntry) (front back : List RawName) :
    entry.descend (front ++ back) = entry.descend front >>= fun found => found.descend back := by
  induction front generalizing entry with
  | nil => cases entry <;> rfl
  | cons name front ih =>
    cases entry with
    | file content => rfl
    | directory entries =>
      simp only [List.cons_append, descend]
      split
      · rfl
      · exact ih _

end RawEntry

/-- A directory by the path that was given for it, with what the system finds there. -/
structure RawDirectory where
  path : Bytes
  top : Except SystemFault RawEntry

/-- A place below the root of a directory: the names that lead to it. -/
abbrev RawNode := List RawName

namespace RawDirectory

variable (directory : RawDirectory)

/-- What is at a node. -/
def entry (node : RawNode) : Except SystemFault RawEntry := do (← directory.top).descend node

/-- The path of a node from the root. -/
def relativePath (node : RawNode) : Bytes :=
  node.foldl (fun path name => RawPath.join path name.bytes) []

/-- The bytes of the name of a node; the root has the name in which its path ends. -/
def nameBytes (node : RawNode) : Bytes :=
  match node.getLast? with
  | some name => name.bytes
  | none => (RawPath.fileName? directory.path).getD []

/-- The size of a file. One that is too long for a size has the greatest. -/
def fileSize (node : RawNode) : Int64 :=
  match directory.entry node with
  | .ok (.file content) => Int64.ofIntClamp content.length
  | _ => 0

/-- Whether a node is a directory. -/
def isDirectory (node : RawNode) : Bool :=
  match directory.entry node with
  | .ok (.directory _) => true
  | _ => false

/-- The node, if it is still there. -/
def stat (node : RawNode) : Except Fault RawNode :=
  match directory.entry node with
  | .ok _ => .ok node
  | .error fault => .error (.io (.system fault))

/-- The names of a directory in ascending order, each of them once. -/
def sortedNames (entries : RawEntries) : List RawName :=
  (entries.map (·.1)).eraseDups.mergeSort fun a b => !decide (b.bytes < a.bytes)

/-- The nodes in a directory, sorted by name. -/
def children (node : RawNode) : Except Fault (List RawNode) :=
  match directory.entry node with
  | .ok (.directory entries) => .ok ((sortedNames entries).map fun name => node ++ [name])
  | _ => .error (.notADirectory (Text.ofBytesLossy (relativePath node)))

/-- How deep directories are nested below a node. -/
def height (node : RawNode) : Nat :=
  match directory.entry node with
  | .ok entry => entry.height
  | .error _ => 0

theorem entry_append (node : RawNode) (name : RawName) :
    directory.entry (node ++ [name]) =
      directory.entry node >>= fun found => found.descend [name] := by
  unfold entry
  cases directory.top with
  | error fault => rfl
  | ok top => exact top.descend_append node [name]

theorem exists_of_children {node : RawNode} {nodes : List RawNode}
    (h : directory.children node = .ok nodes) : ∃ entries,
      directory.entry node = .ok (.directory entries) ∧
        nodes = (sortedNames entries).map fun name => node ++ [name] := by
  unfold children at h
  split at h
  · next entries here =>
    cases h
    exact ⟨entries, here, rfl⟩
  · cases h

theorem height_lt {node child : RawNode} {nodes : List RawNode}
    (h : directory.children node = .ok nodes) (member : child ∈ nodes) :
    directory.height child < directory.height node := by
  obtain ⟨entries, here, rfl⟩ := directory.exists_of_children h
  obtain ⟨name, -, rfl⟩ := List.mem_map.1 member
  have inside : directory.entry (node ++ [name]) = (RawEntry.directory entries).descend [name] := by
    rw [entry_append, here]
    rfl
  rw [height, height, inside, here, RawEntry.descend]
  cases found : entries.lookup name with
  | none => exact Nat.succ_pos _
  | some entry =>
    dsimp only
    rw [RawEntry.descend]
    exact RawEntry.height_lt_of_lookup found

/-- The tree below the directory. Its paths are shown as text. -/
def tree : DumpTree RawNode where
  root := []
  name node := Text.ofBytesLossy (directory.nameBytes node)
  path node := Text.ofBytesLossy (relativePath node)
  size := directory.fileSize
  isDirectory := directory.isDirectory
  stat := directory.stat
  children := directory.children
  parent := List.dropLast
  height := directory.height
  height_lt h member _ := directory.height_lt h member

end RawDirectory

end DumpCatalog
