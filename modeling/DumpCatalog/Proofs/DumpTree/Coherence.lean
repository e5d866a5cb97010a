import DumpCatalog.Proofs.Catalog.Listing
import DumpCatalog.Proofs.Disk.Files
import DumpCatalog.Proofs.Disk.TextNames

/-! # Moves agree with each other

A catalog makes up its nodes from keys, and a dump directory from the names on the way. In the trees
of both, a way down is undone by the way up, and paths are written by the names on the way
(`DumpTree.moves_agree`). A node of a dump directory is no more than what its path says
(`DumpDirectory.Spelled`): the directory that it is in, its name, and whether it is the same node
can all be told from the text of the path.

On disk a name may be bytes that are no text. Then a node still is what its path says
(`RawDirectory.Spelled`), but what is shown for such a name does not write the path
(`RawDirectory.Coherent`, `RawDirectory.not_coherent_brokenDump`). -/

namespace DumpCatalog

/-! ### Catalogs -/

namespace Catalog

variable {catalog : Catalog} {node : CatalogNode}

theorem Places.parent_eq_self_iff (places : catalog.Places node) :
    node.parent = node ↔ node = .root := by
  constructor
  · intro same
    cases places with
    | root => rfl
    | directory => exact same.symm
    | file _ inside =>
      have directory := CatalogNode.isDirectory_parent node
      rw [same, isDirectory_of_mem_nodes inside] at directory
      simp at directory
  · rintro rfl
    rfl

theorem Places.isRoot_iff (places : catalog.Places node) : node.isRoot = true ↔ node = .root := by
  constructor
  · intro empty
    obtain ⟨database, collection⟩ := (Bool.and_eq_true ..).mp empty
    cases places with
    | root => rfl
    | @directory name _ named =>
      have unnamed : name.isEmpty = true := database
      simp [unnamed] at named
    | file _ inside =>
      have file := isDirectory_of_mem_nodes inside
      rw [CatalogNode.isDirectory, collection] at file
      simp at file
  · rintro rfl
    rfl

theorem coherent_tree (h : catalog.Grouped) : catalog.tree.Coherent where
  parent_child node nodes child reached listed member :=
    ((places_of_reaches h reached).child h listed member).2
  path_child node nodes child reached listed member := by
    have above : child.parent = node := ((places_of_reaches h reached).child h listed member).2
    show child.path = Path.join node.path child.name
    rw [CatalogNode.path_eq_join, above]
  parent_eq_self_iff node reached := (places_of_reaches h reached).parent_eq_self_iff
  climbs node _ := ⟨2, CatalogNode.parent_parent node⟩

end Catalog

/-! ### Dump directories -/

namespace DumpDirectory

variable {directory : DumpDirectory}

theorem coherent_tree (directory : DumpDirectory) : directory.tree.Coherent where
  parent_child node nodes child _ listed member := by
    obtain rfl := eq_nodesIn_of_children listed
    obtain ⟨name, -, rfl⟩ := List.mem_map.mp member
    exact List.dropLast_concat
  path_child node nodes child _ listed member := by
    obtain rfl := eq_nodesIn_of_children listed
    obtain ⟨name, -, rfl⟩ := List.mem_map.mp member
    show relativePath (node ++ [name]) = Path.join (relativePath node) (directory.nodeName _)
    rw [relativePath_append, nodeName_append]
  parent_eq_self_iff node _ := dropLast_eq_self_iff
  climbs node _ := ⟨node.length, iterate_dropLast node⟩

/-- **A node is what its path says.** Nodes are the same when their paths have the same steps; the
path of the directory that a node is in has all of its steps but the last one; and the name of a
node is the one in which its path ends, or at the root that in which the path of the whole directory
ends. -/
structure Spelled (directory : DumpDirectory) : Prop where
  same_iff : ∀ node other, Path.steps (directory.tree.path node) =
    Path.steps (directory.tree.path other) ↔ node = other
  parent : ∀ node, Path.steps (directory.tree.path (directory.tree.parent node)) =
    (Path.steps (directory.tree.path node)).dropLast
  name : ∀ node, directory.tree.name node =
    ((Path.fileName? (directory.tree.path node)).or (Path.fileName? directory.path)).getD ""

theorem spelled (directory : DumpDirectory) : directory.Spelled where
  same_iff node other := by
    show Path.steps (relativePath node) = Path.steps (relativePath other) ↔ _
    rw [steps_relativePath, steps_relativePath]
    exact (List.map_injective_iff.mpr fun a b text => FileName.ext text).eq_iff
  parent node := by
    show Path.steps (relativePath node.dropLast) = (Path.steps (relativePath node)).dropLast
    rw [steps_relativePath, steps_relativePath, List.map_dropLast]
  name node := by
    show directory.nodeName node = ((Path.fileName? (relativePath node)).or _).getD ""
    rw [fileName?_relativePath, nodeName]
    cases node.getLast? with
    | none => rfl
    | some name => rfl

end DumpDirectory

/-! ### Directories with names of any bytes -/

/-- Whether the last name that leads to a node is text. -/
def RawNode.EndsInText (node : RawNode) : Prop := ∀ name ∈ node.getLast?, name.IsText

namespace RawDirectory

variable {directory : RawDirectory}

/-- **Moves agree with each other**, and the path of a node is written by the names that are shown on
the way exactly where that is `expected`. It is written by bytes then, and else it has other steps,
so that the system takes it for another path. -/
structure Coherent (directory : RawDirectory) (expected : RawNode → Prop) : Prop where
  parent_child : ∀ node nodes child, directory.tree.Reaches node →
    directory.tree.children node = .ok nodes → child ∈ nodes → directory.tree.parent child = node
  path_child : ∀ node nodes child, directory.tree.Reaches node →
    directory.tree.children node = .ok nodes → child ∈ nodes →
      (relativePath child =
        RawPath.join (relativePath node) (Text.toBytes (directory.tree.name child)) ↔
          expected child)
  steps_child : ∀ node nodes child, directory.tree.Reaches node →
    directory.tree.children node = .ok nodes → child ∈ nodes →
      (RawPath.steps (relativePath child) = RawPath.steps
        (RawPath.join (relativePath node) (Text.toBytes (directory.tree.name child))) ↔
          expected child)
  parent_eq_self_iff : ∀ node, directory.tree.Reaches node →
    (directory.tree.parent node = node ↔ node = directory.tree.root)
  climbs : ∀ node, directory.tree.Reaches node →
    ∃ n, directory.tree.parent^[n] node = directory.tree.root

theorem endsInText_append {node : RawNode} {name : RawName} :
    RawNode.EndsInText (node ++ [name]) ↔ name.IsText := by
  simp [RawNode.EndsInText]

theorem coherent (directory : RawDirectory) : directory.Coherent RawNode.EndsInText where
  parent_child node nodes child _ listed member := by
    obtain ⟨entries, -, rfl⟩ := directory.exists_of_children listed
    obtain ⟨name, -, rfl⟩ := List.mem_map.mp member
    exact List.dropLast_concat
  path_child node nodes child _ listed member := by
    obtain ⟨entries, -, rfl⟩ := directory.exists_of_children listed
    obtain ⟨name, -, rfl⟩ := List.mem_map.mp member
    show _ = RawPath.join _ (Text.toBytes (Text.ofBytesLossy (directory.nameBytes _))) ↔ _
    rw [relativePath_append, nameBytes_append, endsInText_append]
    constructor
    · exact fun same => (name.steps_join_shown_iff _).mp (congrArg RawPath.steps same)
    · exact fun text => by rw [Text.toBytes_ofBytesLossy_iff.mpr text]
  steps_child node nodes child _ listed member := by
    obtain ⟨entries, -, rfl⟩ := directory.exists_of_children listed
    obtain ⟨name, -, rfl⟩ := List.mem_map.mp member
    show _ = RawPath.steps (RawPath.join _ (Text.toBytes (Text.ofBytesLossy _))) ↔ _
    rw [relativePath_append, nameBytes_append, endsInText_append]
    exact name.steps_join_shown_iff _
  parent_eq_self_iff node _ := dropLast_eq_self_iff
  climbs node _ := ⟨node.length, iterate_dropLast node⟩

/-- **A node is what its path says**, whatever bytes the names are. -/
structure Spelled (directory : RawDirectory) : Prop where
  same_iff : ∀ node other : RawNode, RawPath.steps (relativePath node) =
    RawPath.steps (relativePath other) ↔ node = other
  parent : ∀ node, RawPath.steps (relativePath (directory.tree.parent node)) =
    (RawPath.steps (relativePath node)).dropLast
  name : ∀ node, directory.tree.name node = Text.ofBytesLossy
    (((RawPath.fileName? (relativePath node)).or (RawPath.fileName? directory.path)).getD [])

theorem spelled (directory : RawDirectory) : directory.Spelled where
  same_iff node other := by
    rw [steps_relativePath, steps_relativePath]
    refine (List.map_injective_iff.mpr fun name other same => ?_).eq_iff
    cases name
    cases other
    cases same
    rfl
  parent node := by
    show RawPath.steps (relativePath node.dropLast) = _
    rw [steps_relativePath, steps_relativePath, List.map_dropLast]
  name node := by
    show Text.ofBytesLossy (directory.nameBytes node) = _
    rw [fileName?_relativePath, nameBytes]
    cases node.getLast? with
    | none => rfl
    | some name => rfl

/-- A name that begins with a byte that no text has. -/
def brokenName : RawName := ⟨0xFF :: Text.toBytes ".bson", by decide⟩

/-- A directory with a file of this name. -/
def brokenDump : RawDirectory :=
  ⟨Text.toBytes "dump", .ok (.directory [(brokenName, .file [])])⟩

/-- So paths need not be written by the names that are shown on the way. -/
theorem not_coherent_brokenDump : ¬ brokenDump.Coherent fun _ => True := by
  intro coherent
  have alone : sortedNames [(brokenName, .file [])] = [brokenName] :=
    List.mergeSort_singleton brokenName
  have listed : brokenDump.tree.children [] = .ok [[brokenName]] :=
    congrArg (fun names : List RawName => Except.ok (names.map fun name => [name])) alone
  have same := (coherent.steps_child [] _ _ .refl listed (List.mem_singleton_self _)).mpr trivial
  exact absurd same (by decide)

end RawDirectory

namespace DumpTree

/-- **Moves agree in every catalog and in every directory.** In a catalog no node is more than two
steps below the root, and the root is told by its empty key. On disk a node is what its path says,
and the path is written by the names that are shown on the way where these are text. A dump
directory, where all are, is such a directory. -/
theorem moves_agree :
    (∀ header records,
      let catalog := Catalog.ofRecords header records
      catalog.tree.Coherent ∧ ∀ node, catalog.tree.Reaches node →
        (∃ n ≤ 2, catalog.tree.parent^[n] node = catalog.tree.root) ∧
          (node.isRoot = true ↔ node = catalog.tree.root)) ∧
    (∀ directory : RawDirectory, directory.Coherent RawNode.EndsInText ∧ directory.Spelled) ∧
    ∀ directory : DumpDirectory,
      directory.tree.Coherent ∧ directory.Spelled ∧ directory.Agrees := by
  refine ⟨fun header records => ?_, fun directory => ⟨directory.coherent, directory.spelled⟩,
    fun directory => ⟨directory.coherent_tree, directory.spelled, directory.agrees_raw⟩⟩
  have grouped := Catalog.grouped_ofRecords header records
  refine ⟨Catalog.coherent_tree grouped, fun node reached => ⟨?_, ?_⟩⟩
  · exact ⟨2, Nat.le_refl 2, CatalogNode.parent_parent node⟩
  · exact (Catalog.places_of_reaches grouped reached).isRoot_iff

end DumpTree

end DumpCatalog
