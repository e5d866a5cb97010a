import DumpCatalog.Proofs.Disk.Files
import DumpCatalog.Proofs.Disk.Paths
import DumpCatalog.Proofs.Plan.Accounting

/-! # What becomes of the files of a dump directory

The tree of every dump directory is orderly (`DumpDirectory.orderly_tree`), and what a walk over it
takes are the files that count. So every file of a directory is kept or reported as long as no two
of those that count share a namespace without sharing a collection
(`DumpDirectory.keepsAll_iff_files`). In the directory `sharedName` two files do, and one of them is
lost without a word. -/

namespace DumpCatalog

namespace DumpDirectory

variable {directory : DumpDirectory}

/-! ### Visits of a directory -/

theorem visits_atTop_iff {node : DiskNode} :
    directory.tree.Visits [] ⟨none, node⟩ ↔ node ∈ directory.nodesIn [] := by
  constructor
  · rintro (⟨listed, member⟩ | _)
    rw [eq_nodesIn_of_children listed] at member
    exact member
  · intro member
    obtain ⟨name, inside, -⟩ := List.mem_map.mp member
    exact .atTop (children_eq (isDirectory_of_mem_namesIn inside)) member

theorem visits_iff {visit : Visit DiskNode} :
    directory.tree.Visits [] visit ↔
      (∃ name ∈ directory.namesIn [], visit = ⟨none, [name]⟩) ∨
      ∃ outer, ∃ name ∈ directory.namesIn [outer], visit = ⟨some [outer], [outer, name]⟩ := by
  constructor
  · intro visited
    obtain ⟨place, node⟩ := visit
    cases place with
    | none =>
      obtain ⟨name, member, rfl⟩ := List.mem_map.mp (visits_atTop_iff.mp visited)
      exact .inl ⟨name, member, rfl⟩
    | some place =>
      cases visited with
      | inDirectory above isDir listed member =>
        obtain ⟨outer, -, rfl⟩ := List.mem_map.mp (visits_atTop_iff.mp above)
        rw [eq_nodesIn_of_children listed] at member
        obtain ⟨name, inside, rfl⟩ := List.mem_map.mp member
        exact .inr ⟨outer, name, inside, rfl⟩
  · rintro (⟨name, member, rfl⟩ | ⟨outer, name, member, rfl⟩)
    · exact visits_atTop_iff.mpr (List.mem_map_of_mem member)
    · have isDir := isDirectory_of_mem_namesIn member
      obtain ⟨entries, here⟩ := isDirectory_eq_true_iff.mp isDir
      have known : outer ∈ directory.namesIn [] := mem_namesIn.mpr ⟨_, here⟩
      exact .inDirectory (visits_atTop_iff.mpr (List.mem_map_of_mem known)) isDir
        (children_eq isDir) (List.mem_map_of_mem member)

theorem exists_name_of_visits {place : Option DiskNode} {node : DiskNode}
    (h : directory.tree.Visits [] ⟨place, node⟩) : ∃ name, node = place.getD [] ++ [name] := by
  rcases visits_iff.mp h with ⟨name, -, same⟩ | ⟨outer, name, -, same⟩
  · cases same
    exact ⟨name, rfl⟩
  · cases same
    exact ⟨name, rfl⟩

theorem pathsApart_tree (directory : DumpDirectory) : directory.tree.PathsApart [] := by
  intro visit other visited visited' same
  have below {visit : Visit DiskNode} (h : directory.tree.Visits [] visit) : visit.node ≠ [] := by
    obtain ⟨name, node⟩ := exists_name_of_visits h
    simp [node]
  have node : visit.node = other.node := relativePath_inj (below visited) (below visited') same
  rcases visits_iff.mp visited with ⟨name, -, rfl⟩ | ⟨outer, name, -, rfl⟩
  · rcases visits_iff.mp visited' with ⟨name', -, rfl⟩ | ⟨outer', name', -, rfl⟩
    · exact congrArg (Visit.mk none) node
    · simp at node
  · rcases visits_iff.mp visited' with ⟨name', -, rfl⟩ | ⟨outer', name', -, rfl⟩
    · simp at node
    · obtain ⟨rfl, rfl⟩ : outer = outer' ∧ name = name' := by simpa using node
      rfl

/-- **Every dump directory is orderly.** -/
theorem orderly_tree (directory : DumpDirectory) : directory.tree.Orderly [] := by
  have text (node : DiskNode) (name : FileName) :
      directory.tree.name (node ++ [name]) = name.text := directory.nodeName_append node name
  refine ⟨fun place node other visited visited' same => ?_, fun node visited _ => ?_,
    directory.pathsApart_tree⟩
  · obtain ⟨name, rfl⟩ := exists_name_of_visits visited
    obtain ⟨name', rfl⟩ := exists_name_of_visits visited'
    rw [text, text] at same
    rw [FileName.ext same]
  · obtain ⟨name, rfl⟩ := exists_name_of_visits visited
    rw [text]
    exact name.text_ne_empty

/-! ### What is taken of a directory -/

theorem exists_content {node : DiskNode} {found : Entry} (here : directory.entry node = .ok found)
    (isFile : directory.isDirectory node = false) :
    ∃ content, directory.entry node = .ok (.file content) := by
  cases found with
  | file content => exact ⟨content, here⟩
  | directory entries =>
    rw [isDirectory_eq_true_iff.mpr ⟨entries, here⟩] at isFile
    simp at isFile

theorem exists_takes_iff {database collection : String} :
    (∃ file, directory.tree.Takes [] file ∧
        directory.tree.databaseOf file.toVisit = database ∧ file.collection = collection) ↔
      ∃ file ∈ directory.files, file.database = database ∧ file.collection = collection := by
  constructor
  · rintro ⟨⟨visit, collection, kind⟩, takes, rfl, rfl⟩
    have isFile : directory.isDirectory visit.node = false := takes.isFile
    rcases visits_iff.mp takes.visits with ⟨name, member, same⟩ | ⟨outer, name, member, same⟩
    · obtain rfl : visit = _ := same
      obtain rfl : collection = _ := takes.oplog rfl
      obtain ⟨found, here⟩ := mem_namesIn.mp member
      obtain ⟨content, here⟩ := exists_content here isFile
      exact ⟨_, mem_files_iff.mpr (.oplog here takes.named), rfl, rfl⟩
    · obtain rfl : visit = _ := same
      obtain ⟨found, here⟩ := mem_namesIn.mp member
      obtain ⟨content, here⟩ := exists_content here isFile
      exact ⟨_, mem_files_iff.mpr (.inDatabase here takes.named takes.full), rfl, rfl⟩
  · rintro ⟨file, member, rfl, rfl⟩
    cases mem_files_iff.mp member with
    | @inDatabase outer name collection kind content here named full =>
      have visited := visits_iff.mpr (.inr ⟨outer, name, mem_namesIn.mpr ⟨_, here⟩, rfl⟩)
      have isFile : directory.isDirectory [outer, name] = false := by rw [isDirectory, here]
      exact ⟨⟨⟨some [outer], [outer, name]⟩, collection, kind⟩,
        ⟨visited, isFile, named, full, fun top => (by simp at top)⟩, rfl, rfl⟩
    | @oplog name kind content here named =>
      have visited := visits_iff.mpr (.inl ⟨name, mem_namesIn.mpr ⟨_, here⟩, rfl⟩)
      have full : Intent.oplogCollection ≠ "" := by decide
      have isFile : directory.isDirectory [name] = false := by rw [isDirectory, here]
      exact ⟨⟨⟨none, [name]⟩, _, kind⟩, ⟨visited, isFile, named, full, fun _ => rfl⟩, rfl, rfl⟩

theorem namesApart_iff : directory.tree.NamesApart [] ↔
    ∀ file ∈ directory.files, ∀ other ∈ directory.files, file.fullName = other.fullName →
      file.database = other.database ∧ file.collection = other.collection := by
  constructor
  · intro apart file member other member' same
    obtain ⟨found, takes, database, collection⟩ := exists_takes_iff.mpr ⟨file, member, rfl, rfl⟩
    obtain ⟨found', takes', database', collection'⟩ :=
      exists_takes_iff.mpr ⟨other, member', rfl, rfl⟩
    rw [← database, ← collection, ← database', ← collection']
    refine apart found found' takes takes' ?_
    rw [DumpTree.fullName, DumpTree.fullName, database, collection, database', collection']
    exact same
  · intro apart file other takes takes' same
    obtain ⟨found, member, database, collection⟩ := exists_takes_iff.mp ⟨file, takes, rfl, rfl⟩
    obtain ⟨found', member', database', collection'⟩ :=
      exists_takes_iff.mp ⟨other, takes', rfl, rfl⟩
    rw [← database, ← collection, ← database', ← collection']
    refine apart found member found' member' ?_
    rw [DumpFile.fullName, DumpFile.fullName, database, collection, database', collection']
    exact same

/-- **What a walk over a directory keeps.** Every file at the top level and in the directories there
is kept or reported, exactly when files that count and share a namespace share a collection. -/
theorem keepsAll_iff_files {events : List Event} {plan : Plan}
    (made : directory.tree.plan = ⟨events, .ok plan⟩) :
    directory.tree.KeepsAll [] events plan ↔
      ∀ file ∈ directory.files, ∀ other ∈ directory.files, file.fullName = other.fullName →
        file.database = other.database ∧ file.collection = other.collection := by
  have orderly := directory.orderly_tree
  rw [← namesApart_iff, ← orderly.unmixed_iff]
  exact ⟨DumpTree.unmixed_of_keepsAll made orderly.paths, DumpTree.keepsAll_of_unmixed made⟩

/-! ### Two directories -/

/-- The plan of the directory with two databases. -/
def planOfTwoShops : Plan :=
  ⟨[⟨"shop", "orders", some "shop/orders.bson", some "shop/orders.metadata.json", 3, none⟩,
    ⟨"yard", "orders", some "yard/orders.bson", none, 5, none⟩]⟩

/-- The two files of `orders` in `shop` share a collection, and the one in `yard` shares a namespace
with neither of them. All three are kept. -/
theorem keepsAll_twoShops : twoShops.tree.Orderly [] ∧ twoShops.tree.NamesApart [] ∧
    ∃ events, twoShops.tree.planFrom [] = ⟨events, .ok planOfTwoShops⟩ ∧
      twoShops.tree.KeepsAll [] events planOfTwoShops := by
  have ends : (twoShops.tree.planFrom []).outcome = .ok planOfTwoShops := by
    refine (@outcome_plan twoShops rfl).trans ?_
    rw [files_twoShops]
    decide +kernel
  have made := Logged.eq_of_outcome ends
  have orderly := twoShops.orderly_tree
  have apart : twoShops.tree.NamesApart [] := by
    rw [namesApart_iff, files_twoShops]
    decide
  exact ⟨orderly, apart, _, made, ((DumpTree.keepsAll_iff made).2 orderly).mpr apart⟩

/-- A directory with two files, `b.c.bson` of database `a` and `c.bson` of database `a.b`. -/
def sharedName : DumpDirectory :=
  ⟨⟨[(⟨"backup", by decide⟩, .directory
    [(⟨"a", by decide⟩, .directory [(⟨"b.c.bson", by decide⟩, .file [0, 0, 0])]),
      (⟨"a.b", by decide⟩, .directory [(⟨"c.bson", by decide⟩, .file [0, 0, 0, 0, 0])])])], []⟩,
    "backup"⟩

theorem files_sharedName : sharedName.files =
    [⟨[⟨"a", by decide⟩, ⟨"b.c.bson", by decide⟩], "a", "b.c", .data, [0, 0, 0]⟩,
      ⟨[⟨"a.b", by decide⟩, ⟨"c.bson", by decide⟩], "a.b", "c", .data, [0, 0, 0, 0, 0]⟩] := by
  have outer : sharedName.entry [] = .ok (.directory _) := rfl
  have inFirst : sharedName.entry [⟨"a", by decide⟩] = .ok (.directory _) := rfl
  have inSecond : sharedName.entry [⟨"a.b", by decide⟩] = .ok (.directory _) := rfl
  have top : sharedName.namesIn [] = [⟨"a", by decide⟩, ⟨"a.b", by decide⟩] :=
    namesIn_of_pairwise outer (by decide)
  have first : sharedName.namesIn [⟨"a", by decide⟩] = [⟨"b.c.bson", by decide⟩] :=
    namesIn_of_pairwise inFirst (by decide)
  have second : sharedName.namesIn [⟨"a.b", by decide⟩] = [⟨"c.bson", by decide⟩] :=
    namesIn_of_pairwise inSecond (by decide)
  rw [files, nodesIn, top, List.map_cons, List.map_singleton, List.flatMap_cons,
    List.flatMap_singleton, List.nil_append, List.nil_append, filesAtTop_of_isDirectory rfl,
    filesAtTop_of_isDirectory rfl, first, second]
  rfl

/-- One intent is made of the two files, with the names of the first and the data of the second. So
the first file is in no intent, and no intent is for the database of the second, but they are not
reported. -/
theorem not_keepsAll_sharedName : sharedName.tree.Orderly [] ∧
    ∃ events, sharedName.tree.planFrom [] =
        ⟨events, .ok ⟨[⟨"a", "b.c", some "a.b/c.bson", none, 5, none⟩]⟩⟩ ∧
      ¬ sharedName.tree.KeepsAll [] events
        ⟨[⟨"a", "b.c", some "a.b/c.bson", none, 5, none⟩]⟩ := by
  have ends : (sharedName.tree.planFrom []).outcome =
      .ok ⟨[⟨"a", "b.c", some "a.b/c.bson", none, 5, none⟩]⟩ := by
    refine (@outcome_plan sharedName rfl).trans ?_
    rw [files_sharedName]
    decide +kernel
  have made := Logged.eq_of_outcome ends
  refine ⟨sharedName.orderly_tree, _, made, ?_⟩
  rw [keepsAll_iff_files made, files_sharedName]
  decide

end DumpDirectory

end DumpCatalog
