import DumpCatalog.Disk.DumpTree
import DumpCatalog.Proofs.Plan.Discovery
import DumpCatalog.Proofs.Text.Order

/-! # The files of a dump directory that count

Most of what may lie below a directory is passed over: `DumpDirectory.Recognised` says which files
count. `DumpDirectory.files` lists them (`mem_files_iff`), in the order of the bytes of the names
that lead to them (`pairwise_files`), and the plan of the directory is made of their intents in that
order (`outcome_plan`). -/

namespace DumpCatalog

/-- A file of a dump directory that counts: the names that lead to it, the names of its collection,
and what it holds. -/
structure DumpFile where
  place : DiskNode
  database : String
  collection : String
  kind : FileKind
  content : Bytes

namespace DumpFile

/-- The printed name of the collection. -/
def fullName (file : DumpFile) : String := namespaceOf file.database file.collection

/-- The names that lead to the file, as bytes. -/
def placeBytes (file : DumpFile) : List Bytes := file.place.map fun name => Text.toBytes name.text

/-- The intent of the file. -/
def intent (file : DumpFile) : Intent :=
  file.kind.intent file.database file.collection (DumpDirectory.relativePath file.place)
    (Int64.ofIntClamp file.content.length)

end DumpFile

namespace DumpDirectory

variable {directory : DumpDirectory}

/-! ### Names in a directory -/

theorem nodup_sortedNames (entries : Entries) : (sortedNames entries).Nodup :=
  (List.mergeSort_perm _ _).nodup_iff.mpr (nodup_eraseDups _)

theorem pairwise_sortedNames (entries : Entries) :
    (sortedNames entries).Pairwise fun a b => Text.toBytes a.text < Text.toBytes b.text := by
  have sorted : (sortedNames entries).Pairwise fun a b => a.text ≤ b.text := by
    have ascending := @List.pairwise_mergeSort FileName (fun a b => decide (a.text ≤ b.text))
      (fun a b c => by simpa using String.le_trans)
      (fun a b => by simpa using String.le_total a.text b.text) (entries.map (·.1)).eraseDups
    exact ascending.imp fun le => of_decide_eq_true le
  refine (sorted.and (nodup_sortedNames entries)).imp fun {a b} ⟨le, ne⟩ => ?_
  rw [Text.toBytes_lt_iff]
  exact Std.lt_of_le_of_ne le fun same => ne (FileName.ext same)

theorem sortedNames_of_pairwise {entries : Entries}
    (ascending : entries.Pairwise fun a b => a.1.text < b.1.text) :
    sortedNames entries = entries.map (·.1) := by
  have sorted : (entries.map (·.1)).Pairwise fun a b => a.text < b.text :=
    List.pairwise_map.mpr ascending
  have distinct : (entries.map (·.1)).Nodup := by
    refine sorted.imp fun less same => ?_
    rw [same] at less
    exact absurd less (String.lt_irrefl _)
  rw [sortedNames, eraseDups_of_nodup distinct]
  refine List.mergeSort_of_pairwise (sorted.imp fun less => ?_)
  simpa using Std.le_of_lt less

theorem mem_sortedNames {entries : Entries} {name : FileName} :
    name ∈ sortedNames entries ↔ ∃ entry, Entries.get? entries name.text = some (name, entry) := by
  rw [sortedNames, List.mem_mergeSort, List.mem_eraseDups]
  constructor
  · intro member
    have there := Entries.isSome_get?_iff.mpr ⟨name, member, rfl⟩
    obtain ⟨⟨first, entry⟩, found⟩ := Option.isSome_iff_exists.mp there
    obtain rfl : first = name := FileName.ext (Entries.text_of_get? found)
    exact ⟨entry, found⟩
  · rintro ⟨entry, found⟩
    exact List.mem_map.mpr ⟨(name, entry), List.mem_of_find?_eq_some found, rfl⟩

/-! ### Nodes in a directory -/

theorem entry_nil : directory.entry [] = directory.top := by
  unfold entry
  cases directory.top with
  | error fault => rfl
  | ok top => cases top <;> rfl

theorem isDirectory_eq_true_iff {node : DiskNode} :
    directory.isDirectory node = true ↔
      ∃ entries, directory.entry node = .ok (.directory entries) := by
  unfold isDirectory
  split
  · next entries here => exact ⟨fun _ => ⟨entries, here⟩, fun _ => rfl⟩
  · next other =>
    refine ⟨fun h => (by simp at h), ?_⟩
    rintro ⟨entries, here⟩
    exact absurd here (other entries)

/-- The names in the directory at a node, and none at any other node. -/
def namesIn (directory : DumpDirectory) (node : DiskNode) : List FileName :=
  match directory.entry node with
  | .ok (.directory entries) => sortedNames entries
  | _ => []

/-- The nodes in the directory at a node, and none at any other node. -/
def nodesIn (directory : DumpDirectory) (node : DiskNode) : List DiskNode :=
  (directory.namesIn node).map fun name => node ++ [name]

theorem children_eq {node : DiskNode} (h : directory.isDirectory node = true) :
    directory.children node = .ok (directory.nodesIn node) := by
  obtain ⟨entries, here⟩ := isDirectory_eq_true_iff.mp h
  rw [children, nodesIn, namesIn, here]

theorem children_eq_error {node : DiskNode} (h : directory.isDirectory node = false) :
    directory.children node = .error (.notADirectory (relativePath node)) := by
  unfold children
  split
  · next entries here =>
    rw [isDirectory_eq_true_iff.mpr ⟨entries, here⟩] at h
    simp at h
  · rfl

theorem eq_nodesIn_of_children {node : DiskNode} {nodes : List DiskNode}
    (listed : directory.children node = .ok nodes) : nodes = directory.nodesIn node := by
  cases isDir : directory.isDirectory node with
  | true =>
    rw [children_eq isDir] at listed
    exact (Except.ok.inj listed).symm
  | false =>
    rw [children_eq_error isDir] at listed
    simp at listed

theorem namesIn_of_pairwise {node : DiskNode} {entries : Entries}
    (here : directory.entry node = .ok (.directory entries))
    (ascending : entries.Pairwise fun a b => a.1.text < b.1.text) :
    directory.namesIn node = entries.map (·.1) := by
  rw [namesIn, here]
  exact sortedNames_of_pairwise ascending

theorem pairwise_namesIn (node : DiskNode) :
    (directory.namesIn node).Pairwise fun a b => Text.toBytes a.text < Text.toBytes b.text := by
  unfold namesIn
  split
  · exact pairwise_sortedNames _
  · exact .nil

theorem mem_namesIn {node : DiskNode} {name : FileName} :
    name ∈ directory.namesIn node ↔ ∃ found, directory.entry (node ++ [name]) = .ok found := by
  rw [entry_append, namesIn]
  constructor
  · intro member
    split at member
    · next entries here =>
      obtain ⟨entry, found⟩ := mem_sortedNames.mp member
      refine ⟨entry, ?_⟩
      rw [here]
      simp [bind, Except.bind, Entry.descend, found]
    · simp at member
  · rintro ⟨found, there⟩
    cases here : directory.entry node with
    | error fault =>
      rw [here] at there
      cases there
    | ok entry =>
      rw [here] at there
      cases entry with
      | file content => cases there
      | directory entries =>
        have there : (Entry.directory entries).descend [name.text] = .ok found := there
        rw [Entry.descend] at there
        split at there
        · simp at there
        · next other entry known =>
          obtain rfl : other = name := FileName.ext (Entries.text_of_get? known)
          exact mem_sortedNames.mpr ⟨entry, known⟩

theorem isDirectory_of_mem_namesIn {node : DiskNode} {name : FileName}
    (h : name ∈ directory.namesIn node) : directory.isDirectory node = true := by
  unfold namesIn at h
  split at h
  · next entries here => exact isDirectory_eq_true_iff.mpr ⟨entries, here⟩
  · simp at h

/-! ### Files that count -/

/-- **Which files count**: files with a known ending and something before it in a directory at the
top level, and the files of the log of operations at the top level itself. -/
inductive Recognised (directory : DumpDirectory) : DumpFile → Prop
  | inDatabase {database name : FileName} {collection : String} {kind : FileKind} {content : Bytes}
      (here : directory.entry [database, name] = .ok (.file content))
      (named : name.text = collection ++ kind.suffix) (full : collection ≠ "") :
      directory.Recognised ⟨[database, name], database.text, collection, kind, content⟩
  | oplog {name : FileName} {kind : FileKind} {content : Bytes}
      (here : directory.entry [name] = .ok (.file content))
      (named : name.text = Intent.oplogCollection ++ kind.suffix) :
      directory.Recognised ⟨[name], "", Intent.oplogCollection, kind, content⟩

/-- The file at a node of a database, by its name. -/
def fileAt? (directory : DumpDirectory) (database : String) (node : DiskNode) : Option DumpFile :=
  match directory.entry node with
  | .ok (.file content) =>
    match FileKind.ofName? (directory.nodeName node) with
    | none => none
    | some (collection, kind) =>
      if collection.isEmpty then none else some ⟨node, database, collection, kind, content⟩
  | _ => none

/-- The files that count at a node of the top level. -/
def filesAtTop (directory : DumpDirectory) (node : DiskNode) : List DumpFile :=
  if directory.isDirectory node then
    (directory.nodesIn node).filterMap (directory.fileAt? (directory.nodeName node))
  else ((directory.fileAt? "" node).filter fun file => file.intent.isOplog).toList

/-- The files that count, in the order in which they are discovered. -/
def files (directory : DumpDirectory) : List DumpFile :=
  (directory.nodesIn []).flatMap directory.filesAtTop

theorem nodeName_append (node : DiskNode) (name : FileName) :
    directory.nodeName (node ++ [name]) = name.text := by
  rw [nodeName, List.getLast?_concat]

theorem fileAt?_eq_some_iff {database : String} {node : DiskNode} {name : FileName}
    {file : DumpFile} :
    directory.fileAt? database (node ++ [name]) = some file ↔
      ∃ collection kind content, directory.entry (node ++ [name]) = .ok (.file content) ∧
        name.text = collection ++ kind.suffix ∧ collection ≠ "" ∧
        file = ⟨node ++ [name], database, collection, kind, content⟩ := by
  rw [fileAt?, nodeName_append]
  constructor
  · intro h
    split at h
    · next content here =>
      split at h
      · simp at h
      · next collection kind named =>
        split at h
        · simp at h
        · next full =>
          cases h
          exact ⟨collection, kind, content, here, FileKind.ofName?_eq_some_iff.mp named,
            fun empty => full (by rw [empty]; rfl), rfl⟩
    · simp at h
  · rintro ⟨collection, kind, content, here, named, full, rfl⟩
    have nonempty : collection.isEmpty = false := by simpa using full
    simp only [here, FileKind.ofName?_eq_some_iff.mpr named, nonempty, Bool.false_eq_true,
      if_false]

/-- The files at a name of the top level: those in a directory, or a file of the log of
operations. -/
theorem mem_filesAtTop_iff {name : FileName} {file : DumpFile} :
    file ∈ directory.filesAtTop [name] ↔
      (directory.isDirectory [name] = true ∧ ∃ inner ∈ directory.namesIn [name],
        directory.fileAt? name.text ([name] ++ [inner]) = some file) ∨
      (directory.isDirectory [name] = false ∧ directory.fileAt? "" ([] ++ [name]) = some file ∧
        file.database = "" ∧ file.collection = Intent.oplogCollection) := by
  have same : directory.nodeName [name] = name.text := nodeName_append [] name
  rw [filesAtTop, same]
  by_cases isDir : directory.isDirectory [name] = true
  · rw [if_pos isDir, List.mem_filterMap, nodesIn]
    simp [isDir]
  · rw [if_neg isDir, Option.mem_toList, Option.filter_eq_some_iff, Intent.isOplog_iff]
    simp [isDir, DumpFile.intent]

/-- **The list has exactly the files that count.** -/
theorem mem_files_iff {file : DumpFile} : file ∈ directory.files ↔ directory.Recognised file := by
  rw [files, List.mem_flatMap]
  constructor
  · rintro ⟨node, top, member⟩
    obtain ⟨name, -, rfl⟩ := List.mem_map.mp top
    rcases mem_filesAtTop_iff.mp member with ⟨-, inner, -, found⟩ | ⟨-, found, -, oplog⟩
    · obtain ⟨collection, kind, content, here, named, full, rfl⟩ := fileAt?_eq_some_iff.mp found
      exact .inDatabase here named full
    · obtain ⟨collection, kind, content, here, named, full, rfl⟩ := fileAt?_eq_some_iff.mp found
      have same : collection = Intent.oplogCollection := oplog
      subst same
      exact .oplog here named
  · intro recognised
    cases recognised with
    | @inDatabase database name collection kind content here named full =>
      have inner : name ∈ directory.namesIn [database] := mem_namesIn.mpr ⟨_, here⟩
      have isDir := isDirectory_of_mem_namesIn inner
      obtain ⟨entries, there⟩ := isDirectory_eq_true_iff.mp isDir
      have outer : database ∈ directory.namesIn [] := mem_namesIn.mpr ⟨_, there⟩
      have found : directory.fileAt? database.text ([database] ++ [name]) = some _ :=
        fileAt?_eq_some_iff.mpr ⟨collection, kind, content, here, named, full, rfl⟩
      exact ⟨[database], List.mem_map_of_mem outer,
        mem_filesAtTop_iff.mpr (.inl ⟨isDir, name, inner, found⟩)⟩
    | @oplog name kind content here named =>
      have outer : name ∈ directory.namesIn [] := mem_namesIn.mpr ⟨_, here⟩
      have isFile : directory.isDirectory [name] = false := by
        rw [isDirectory, here]
      have found : directory.fileAt? "" ([] ++ [name]) = some _ :=
        fileAt?_eq_some_iff.mpr ⟨_, kind, content, here, named, by decide, rfl⟩
      exact ⟨[name], List.mem_map_of_mem outer,
        mem_filesAtTop_iff.mpr (.inr ⟨isFile, found, rfl, rfl⟩)⟩

theorem filesAtTop_of_isDirectory {outer : FileName}
    (isDir : directory.isDirectory [outer] = true) :
    directory.filesAtTop [outer] = (directory.namesIn [outer]).filterMap fun inner =>
      directory.fileAt? outer.text [outer, inner] := by
  have name : directory.nodeName [outer] = outer.text := nodeName_append [] outer
  rw [filesAtTop, if_pos isDir, nodesIn, name, List.filterMap_map]
  rfl

/-! ### The order of discovery -/

theorem place_of_fileAt? {database : String} {node : DiskNode} {file : DumpFile}
    (h : directory.fileAt? database node = some file) : file.place = node := by
  unfold fileAt? at h
  split at h
  · split at h
    · simp at h
    · split at h
      · simp at h
      · cases h
        rfl
  · simp at h

theorem place_of_mem_filesAtTop {name : FileName} {file : DumpFile}
    (h : file ∈ directory.filesAtTop [name]) : ∃ later, file.place = name :: later := by
  rcases mem_filesAtTop_iff.mp h with ⟨-, inner, -, found⟩ | ⟨-, found, -⟩
  · exact ⟨[inner], place_of_fileAt? found⟩
  · exact ⟨[], place_of_fileAt? found⟩

/-- **The files stand in the order of the bytes of their names**: those at the top level, and those
in each directory there. -/
theorem pairwise_files (directory : DumpDirectory) :
    directory.files.Pairwise fun a b => a.placeBytes < b.placeBytes := by
  rw [files, nodesIn, List.flatMap_map, List.pairwise_flatMap]
  constructor
  · intro name top
    rw [filesAtTop]
    split
    · rw [nodesIn, List.filterMap_map, List.pairwise_filterMap]
      refine (pairwise_namesIn _).imp fun less file found file' found' => ?_
      have place := place_of_fileAt? found
      have place' := place_of_fileAt? found'
      rw [DumpFile.placeBytes, DumpFile.placeBytes, place, place', List.map_append, List.map_append]
      exact List.append_left_lt (List.cons_lt_cons_iff.mpr (.inl less))
    · cases (directory.fileAt? "" ([] ++ [name])).filter fun file => file.intent.isOplog with
      | none => exact .nil
      | some file => exact List.pairwise_singleton _ _
  · refine (pairwise_namesIn []).imp fun less file member file' member' => ?_
    obtain ⟨later, place⟩ := place_of_mem_filesAtTop member
    obtain ⟨later', place'⟩ := place_of_mem_filesAtTop member'
    rw [DumpFile.placeBytes, DumpFile.placeBytes, place, place']
    exact List.cons_lt_cons_iff.mpr (.inl less)

/-! ### The plan of a directory -/

theorem intentOf?_eq {database : String} {node : DiskNode} {content : Bytes}
    (here : directory.entry node = .ok (.file content)) :
    directory.tree.intentOf? database node =
      (directory.fileAt? database node).map DumpFile.intent := by
  have size : directory.tree.size node = Int64.ofIntClamp content.length := by
    show directory.fileSize node = _
    rw [fileSize, here]
  have name : directory.tree.name node = directory.nodeName node := rfl
  rw [DumpTree.intentOf?, fileAt?, here, name]
  dsimp only
  cases FileKind.ofName? (directory.nodeName node) with
  | none => rfl
  | some named =>
    obtain ⟨collection, kind⟩ := named
    dsimp only
    split
    · rfl
    · cases kind with
      | data =>
        rw [size]
        rfl
      | metadata => rfl

theorem foundIn_eq {database : String} {node : DiskNode} {found : Entry}
    (here : directory.entry node = .ok found) :
    directory.tree.foundIn database node =
      ((directory.fileAt? database node).map DumpFile.intent).toList := by
  have isDir : directory.tree.isDirectory node = directory.isDirectory node := rfl
  rw [DumpTree.foundIn, isDir]
  cases found with
  | file content =>
    rw [isDirectory, here, intentOf?_eq here]
    rfl
  | directory entries =>
    rw [isDirectory, fileAt?, here]
    rfl

theorem foundAtTop_eq {node : DiskNode} (top : node ∈ directory.nodesIn []) :
    directory.tree.foundAtTop directory.nodesIn node =
      (directory.filesAtTop node).map DumpFile.intent := by
  have name : directory.tree.name node = directory.nodeName node := rfl
  have isDir : directory.tree.isDirectory node = directory.isDirectory node := rfl
  rw [DumpTree.foundAtTop, filesAtTop, isDir, name]
  split
  · rw [List.map_filterMap, List.filterMap_eq_flatMap_toList]
    refine List.flatMap_congr fun inner inside => ?_
    obtain ⟨name, member, rfl⟩ := List.mem_map.mp inside
    obtain ⟨found, here⟩ := mem_namesIn.mp member
    exact foundIn_eq here
  · next noDirectory =>
    obtain ⟨first, member, rfl⟩ := List.mem_map.mp top
    obtain ⟨found, here⟩ := mem_namesIn.mp member
    cases found with
    | directory entries => exact absurd (isDirectory_eq_true_iff.mpr ⟨entries, here⟩) noDirectory
    | file content =>
      rw [intentOf?_eq here]
      cases directory.fileAt? "" ([] ++ [first]) with
      | none => rfl
      | some file =>
        simp only [Option.map_some, Option.filter_some]
        split
        · rfl
        · rfl

/-- **The plan of a directory is made of the intents of its files**, in the order in which they are
discovered. -/
theorem outcome_plan (h : directory.isDirectory [] = true) :
    directory.tree.plan.outcome = .ok (Plan.ofIntents (directory.files.map DumpFile.intent)) := by
  have walk := directory.tree.outcome_planFrom directory.nodesIn (children_eq h)
    fun child _ isDir => children_eq isDir
  rw [files, List.map_flatMap]
  refine Eq.trans walk ?_
  congr 2
  exact List.flatMap_congr fun node member => foundAtTop_eq member

theorem outcome_plan_of_not (h : directory.isDirectory [] = false) :
    directory.tree.plan.outcome = .error (.notADirectory "") :=
  directory.tree.outcome_planFrom_of_error (children_eq_error h)

/-! ### A directory with two databases -/

/-- A directory with both files of `orders` in database `shop`, and one in database `yard`. -/
def twoShops : DumpDirectory :=
  ⟨⟨[(⟨"trade", by decide⟩, .directory
    [(⟨"shop", by decide⟩, .directory
      [(⟨"orders.bson", by decide⟩, .file [0, 0, 0]),
        (⟨"orders.metadata.json", by decide⟩, .file (Text.toBytes "\x7b\x7d"))]),
      (⟨"yard", by decide⟩, .directory [(⟨"orders.bson", by decide⟩, .file [0, 0, 0, 0, 0])])])],
    []⟩, "trade"⟩

theorem files_twoShops : twoShops.files =
    [⟨[⟨"shop", by decide⟩, ⟨"orders.bson", by decide⟩], "shop", "orders", .data, [0, 0, 0]⟩,
      ⟨[⟨"shop", by decide⟩, ⟨"orders.metadata.json", by decide⟩], "shop", "orders", .metadata,
        Text.toBytes "\x7b\x7d"⟩,
      ⟨[⟨"yard", by decide⟩, ⟨"orders.bson", by decide⟩], "yard", "orders", .data,
        [0, 0, 0, 0, 0]⟩] := by
  have outer : twoShops.entry [] = .ok (.directory _) := rfl
  have inShop : twoShops.entry [⟨"shop", by decide⟩] = .ok (.directory _) := rfl
  have inYard : twoShops.entry [⟨"yard", by decide⟩] = .ok (.directory _) := rfl
  have top : twoShops.namesIn [] = [⟨"shop", by decide⟩, ⟨"yard", by decide⟩] :=
    namesIn_of_pairwise outer (by decide)
  have shop : twoShops.namesIn [⟨"shop", by decide⟩] =
      [⟨"orders.bson", by decide⟩, ⟨"orders.metadata.json", by decide⟩] :=
    namesIn_of_pairwise inShop (by decide)
  have yard : twoShops.namesIn [⟨"yard", by decide⟩] = [⟨"orders.bson", by decide⟩] :=
    namesIn_of_pairwise inYard (by decide)
  rw [files, nodesIn, top, List.map_cons, List.map_singleton, List.flatMap_cons,
    List.flatMap_singleton, List.nil_append, List.nil_append, filesAtTop_of_isDirectory rfl,
    filesAtTop_of_isDirectory rfl, shop, yard]
  rfl

end DumpDirectory

end DumpCatalog
