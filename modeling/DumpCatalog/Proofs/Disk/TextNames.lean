import DumpCatalog.Proofs.Disk.Paths
import DumpCatalog.Proofs.Disk.RawTree
import DumpCatalog.Proofs.Lists

/-! # Names of text among names of bytes

A dump directory whose names are all text is a directory with names of bytes, these being the bytes
of the texts (`DumpDirectory.raw`). Whatever is asked of a node of one is answered in the same way
for the node of the other (`DumpDirectory.agrees_raw`): what holds of all directories with names of
bytes holds of those with names of text. -/

namespace DumpCatalog

/-! ### Names and entries -/

namespace FileName

theorem isRawName_toBytes (name : FileName) : isRawName (Text.toBytes name.text) = true := by
  have other (text : String) (differ : name.text ≠ text) :
      Text.toBytes name.text ≠ Text.toBytes text := fun same => differ (Text.toBytes_inj same)
  refine isRawName_iff.mpr ⟨other "" name.text_ne_empty, other "." name.text_ne_point,
    other ".." name.text_ne_points, fun byte member => ?_⟩
  rw [Text.toBytes_eq_flatMap] at member
  obtain ⟨c, inside, written⟩ := List.mem_flatMap.mp member
  obtain ⟨notSlash, notZero⟩ := name.char_ne_of_mem inside
  refine ⟨?_, ?_⟩
  · rintro rfl
    exact notSlash (Text.eq_slash_of_mem_encode written)
  · rintro rfl
    exact notZero (Char.toNat_inj.mp (Text.eq_of_mem_encode written (by decide)))

/-- The name by its bytes. -/
def raw (name : FileName) : RawName := ⟨Text.toBytes name.text, name.isRawName_toBytes⟩

theorem raw_injective {name other : FileName} (h : name.raw = other.raw) : name = other :=
  FileName.ext (Text.toBytes_inj (congrArg RawName.bytes h))

end FileName

mutual

/-- The entry with its names by their bytes. -/
def Entry.raw : Entry → RawEntry
  | .file content => .file content
  | .directory entries => .directory (Entries.raw entries)

/-- The entries with their names by their bytes. -/
def Entries.raw : List (FileName × Entry) → RawEntries
  | [] => []
  | (name, entry) :: entries => (name.raw, entry.raw) :: Entries.raw entries

end

theorem map_fst_raw (entries : Entries) :
    (Entries.raw entries).map Prod.fst = (entries.map Prod.fst).map FileName.raw := by
  induction entries with
  | nil => rfl
  | cons first later ih =>
    rw [Entries.raw, List.map_cons, ih]
    rfl

theorem lookup_raw (entries : Entries) (name : FileName) :
    (Entries.raw entries).lookup name.raw =
      (Entries.get? entries name.text).map fun found => found.2.raw := by
  induction entries with
  | nil => rfl
  | cons first later ih =>
    obtain ⟨firstName, first⟩ := first
    rw [Entries.raw, List.lookup_cons, ih, Entries.get?, Entries.get?, List.find?_cons]
    by_cases same : firstName = name
    · subst same
      simp
    · have differ : firstName.text ≠ name.text := fun text => same (FileName.ext text)
      have differ' : name.raw ≠ firstName.raw := fun h => same (FileName.raw_injective h).symm
      simp [differ, beq_false_of_ne differ']

theorem Entry.descend_raw (entry : Entry) (names : List FileName) :
    entry.raw.descend (names.map FileName.raw) =
      (entry.descend (names.map (·.text))).map Entry.raw := by
  induction names generalizing entry with
  | nil =>
    rw [List.map_nil, List.map_nil, RawEntry.descend, Entry.descend]
    rfl
  | cons name names ih =>
    cases entry with
    | file content => rfl
    | directory entries =>
      rw [Entry.raw, List.map_cons, List.map_cons, RawEntry.descend, Entry.descend, lookup_raw]
      cases Entries.get? entries name.text with
      | none => rfl
      | some found => exact ih found.2

/-! ### Paths -/

theorem Text.toBytes_append (front back : String) :
    Text.toBytes (front ++ back) = Text.toBytes front ++ Text.toBytes back := by
  simp only [Text.toBytes_eq_flatMap, String.toList_append, List.flatMap_append]

namespace RawPath

theorem getLast?_toBytes_iff (path : String) :
    (Text.toBytes path).getLast? = some separator ↔ path.toList.getLast? = some '/' := by
  rw [Text.toBytes_eq_flatMap]
  rcases List.eq_nil_or_concat' path.toList with none | ⟨front, last, split⟩
  · simp [none]
  · rw [split, List.flatMap_append, List.flatMap_singleton, List.getLast?_append_of_ne_nil _
      (Text.encode_ne_nil last), List.getLast?_concat]
    constructor
    · intro ends
      rw [Text.eq_slash_of_mem_encode (List.mem_of_mem_getLast? ends)]
    · intro slash
      rw [Option.some.inj slash]
      rfl

theorem join_toBytes (base : String) (name : FileName) :
    join (Text.toBytes base) (Text.toBytes name.text) =
      Text.toBytes (Path.join base name.text) := by
  have relative : (Text.toBytes name.text).head? ≠ some separator := by
    intro absolute
    exact name.raw.separator_notMem (List.mem_of_mem_head? absolute)
  have empty : (Text.toBytes base).isEmpty = base.isEmpty := by
    rw [Bool.eq_iff_iff, List.isEmpty_iff, String.isEmpty_iff]
    exact ⟨fun none => Text.toBytes_inj none, fun none => none ▸ rfl⟩
  have closed : ((Text.toBytes base).getLast? = some separator) =
      (base.toList.getLast? = some '/') := propext (getLast?_toBytes_iff base)
  rw [join, if_neg relative, Path.join_plain name.separator_notMem]
  simp only [empty, closed]
  split
  · rw [Text.toBytes_append]
  · rw [Text.toBytes_append, Text.toBytes_append, List.append_assoc]
    rfl

theorem splitOn_append_of_plain {front : Bytes} (plain : separator ∉ front) (back : Bytes) :
    (front ++ back).splitOn separator = (back.splitOn separator).modifyHead (front ++ ·) := by
  induction front with
  | nil =>
    rw [List.nil_append]
    cases back.splitOn separator with
    | nil => rfl
    | cons first later => rfl
  | cons byte front ih =>
    rw [List.mem_cons, not_or] at plain
    have differ : ¬ byte == separator := by simpa using Ne.symm plain.1
    rw [List.cons_append, List.splitOn_cons_eq_if_modifyHead, if_neg differ, ih plain.2,
      List.modifyHead_modifyHead]
    rfl

theorem splitOn_flatMap_encode (cs : List Char) :
    (cs.flatMap String.utf8EncodeChar).splitOn separator =
      (Path.cut cs).map (List.flatMap String.utf8EncodeChar) := by
  induction cs with
  | nil => rfl
  | cons c cs ih =>
    rw [List.flatMap_cons, Path.cut]
    by_cases slash : c = '/'
    · subst slash
      have encoded : String.utf8EncodeChar '/' = [separator] := rfl
      rw [if_pos rfl, List.map_cons, ← ih, encoded, List.singleton_append,
        List.splitOn_cons_eq_if_modifyHead, if_pos (beq_self_eq_true _)]
      rfl
    · have plain : separator ∉ String.utf8EncodeChar c := fun member =>
        slash (Text.eq_slash_of_mem_encode member)
      rw [if_neg slash, splitOn_append_of_plain plain, ih]
      cases pieces : Path.cut cs with
      | nil => exact absurd pieces (Path.cut_ne_nil cs)
      | cons piece pieces => rfl

theorem steps_toBytes (path : String) :
    steps (Text.toBytes path) = (Path.steps path).map Text.toBytes := by
  have pieces : (Text.toBytes path).splitOn separator =
      (Path.components path).map Text.toBytes := by
    rw [Text.toBytes_eq_flatMap, splitOn_flatMap_encode, Path.components, List.map_map]
    refine List.map_congr_left fun piece _ => ?_
    rw [Function.comp_apply, Text.toBytes_eq_flatMap, String.toList_ofList]
  have kept (component : String) :
      (!(Text.toBytes component).isEmpty && Text.toBytes component != [point]) =
        (!component.isEmpty && component != ".") := by
    have same (other : String) : Text.toBytes component = Text.toBytes other ↔ component = other :=
      ⟨Text.toBytes_inj, congrArg Text.toBytes⟩
    have empty : Text.toBytes component = [] ↔ component = "" := same ""
    have single : Text.toBytes component = [point] ↔ component = "." := same "."
    rw [Bool.eq_iff_iff]
    simp only [Bool.and_eq_true, Bool.not_eq_true', ← Bool.not_eq_true, List.isEmpty_iff,
      String.isEmpty_iff, bne_iff_ne, ne_eq, empty, single]
  rw [steps, pieces, Path.steps, List.filter_map]
  exact congrArg _ (List.filter_congr fun component _ => kept component)

theorem fileName?_toBytes (path : String) :
    fileName? (Text.toBytes path) = (Path.fileName? path).map Text.toBytes := by
  rw [fileName?, Path.fileName?, steps_toBytes, List.getLast?_map]
  cases (Path.steps path).getLast? with
  | none => rfl
  | some last =>
    by_cases points : last = ".."
    · subst points
      rfl
    · have differ : Text.toBytes last ≠ [point, point] := fun same =>
        points (Text.toBytes_inj same)
      simp [points, differ]

end RawPath

/-! ### Directories -/

theorem eraseDups_raw (names : List FileName) :
    (names.map FileName.raw).eraseDups = names.eraseDups.map FileName.raw :=
  eraseDups_map (fun _ _ => FileName.raw_injective) names

theorem RawDirectory.sortedNames_raw (entries : Entries) :
    RawDirectory.sortedNames (Entries.raw entries) =
      (DumpDirectory.sortedNames entries).map FileName.raw := by
  have order (name other : FileName) : decide (name.text ≤ other.text) =
      !decide (other.raw.bytes < name.raw.bytes) := by
    rw [Bool.eq_iff_iff, decide_eq_true_iff, Bool.not_eq_true', decide_eq_false_iff_not,
      ← String.not_lt]
    exact not_congr Text.toBytes_lt_iff.symm
  have sorted := List.map_mergeSort (s := fun a b : RawName => !decide (b.bytes < a.bytes))
    (l := (entries.map Prod.fst).eraseDups) fun name _ other _ => order name other
  rw [DumpDirectory.sortedNames, sorted, ← eraseDups_raw, ← map_fst_raw]
  rfl

namespace DumpDirectory

variable (directory : DumpDirectory)

/-- The directory with its names by their bytes. -/
def raw : RawDirectory := ⟨Text.toBytes directory.path, directory.top.map Entry.raw⟩

theorem entry_raw (node : DiskNode) :
    directory.raw.entry (node.map FileName.raw) = (directory.entry node).map Entry.raw := by
  rw [RawDirectory.entry, entry, raw]
  cases directory.top with
  | error fault => rfl
  | ok top => exact top.descend_raw node

theorem relativePath_raw (node : DiskNode) :
    RawDirectory.relativePath (node.map FileName.raw) = Text.toBytes (relativePath node) := by
  induction node using List.reverseRecOn with
  | nil => rfl
  | append_singleton node name ih =>
    rw [List.map_append, List.map_singleton, RawDirectory.relativePath_append, ih,
      relativePath_append]
    exact RawPath.join_toBytes _ name

theorem nameBytes_raw (node : DiskNode) :
    directory.raw.nameBytes (node.map FileName.raw) = Text.toBytes (directory.nodeName node) := by
  rw [RawDirectory.nameBytes, nodeName, List.getLast?_map]
  cases node.getLast? with
  | some name => rfl
  | none =>
    show (RawPath.fileName? (Text.toBytes directory.path)).getD [] = _
    rw [RawPath.fileName?_toBytes]
    cases Path.fileName? directory.path with
    | none => rfl
    | some name => rfl

/-- **Both trees agree**: their roots, and whatever is asked of a node. -/
structure Agrees (directory : DumpDirectory) : Prop where
  name : ∀ node, directory.raw.tree.name (node.map FileName.raw) = directory.tree.name node
  path : ∀ node, RawDirectory.relativePath (node.map FileName.raw) =
    Text.toBytes (directory.tree.path node)
  size : ∀ node, directory.raw.tree.size (node.map FileName.raw) = directory.tree.size node
  isDirectory : ∀ node, directory.raw.tree.isDirectory (node.map FileName.raw) =
    directory.tree.isDirectory node
  stat : ∀ node, directory.raw.tree.stat (node.map FileName.raw) =
    (directory.tree.stat node).map (List.map FileName.raw)
  children : ∀ node, directory.raw.tree.children (node.map FileName.raw) =
    (directory.tree.children node).map (List.map (List.map FileName.raw))
  parent : ∀ node, directory.raw.tree.parent (node.map FileName.raw) =
    (directory.tree.parent node).map FileName.raw

theorem agrees_raw (directory : DumpDirectory) : directory.Agrees where
  name node := by
    show Text.ofBytesLossy (directory.raw.nameBytes _) = _
    rw [nameBytes_raw, Text.ofBytesLossy_toBytes]
    rfl
  path := relativePath_raw
  size node := by
    show directory.raw.fileSize _ = directory.fileSize node
    rw [RawDirectory.fileSize, entry_raw, fileSize]
    rcases directory.entry node with fault | entry
    · rfl
    · cases entry <;> rfl
  isDirectory node := by
    show directory.raw.isDirectory _ = directory.isDirectory node
    rw [RawDirectory.isDirectory, entry_raw, isDirectory]
    rcases directory.entry node with fault | entry
    · rfl
    · cases entry <;> rfl
  stat node := by
    show directory.raw.stat _ = (directory.stat node).map _
    rw [RawDirectory.stat, entry_raw, stat]
    cases directory.entry node with
    | error fault => rfl
    | ok entry => rfl
  children node := by
    show directory.raw.children _ = (directory.children node).map _
    rw [RawDirectory.children, entry_raw, children, relativePath_raw, Text.ofBytesLossy_toBytes]
    rcases directory.entry node with fault | entry
    · rfl
    · cases entry with
      | file content => rfl
      | directory entries =>
        refine congrArg Except.ok ?_
        rw [RawDirectory.sortedNames_raw, List.map_map, List.map_map]
        refine List.map_congr_left fun name _ => ?_
        rw [Function.comp_apply, Function.comp_apply, List.map_append, List.map_singleton]
  parent node := (List.map_dropLast ..).symm

end DumpDirectory

end DumpCatalog
