import DumpCatalog.Fault

/-! # Files and directories

What a disk holds: files with their bytes, and directories whose entries stand in the order in
which the system happens to enumerate them. The main statement says that what is found in a
directory is less high than the directory. -/

namespace DumpCatalog

/-- A text that can name an entry of a directory. -/
def isFileName (text : String) : Bool :=
  !text.isEmpty && text != "." && text != ".." && text.toList.all fun c => c != '/' && c != '\x00'

/-- The name of an entry. -/
structure FileName where
  text : String
  valid : isFileName text = true
  deriving DecidableEq, Repr

namespace FileName

/-- The name that a text is, if it can be one. -/
def ofText? (text : String) : Option FileName :=
  if h : isFileName text = true then some ⟨text, h⟩ else none

@[ext] theorem ext {a b : FileName} (h : a.text = b.text) : a = b := by
  cases a; cases b; simp_all

end FileName

/-- A file or a directory. -/
inductive Entry where
  | file (content : Bytes)
  | directory (entries : List (FileName × Entry))

/-- The entries of a directory. -/
abbrev Entries := List (FileName × Entry)

/-- The entry of a name. -/
def Entries.get? (entries : Entries) (name : String) : Option (FileName × Entry) :=
  List.find? (fun entry => entry.1.text = name) entries

theorem Entries.text_of_get? {entries : Entries} {text : String} {found : FileName × Entry}
    (h : Entries.get? entries text = some found) : found.1.text = text := by
  simpa using List.find?_some h

theorem Entries.isSome_get?_iff {entries : Entries} {text : String} :
    (Entries.get? entries text).isSome = true ↔ ∃ name ∈ entries.map Prod.fst, name.text = text := by
  rw [Entries.get?, List.find?_isSome]
  simp

namespace Entry

/-! ### Height -/

mutual

/-- How deep directories are nested, files aside. -/
def height : Entry → Nat
  | .file _ => 0
  | .directory entries => heightBelow entries + 1

/-- The greatest height among entries. -/
def heightBelow : List (FileName × Entry) → Nat
  | [] => 0
  | (_, entry) :: entries => max entry.height (heightBelow entries)

end

theorem height_le_of_mem {name : FileName} {entry : Entry} {entries : Entries}
    (h : (name, entry) ∈ entries) : entry.height ≤ heightBelow entries := by
  induction entries with
  | nil => cases h
  | cons first later ih =>
    obtain ⟨firstName, first⟩ := first
    rw [heightBelow]
    rcases List.mem_cons.1 h with same | h
    · cases same; exact Nat.le_max_left ..
    · exact Nat.le_trans (ih h) (Nat.le_max_right ..)

theorem height_lt_of_get? {entries : Entries} {name : String} {found : FileName × Entry}
    (h : Entries.get? entries name = some found) : found.2.height < (directory entries).height := by
  have := height_le_of_mem (List.mem_of_find?_eq_some h)
  rw [height]
  omega

/-! ### Looking up -/

/-- The entry at the end of a chain of names. -/
def descend : Entry → List String → Except SystemFault Entry
  | entry, [] => .ok entry
  | .file _, _ :: _ => .error .notADirectory
  | .directory entries, name :: names =>
    match Entries.get? entries name with
    | none => .error .noSuchFile
    | some (_, entry) => entry.descend names

/-- The entries of a directory; a file has none. -/
def entries : Entry → Entries
  | .file _ => []
  | .directory entries => entries

theorem descend_append (entry : Entry) (front back : List String) :
    entry.descend (front ++ back) = entry.descend front >>= fun found => found.descend back := by
  induction front generalizing entry with
  | nil => cases entry <;> rfl
  | cons name front ih =>
    cases entry with
    | file content => rfl
    | directory entries =>
      simp only [List.cons_append, descend]
      split
      · rfl
      · exact ih _

/-! ### Changing -/

end Entry

/-- The entries with one under `name` that is made from the one there was. A new one stands behind
the others. -/
def Entries.alter (entries : Entries) (name : FileName) (make : Option Entry → Entry) : Entries :=
  match entries with
  | [] => [(name, make none)]
  | (other, entry) :: later =>
    if other = name then (name, make (some entry)) :: later
    else (other, entry) :: Entries.alter later name make

/-- The entries without the one under `name`. -/
def Entries.erase (entries : Entries) (name : FileName) : Entries :=
  List.filter (fun entry => entry.1 ≠ name) entries

namespace Entry

/-- Makes an entry at the end of a chain of names from the one there was. Directories on the way
are made where they are missing. -/
def alter (names : List FileName) (make : Option Entry → Entry) : Option Entry → Entry :=
  match names with
  | [] => make
  | name :: names => fun found =>
    .directory (((found.map entries).getD []).alter name (alter names make))

/-- The entry without what is at the end of a chain of names. -/
def remove (entry : Entry) : List FileName → Entry
  | [] => entry
  | [name] => .directory (entry.entries.erase name)
  | name :: names =>
    .directory (entry.entries.alter name fun found => (found.getD (.directory [])).remove names)

end Entry

end DumpCatalog
