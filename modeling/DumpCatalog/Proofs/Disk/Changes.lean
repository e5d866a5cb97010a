import DumpCatalog.Proofs.Disk.Paths
import DumpCatalog.Proofs.Lists

/-! # Disks: a file that is made or emptied

A system shows of a place a file with its bytes, or a directory, or nothing (`Disk.seen`). A file can
be made where its directory is there and no directory stands in its way (`Entry.Writable`). Then it
is seen where it was made, and every other place shows what it did (`Entry.Writable.seen_put`,
`Entry.Writable.seen_put_of_ne`), so paths still lead where they led (`Disk.foldlM_step_putFile`). A
path that can be opened for writing names such a place (`Disk.exists_of_locateNew`), and leads to the
file from then on (`Disk.lookup_putFile`). -/

namespace DumpCatalog

/-- What is seen at a place, without what is in a directory. -/
inductive Sight where
  | file (content : Bytes)
  | directory
  deriving DecidableEq, Repr

/-! ### Entries of a directory -/

theorem Entries.get?_alter (entries : Entries) (name : FileName) (make : Option Entry → Entry)
    (text : String) :
    Entries.get? (Entries.alter entries name make) text =
      if name.text = text then some (name, make ((Entries.get? entries text).map Prod.snd))
      else Entries.get? entries text := by
  induction entries with
  | nil =>
    by_cases here : name.text = text
    · simp [Entries.alter, Entries.get?, here]
    · simp [Entries.alter, Entries.get?, here]
  | cons first later ih =>
    obtain ⟨other, entry⟩ := first
    rw [Entries.alter]
    by_cases same : other = name
    · subst same
      by_cases here : other.text = text
      · simp [Entries.get?, here]
      · simp [Entries.get?, here]
    · rw [if_neg same]
      unfold Entries.get? at ih ⊢
      rw [List.find?_cons, List.find?_cons, ih]
      by_cases there : other.text = text
      · have elsewhere : name.text ≠ text := fun here => same (FileName.ext (there.trans here.symm))
        simp [there, elsewhere]
      · simp [there]

namespace Entry

/-- What is seen of an entry. -/
def sight : Entry → Sight
  | file content => .file content
  | directory _ => .directory

theorem sight_eq_file_iff {entry : Entry} {content : Bytes} :
    entry.sight = .file content ↔ entry = .file content := by
  cases entry with
  | file bytes => simp [sight]
  | directory entries => simp [sight]

theorem sight_eq_directory_iff {entry : Entry} :
    entry.sight = .directory ↔ ∃ entries, entry = .directory entries := by
  cases entry with
  | file bytes => simp [sight]
  | directory entries => simp [sight]

/-- What is seen at the end of a chain of names. It begins at an entry, or where there is none. -/
def seen (found : Option Entry) (names : List FileName) : Option Sight :=
  found.bind fun entry => ((entry.descend (names.map (·.text))).toOption).map sight

theorem seen_nil (entry : Entry) : seen (some entry) [] = some entry.sight := by
  cases entry with
  | file content => rfl
  | directory entries => rfl

theorem seen_directory_cons (entries : Entries) (name : FileName)
    (names : List FileName) :
    seen (some (directory entries)) (name :: names) =
      seen ((Entries.get? entries name.text).map Prod.snd) names := by
  rw [seen, Option.bind_some, List.map_cons, descend]
  cases Entries.get? entries name.text with
  | none => rfl
  | some found => rfl

/-- **Where a file can be made**: the names lead through directories, and at their end there is a
file or nothing. -/
inductive Writable : Option Entry → List FileName → Prop
  | missing : Writable none []
  | file (content : Bytes) : Writable (some (file content)) []
  | step {entries : Entries} {name : FileName} {names : List FileName}
      (later : Writable ((Entries.get? entries name.text).map Prod.snd) names) :
      Writable (some (directory entries)) (name :: names)

/-- The entry with a file at the end of a chain of names. -/
def put (content : Bytes) (names : List FileName) (found : Option Entry) : Entry :=
  alter names (fun _ => file content) found

theorem put_cons (content : Bytes) (name : FileName) (names : List FileName) (entries : Entries) :
    put content (name :: names) (some (directory entries)) =
      directory (Entries.alter entries name (put content names)) := rfl

variable {found : Option Entry} {names other : List FileName} {content : Bytes}

theorem Writable.seen_before (h : Writable found names) :
    seen found names = none ∨ ∃ old, seen found names = some (.file old) := by
  induction h with
  | missing => exact .inl rfl
  | file old => exact .inr ⟨old, seen_nil _⟩
  | step _ ih =>
    rw [seen_directory_cons]
    exact ih

/-- **The file is seen where it was made.** -/
theorem Writable.seen_put (h : Writable found names) (content : Bytes) :
    seen (some (put content names found)) names = some (.file content) := by
  induction h with
  | missing => exact seen_nil _
  | file old => exact seen_nil _
  | step _ ih =>
    rw [put_cons, seen_directory_cons, Entries.get?_alter, if_pos rfl]
    exact ih

/-- **Every other place shows what it did.** -/
theorem Writable.seen_put_of_ne (h : Writable found names) (content : Bytes)
    (elsewhere : other ≠ names) :
    seen (some (put content names found)) other = seen found other := by
  induction h generalizing other with
  | missing =>
    -- nothing is below a file, as nothing was below nothing
    obtain ⟨first, later, rfl⟩ := List.exists_cons_of_ne_nil elsewhere
    rfl
  | file old =>
    obtain ⟨first, later, rfl⟩ := List.exists_cons_of_ne_nil elsewhere
    rfl
  | @step entries name names _ ih =>
    rw [put_cons]
    cases other with
    | nil => rw [seen_nil, seen_nil]; rfl
    | cons first later =>
      rw [seen_directory_cons, seen_directory_cons, Entries.get?_alter]
      by_cases same : name.text = first.text
      · obtain rfl := FileName.ext same
        rw [if_pos rfl]
        exact ih fun tail => elsewhere (by rw [tail])
      · rw [if_neg same]

theorem writable_of_descend {entry : Entry} {parent : List FileName} {entries : Entries}
    {name : FileName} (h : entry.descend (parent.map (·.text)) = .ok (directory entries))
    (free : ∀ inner, (Entries.get? entries name.text).map Prod.snd ≠ some (directory inner)) :
    Writable (some entry) (parent ++ [name]) := by
  induction parent generalizing entry with
  | nil =>
    have same : entry = directory entries := by
      cases entry with
      | file content => exact Except.ok.inj h
      | directory inner => exact Except.ok.inj h
    rw [same]
    refine .step ?_
    cases there : (Entries.get? entries name.text).map Prod.snd with
    | none => exact .missing
    | some found =>
      cases found with
      | file content => exact .file content
      | directory inner => exact absurd there (free inner)
  | cons first later ih =>
    cases entry with
    | file content => simp [descend] at h
    | directory outer =>
      rw [List.map_cons, descend] at h
      refine .step ?_
      cases there : Entries.get? outer first.text with
      | none => simp [there] at h
      | some found =>
        rw [there] at h
        exact ih h

end Entry

namespace Disk

variable {disk : Disk} {names next : List FileName} {component path : String} {content : Bytes}

/-! ### Following paths -/

/-- What is seen at the end of a chain of names from the top. -/
def seen (disk : Disk) (names : List FileName) : Option Sight := Entry.seen (some disk.top) names

theorem seen_eq (disk : Disk) (names : List FileName) :
    disk.seen names = ((disk.entryAt names).toOption).map Entry.sight := rfl

theorem seen_eq_some_iff {sight : Sight} :
    disk.seen names = some sight ↔ ∃ entry, disk.entryAt names = .ok entry ∧ entry.sight = sight := by
  rw [seen_eq]
  cases disk.entryAt names with
  | error fault => simp [Except.toOption]
  | ok entry => simp [Except.toOption]

theorem seen_eq_directory_iff :
    disk.seen names = some .directory ↔ ∃ entries, disk.entryAt names = .ok (.directory entries) := by
  simp only [seen_eq_some_iff, Entry.sight_eq_directory_iff]
  exact ⟨fun ⟨_, here, entries, same⟩ => ⟨entries, same ▸ here⟩,
    fun ⟨entries, here⟩ => ⟨_, here, entries, rfl⟩⟩

theorem seen_eq_file_iff :
    disk.seen names = some (.file content) ↔ disk.entryAt names = .ok (.file content) := by
  simp only [seen_eq_some_iff, Entry.sight_eq_file_iff, exists_eq_right]

theorem seen_append {entries : Entries} (here : disk.entryAt names = .ok (.directory entries))
    (name : FileName) :
    disk.seen (names ++ [name]) =
      (Entries.get? entries name.text).map fun found => found.2.sight := by
  rw [entryAt] at here
  rw [seen_eq, entryAt, List.map_append, Entry.descend_append, here]
  show (((Entry.directory entries).descend [name.text]).toOption).map _ = _
  rw [Entry.descend]
  cases Entries.get? entries name.text with
  | none => rfl
  | some found =>
    obtain ⟨other, entry⟩ := found
    cases entry with
    | file content => rfl
    | directory inner => rfl

theorem step_name (here : disk.seen names = some .directory) (name : FileName) :
    disk.step names name.text =
      if (disk.seen (names ++ [name])).isSome then .ok (names ++ [name])
      else .error .noSuchFile := by
  obtain ⟨entries, here⟩ := seen_eq_directory_iff.mp here
  rw [seen_append here, step, here]
  show (if name.text = "" ∨ name.text = "." then _ else if name.text = ".." then _ else _) = _
  rw [if_neg (by simp [name.text_ne_empty, name.text_ne_point]), if_neg name.text_ne_points]
  cases found : Entries.get? entries name.text with
  | none => rfl
  | some pair =>
    obtain ⟨other, entry⟩ := pair
    obtain rfl : other = name := FileName.ext (Entries.text_of_get? found)
    rfl

/-- Where one component leads from a directory. -/
inductive Leads (disk : Disk) (names : List FileName) : String → List FileName → Prop
  | stay {component : String} (nowhere : component = "" ∨ component = ".") :
      disk.Leads names component names
  | up : disk.Leads names ".." names.dropLast
  | down {name : FileName} (there : (disk.seen (names ++ [name])).isSome = true) :
      disk.Leads names name.text (names ++ [name])

theorem step_eq_ok_iff :
    disk.step names component = .ok next ↔
      disk.seen names = some .directory ∧ disk.Leads names component next := by
  constructor
  · intro h
    obtain ⟨entry, here, h⟩ := bind_eq_ok_iff.mp h
    cases entry with
    | file content => cases h
    | directory entries =>
      refine ⟨seen_eq_directory_iff.mpr ⟨entries, here⟩, ?_⟩
      dsimp only at h
      split at h
      · next nowhere =>
        cases h
        exact .stay nowhere
      · split at h
        · next points =>
          cases h
          rw [points]
          exact .up
        · split at h
          · next name entry found =>
            cases h
            obtain rfl : name.text = component := Entries.text_of_get? found
            refine .down ?_
            rw [seen_append here, found]
            rfl
          · cases h
  · rintro ⟨directory, leads⟩
    obtain ⟨entries, here⟩ := seen_eq_directory_iff.mp directory
    cases leads with
    | stay nowhere =>
      rw [step, here]
      exact if_pos nowhere
    | up =>
      rw [step, here]
      rfl
    | down there => rw [step_name directory, if_pos there]

/-! ### Making a file -/

/-- A chain of names at which a file can be made. -/
def Writable (disk : Disk) (names : List FileName) : Prop := Entry.Writable (some disk.top) names

theorem seen_of_writable (h : disk.Writable names) :
    disk.seen names = none ∨ ∃ old, disk.seen names = some (.file old) :=
  Entry.Writable.seen_before h

theorem top_putFile (h : disk.Writable names) (content : Bytes) :
    (disk.putFile names content).top = Entry.put content names (some disk.top) := by
  cases h with
  | step later => rfl

theorem seen_putFile (h : disk.Writable names) (content : Bytes) :
    (disk.putFile names content).seen names = some (.file content) := by
  rw [seen, top_putFile h]
  exact Entry.Writable.seen_put h content

theorem seen_putFile_of_ne (h : disk.Writable names) (content : Bytes) {other : List FileName}
    (elsewhere : other ≠ names) :
    (disk.putFile names content).seen other = disk.seen other := by
  rw [seen, top_putFile h]
  exact Entry.Writable.seen_put_of_ne h content elsewhere

theorem step_putFile (h : disk.Writable names) (content : Bytes) {here : List FileName}
    (step : disk.step here component = .ok next) :
    (disk.putFile names content).step here component = .ok next := by
  obtain ⟨directory, leads⟩ := step_eq_ok_iff.mp step
  refine step_eq_ok_iff.mpr ⟨?_, ?_⟩
  · have elsewhere : here ≠ names := by
      rintro rfl
      rcases seen_of_writable h with missing | ⟨old, file⟩
      · simp [missing] at directory
      · simp [file] at directory
    rw [seen_putFile_of_ne h content elsewhere, directory]
  · cases leads with
    | stay nowhere => exact .stay nowhere
    | up => exact .up
    | @down name there =>
      refine .down ?_
      by_cases same : here ++ [name] = names
      · rw [same, seen_putFile h]
        rfl
      · rw [seen_putFile_of_ne h content same, there]

theorem foldlM_step_putFile (h : disk.Writable names) (content : Bytes) {components : List String}
    {here : List FileName} (led : components.foldlM disk.step here = .ok next) :
    components.foldlM (disk.putFile names content).step here = .ok next := by
  induction components generalizing here with
  | nil => exact led
  | cons component components ih =>
    rw [List.foldlM_cons] at led ⊢
    obtain ⟨there, step, led⟩ := bind_eq_ok_iff.mp led
    rw [step_putFile h content step]
    exact ih led

/-- **Where a path is opened for writing**: it ends in a name, which is in the directory to which
the components before it lead, and at which a file can be made. -/
theorem exists_of_locateNew (h : disk.locateNew path = .ok names) :
    path ≠ "" ∧ disk.Writable names ∧ ∃ front parent name,
      Path.components path = front ++ [FileName.text name] ∧ names = parent ++ [name] ∧
      front.foldlM disk.step (disk.start path) = .ok parent ∧
      disk.seen parent = some .directory := by
  rw [locateNew] at h
  by_cases empty : path = ""
  · rw [if_pos empty] at h
    cases h
  rw [if_neg empty] at h
  dsimp only [pure_bind] at h
  split at h
  · cases h
  · next last ends =>
    obtain ⟨parent, led, h⟩ := bind_eq_ok_iff.mp h
    obtain ⟨entry, there, h⟩ := bind_eq_ok_iff.mp h
    cases entry with
    | file content => cases h
    | directory entries =>
      dsimp only at h
      split at h
      · cases h
      · next long =>
        split at h
        · cases h
        · cases h
        · next name valid free =>
          cases h
          -- nothing was cut off, as the path does not end in separators
          have whole := eq_of_trimmed (Nat.le_of_not_lt long)
          rw [whole] at ends led
          obtain ⟨front, split⟩ := List.getLast?_eq_some_iff.mp ends
          rw [split, List.dropLast_concat] at led
          rw [← FileName.text_of_ofText? valid] at split free
          refine ⟨empty, ?_, front, parent, name, split, rfl, led, seen_eq_directory_iff.mpr
            ⟨entries, there⟩⟩
          refine Entry.writable_of_descend there fun inner directory => ?_
          obtain ⟨⟨other, found⟩, known, same⟩ := Option.map_eq_some_iff.mp directory
          have same : found = .directory inner := same
          rw [same] at known
          exact free other inner known

theorem locate_of_name {front : List String} {parent : List FileName} {name : FileName}
    (nonempty : path ≠ "") (split : Path.components path = front ++ [name.text])
    (led : front.foldlM disk.step (disk.start path) = .ok parent)
    (directory : disk.seen parent = some .directory) :
    disk.locate path =
      if (disk.seen (parent ++ [name])).isSome then .ok (parent ++ [name])
      else .error .noSuchFile := by
  rw [locate, if_neg nonempty, split, List.foldlM_append, led, ← step_name directory]
  show disk.step parent name.text >>= pure = _
  rw [bind_pure]

theorem lookup_of_locateNew (h : disk.locateNew path = .ok names) :
    disk.lookup path = .error .noSuchFile ∨ ∃ old, disk.lookup path = .ok (.file old) := by
  obtain ⟨nonempty, writable, front, parent, name, split, rfl, led, directory⟩ :=
    exists_of_locateNew h
  have located := locate_of_name nonempty split led directory
  rcases seen_of_writable writable with missing | ⟨old, file⟩
  · rw [missing, if_neg (by simp)] at located
    refine .inl ?_
    rw [lookup, located]
    rfl
  · rw [file, if_pos Option.isSome_some] at located
    refine .inr ⟨old, ?_⟩
    rw [lookup, located]
    exact seen_eq_file_iff.mp file

/-- **A path that was opened for writing leads to the file that was written.** -/
theorem lookup_putFile (h : disk.locateNew path = .ok names) (content : Bytes) :
    (disk.putFile names content).lookup path = .ok (.file content) := by
  obtain ⟨nonempty, writable, front, parent, name, split, rfl, led, directory⟩ :=
    exists_of_locateNew h
  have file := seen_putFile writable content
  have there : (disk.putFile (parent ++ [name]) content).seen parent = some .directory := by
    rw [seen_putFile_of_ne writable content (by simp), directory]
  have located := locate_of_name nonempty split (foldlM_step_putFile writable content led) there
  rw [file, if_pos Option.isSome_some] at located
  rw [lookup, located]
  exact seen_eq_file_iff.mp file

end Disk

end DumpCatalog
