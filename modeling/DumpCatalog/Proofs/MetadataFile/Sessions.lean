import DumpCatalog.Proofs.Catalog.LookUps

/-! # Metadata files: sessions

A file that is stored in a catalog may be opened, read and closed in any order. At each moment it is
closed, or some bytes of its text are still ahead (`storedWith`); one call changes this as
`Standing.answer` says, and so a whole history of calls tells what has been given of the text and
what is ahead (`standing_after`). The main statement is `sessions_obey`: a session gives the text of
one record from its beginning, and nothing of an earlier session is left in a later one. -/

namespace DumpCatalog.MetadataFile

/-! ### Calls -/

/-- What is asked of a metadata file. -/
inductive Call where
  | opening
  | closing
  | reading (room : Nat)
  deriving DecidableEq, Repr

/-- What comes of a call. -/
inductive Answer where
  | opened (result : Except Fault Unit)
  | closed
  | given (result : Except IoFault Bytes)

/-- The answer to a call, and the file behind it. -/
def answer (system : Disk) (file : MetadataFile) : Call → Answer × MetadataFile
  | .opening => (.opened (file.openOn system).1, (file.openOn system).2)
  | .closing => (.closed, file.close)
  | .reading room => (.given (file.read room).1, (file.read room).2)

/-- The answers to calls in turn. -/
def answers (system : Disk) (file : MetadataFile) : List Call → List Answer
  | [] => []
  | call :: calls => (file.answer system call).1 :: (file.answer system call).2.answers system calls

/-- The file behind calls in turn. -/
def after (system : Disk) (file : MetadataFile) : List Call → MetadataFile
  | [] => file
  | call :: calls => (file.answer system call).2.after system calls

namespace Answer

/-- The answer of a file that has been opened. -/
def success : Answer := .opened (.ok ())

/-- Whether a file was to be opened or closed. -/
def isTurn : Answer → Bool
  | given _ => false
  | _ => true

/-- The bytes that were read. -/
def bytes : Answer → Bytes
  | given (.ok bytes) => bytes
  | _ => []

end Answer

/-- The bytes of answers one behind the other. -/
def bytesOf (answers : List Answer) : Bytes := answers.flatMap Answer.bytes

theorem bytesOf_concat (answers : List Answer) (answer : Answer) :
    bytesOf (answers ++ [answer]) = bytesOf answers ++ answer.bytes := by
  rw [bytesOf, List.flatMap_append, List.flatMap_singleton]
  rfl

theorem answers_append (system : Disk) (file : MetadataFile) (front back : List Call) :
    file.answers system (front ++ back) =
      file.answers system front ++ (file.after system front).answers system back := by
  induction front generalizing file with
  | nil => rfl
  | cons call front ih => exact congrArg _ (ih _)

theorem after_append (system : Disk) (file : MetadataFile) (front back : List Call) :
    file.after system (front ++ back) = (file.after system front).after system back := by
  induction front generalizing file with
  | nil => rfl
  | cons call front ih => exact ih _

/-! ### One call -/

section Stored
variable {catalog : Catalog} {database collection : String} {system : Disk} {past : List Answer}
  {ahead : Option Bytes}

/-- The file of a collection, which is closed or has some bytes still ahead. -/
def storedWith (catalog : Catalog) (database collection : String) (ahead : Option Bytes) :
    MetadataFile :=
  .stored catalog database collection (ahead.map Session.bytes)

theorem openOn_storedWith {text : String}
    (known : catalog.metadata? database collection = some text) :
    (storedWith catalog database collection ahead).openOn system =
      (.ok (), storedWith catalog database collection (some (Text.toBytes text))) := by
  rw [storedWith, openOn, known]
  rfl

theorem openOn_storedWith_of_none (unknown : catalog.metadata? database collection = none) :
    (storedWith catalog database collection ahead).openOn system =
      (.error (.noSuchFile (namespaceOf database collection)),
        storedWith catalog database collection ahead) := by
  rw [storedWith, openOn, unknown]

theorem isOpen_storedWith : (storedWith catalog database collection ahead).isOpen = ahead.isSome := by
  cases ahead with
  | none => rfl
  | some bytes => rfl

theorem read_storedWith (bytes : Bytes) (room : Nat) :
    (storedWith catalog database collection (some bytes)).read room =
      (.ok (bytes.take room), storedWith catalog database collection (some (bytes.drop room))) := rfl

theorem read_storedWith_none (room : Nat) :
    (storedWith catalog database collection none).read room =
      (.error .notOpen, storedWith catalog database collection none) := rfl

/-! ### Histories -/

/-- **How a file stands behind a history of answers.** It is open exactly when the last attempt to
open or close it has opened it, and only if it has a text; and what was read since it was last opened
is the beginning of its text, with all the rest still ahead while it is open. -/
structure Standing (catalog : Catalog) (database collection : String) (past : List Answer)
    (ahead : Option Bytes) : Prop where
  isSome_iff : ahead.isSome = true ↔ (past.filter Answer.isTurn).getLast? = some .success
  known : ahead.isSome = true → ∃ text, catalog.metadata? database collection = some text
  since : ∀ before later, past = before ++ .success :: later → .success ∉ later →
    ∃ text, catalog.metadata? database collection = some text ∧
      ∃ rest, Text.toBytes text = bytesOf later ++ rest ∧ ∀ bytes ∈ ahead, bytes = rest

theorem standing_nil (catalog : Catalog) (database collection : String) :
    Standing catalog database collection [] none := by
  refine ⟨by simp, by simp, fun before later whole _ => ?_⟩
  simp at whole

theorem Standing.opened {text : String}
    (known : catalog.metadata? database collection = some text) :
    Standing catalog database collection (past ++ [.success]) (some (Text.toBytes text)) := by
  refine ⟨?_, fun _ => ⟨text, known⟩, fun before later whole fresh => ?_⟩
  · rw [List.filter_append]
    simp [Answer.success, Answer.isTurn]
  · rcases List.eq_nil_or_concat' later with rfl | ⟨front, last, rfl⟩
    · exact ⟨text, known, Text.toBytes text, rfl, by simp⟩
    · -- the last answer would be a success behind the last success
      rw [← List.cons_append, ← List.append_assoc] at whole
      obtain ⟨-, same⟩ := List.append_inj' whole rfl
      rw [List.singleton_inj] at same
      simp [← same] at fresh

/-- Behind any other answer, what was read since the file was last opened has grown by what is read
now. -/
theorem Standing.since_concat (h : Standing catalog database collection past ahead)
    {answer : Answer} (other : answer ≠ .success) {before later : List Answer}
    (whole : past ++ [answer] = before ++ .success :: later) (fresh : .success ∉ later) :
    ∃ text, catalog.metadata? database collection = some text ∧
      ∃ front rest, bytesOf later = bytesOf front ++ answer.bytes ∧
        Text.toBytes text = bytesOf front ++ rest ∧ ∀ bytes ∈ ahead, bytes = rest := by
  rcases List.eq_nil_or_concat' later with rfl | ⟨front, last, rfl⟩
  · obtain ⟨-, same⟩ := List.append_inj' whole rfl
    exact absurd (List.singleton_inj.mp same) other
  · rw [← List.cons_append, ← List.append_assoc] at whole
    obtain ⟨rfl, same⟩ := List.append_inj' whole rfl
    obtain rfl := List.singleton_inj.mp same
    have earlier : .success ∉ front := fun inside => fresh (List.mem_append_left _ inside)
    obtain ⟨text, known, rest, split, left⟩ := h.since before front rfl earlier
    exact ⟨text, known, front, rest, bytesOf_concat front answer, split, left⟩

theorem Standing.since_silent (h : Standing catalog database collection past ahead)
    {answer : Answer} (other : answer ≠ .success) (silent : answer.bytes = [])
    {before later : List Answer} (whole : past ++ [answer] = before ++ .success :: later)
    (fresh : .success ∉ later) :
    ∃ text, catalog.metadata? database collection = some text ∧
      ∃ rest, Text.toBytes text = bytesOf later ++ rest := by
  obtain ⟨text, known, front, rest, grown, split, -⟩ := h.since_concat other whole fresh
  refine ⟨text, known, rest, ?_⟩
  rw [grown, silent, List.append_nil, split]

theorem Standing.eq_none (h : Standing catalog database collection past ahead)
    (unknown : catalog.metadata? database collection = none) : ahead = none := by
  cases ahead with
  | none => rfl
  | some bytes =>
    obtain ⟨text, known⟩ := h.known rfl
    simp [unknown] at known

theorem Standing.refused (h : Standing catalog database collection past ahead)
    (unknown : catalog.metadata? database collection = none) (fault : Fault) :
    Standing catalog database collection (past ++ [.opened (.error fault)]) ahead := by
  obtain rfl := h.eq_none unknown
  refine ⟨?_, by simp, fun before later whole fresh => ?_⟩
  · rw [List.filter_append]
    simp [Answer.success, Answer.isTurn]
  · obtain ⟨text, known, -⟩ := h.since_concat (by simp [Answer.success]) whole fresh
    simp [unknown] at known

theorem Standing.closed (h : Standing catalog database collection past ahead) :
    Standing catalog database collection (past ++ [.closed]) none := by
  refine ⟨?_, by simp, fun before later whole fresh => ?_⟩
  · rw [List.filter_append]
    simp [Answer.success, Answer.isTurn]
  · obtain ⟨text, known, rest, split⟩ :=
      h.since_silent (by simp [Answer.success]) rfl whole fresh
    exact ⟨text, known, rest, split, by simp⟩

theorem Standing.unread (h : Standing catalog database collection past none) (fault : IoFault) :
    Standing catalog database collection (past ++ [.given (.error fault)]) none := by
  refine ⟨?_, by simp, fun before later whole fresh => ?_⟩
  · rw [List.filter_append]
    simpa [Answer.isTurn] using h.isSome_iff
  · obtain ⟨text, known, rest, split⟩ :=
      h.since_silent (by simp [Answer.success]) rfl whole fresh
    exact ⟨text, known, rest, split, by simp⟩

theorem Standing.read {bytes : Bytes}
    (h : Standing catalog database collection past (some bytes)) (room : Nat) :
    Standing catalog database collection (past ++ [.given (.ok (bytes.take room))])
      (some (bytes.drop room)) := by
  refine ⟨?_, fun _ => h.known rfl, fun before later whole fresh => ?_⟩
  · rw [List.filter_append]
    simpa [Answer.isTurn] using h.isSome_iff
  · obtain ⟨text, known, front, rest, grown, split, left⟩ :=
      h.since_concat (by simp [Answer.success]) whole fresh
    obtain rfl := left bytes rfl
    refine ⟨text, known, bytes.drop room, ?_, by simp⟩
    rw [grown, split, Answer.bytes, List.append_assoc, List.take_append_drop]

/-- **One call keeps track of the history.** -/
theorem Standing.answer (h : Standing catalog database collection past ahead) (call : Call) :
    ∃ later, ((storedWith catalog database collection ahead).answer system call).2 =
        storedWith catalog database collection later ∧
      Standing catalog database collection
        (past ++ [((storedWith catalog database collection ahead).answer system call).1]) later := by
  cases call with
  | opening =>
    rw [MetadataFile.answer]
    cases known : catalog.metadata? database collection with
    | some text =>
      rw [openOn_storedWith known]
      exact ⟨_, rfl, .opened known⟩
    | none =>
      rw [openOn_storedWith_of_none known]
      exact ⟨_, rfl, h.refused known _⟩
  | closing => exact ⟨none, rfl, h.closed⟩
  | reading room =>
    rw [MetadataFile.answer]
    cases ahead with
    | none =>
      rw [read_storedWith_none]
      exact ⟨_, rfl, h.unread _⟩
    | some bytes =>
      rw [read_storedWith]
      exact ⟨_, rfl, h.read room⟩

/-- **A history of calls tells how a file stands behind it.** -/
theorem standing_after (catalog : Catalog) (database collection : String) (system : Disk)
    (calls : List Call) :
    ∃ ahead, (ofCatalog catalog database collection).after system calls =
        storedWith catalog database collection ahead ∧
      Standing catalog database collection
        ((ofCatalog catalog database collection).answers system calls) ahead := by
  induction calls using List.reverseRecOn with
  | nil => exact ⟨none, rfl, standing_nil catalog database collection⟩
  | append_singleton calls call ih =>
    obtain ⟨ahead, file, standing⟩ := ih
    obtain ⟨later, file', standing'⟩ := @Standing.answer _ _ _ system _ _ standing call
    rw [answers_append, after_append, file]
    exact ⟨later, file', standing'⟩

/-! ### Sessions -/

/-- Opening a file comes to the same behind every history. -/
theorem answer_opening_after (catalog : Catalog) (database collection : String) (system : Disk)
    (calls : List Call) :
    ((ofCatalog catalog database collection).after system calls).answer system .opening =
      (ofCatalog catalog database collection).answer system .opening := by
  have closed : ofCatalog catalog database collection =
      storedWith catalog database collection none := rfl
  obtain ⟨ahead, file, standing⟩ := standing_after catalog database collection system calls
  rw [file, closed, MetadataFile.answer, MetadataFile.answer]
  cases known : catalog.metadata? database collection with
  | some text => rw [openOn_storedWith known, openOn_storedWith known]
  | none => rw [standing.eq_none known]

/-- **The law of sessions**, for the file of a collection behind any calls. Opening it succeeds
exactly when the collection has a name and a record, whatever the calls were. The file is open
exactly when the last attempt to open or close it has opened it, and reading fails exactly when it
is not open. What was read since it was last opened is the beginning of the text of the first record
that was added for the collection, and a read that gives nothing, though there is room, comes only
behind the whole text. From the next attempt to open the file on, all answers are those of a file
that has never been used. -/
structure SessionLaw (catalog : Catalog) (database collection : String) (system : Disk)
    (calls : List Call) : Prop where
  opens_iff :
    (((ofCatalog catalog database collection).after system calls).openOn system).1 = .ok () ↔
      collection ≠ "" ∧ ∃ record ∈ catalog.records, record.database = database ∧
        record.collection = collection
  isOpen_iff : ((ofCatalog catalog database collection).after system calls).isOpen = true ↔
    (((ofCatalog catalog database collection).answers system calls).filter Answer.isTurn).getLast? =
      some .success
  fails_iff : ∀ room fault,
    (((ofCatalog catalog database collection).after system calls).read room).1 = .error fault ↔
      fault = .notOpen ∧ ((ofCatalog catalog database collection).after system calls).isOpen = false
  since : ∀ before later,
    (ofCatalog catalog database collection).answers system calls = before ++ .success :: later →
    .success ∉ later →
    ∃ first, catalog.Earliest database collection first ∧
      bytesOf later <+: Text.toBytes first.metadata ∧
      ∀ room, room ≠ 0 →
        (((ofCatalog catalog database collection).after system calls).read room).1 = .ok [] →
        bytesOf later = Text.toBytes first.metadata
  fresh : ∀ further,
    (ofCatalog catalog database collection).answers system (calls ++ .opening :: further) =
      (ofCatalog catalog database collection).answers system calls ++
        (ofCatalog catalog database collection).answers system (.opening :: further)

theorem openOn_eq_ok_iff :
    ((storedWith catalog database collection ahead).openOn system).1 = .ok () ↔
      ∃ text, catalog.metadata? database collection = some text := by
  cases known : catalog.metadata? database collection with
  | some text => simp [openOn_storedWith known]
  | none => simp [openOn_storedWith_of_none known]

theorem read_storedWith_eq_error_iff {room : Nat} {fault : IoFault} :
    ((storedWith catalog database collection ahead).read room).1 = .error fault ↔
      fault = .notOpen ∧ ahead.isSome = false := by
  cases ahead with
  | none =>
    rw [read_storedWith_none]
    constructor
    · intro failed
      exact ⟨(Except.error.inj failed).symm, rfl⟩
    · rintro ⟨rfl, -⟩
      rfl
  | some bytes =>
    rw [read_storedWith]
    simp

theorem eq_nil_of_read {room : Nat} (positive : room ≠ 0)
    (given : ((storedWith catalog database collection ahead).read room).1 = .ok []) :
    ahead = some [] := by
  cases ahead with
  | none =>
    rw [read_storedWith_none] at given
    simp at given
  | some bytes =>
    rw [read_storedWith] at given
    have none : bytes.take room = [] := Except.ok.inj given
    rcases List.take_eq_nil_iff.mp none with zero | empty
    · exact absurd zero positive
    · rw [empty]

/-- **Every history of calls obeys the law of sessions.** -/
theorem sessions_obey
    (origin : catalog.Built ∨ ∃ source, (Catalog.read source).1.outcome = .ok catalog)
    (database collection : String) (system : Disk) (calls : List Call) :
    SessionLaw catalog database collection system calls ∧
      IoFault.notOpen.message = "metadata file is not open" := by
  have grouped := Catalog.grouped_of_origin origin
  obtain ⟨ahead, file, standing⟩ := standing_after catalog database collection system calls
  refine ⟨⟨?_, ?_, ?_, ?_, ?_⟩, rfl⟩
  · rw [file, openOn_eq_ok_iff]
    exact grouped.exists_metadata?_iff
  · rw [file, isOpen_storedWith]
    exact standing.isSome_iff
  · intro room fault
    rw [file, isOpen_storedWith]
    exact read_storedWith_eq_error_iff
  · intro before later whole fresh
    obtain ⟨text, known, rest, split, left⟩ := standing.since before later whole fresh
    obtain ⟨-, first, earliest, rfl⟩ := grouped.metadata?_eq_some_iff.mp known
    refine ⟨first, earliest, ⟨rest, split.symm⟩, fun room positive given => ?_⟩
    rw [file] at given
    have spent : [] = rest := left [] (eq_nil_of_read positive given)
    rw [split, ← spent, List.append_nil]
  · intro further
    rw [answers_append, answers, answers, answer_opening_after]

/-- A session that is left early, and another one that is read to the end. -/
def twoSessions : List Call := [.opening, .reading 2, .closing, .opening, .reading 4, .reading 4]

/-- The second session gives the whole text. -/
theorem sessions_obey_overlapping :
    (Catalog.overlapping.Built ∨
        ∃ source, (Catalog.read source).1.outcome = .ok Catalog.overlapping) ∧
      SessionLaw Catalog.overlapping "db" "c" .empty twoSessions ∧
      bytesOf ((ofCatalog Catalog.overlapping "db" "c").answers .empty twoSessions) =
        Text.toBytes "fi" ++ Text.toBytes "first" := by
  have built : Catalog.overlapping.Built := ⟨_, _, rfl⟩
  exact ⟨.inl built, (sessions_obey (.inl built) "db" "c" .empty twoSessions).1, by decide⟩

end Stored

end DumpCatalog.MetadataFile
