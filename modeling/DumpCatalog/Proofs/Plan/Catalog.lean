import DumpCatalog.Proofs.MetadataFile.Sessions
import DumpCatalog.Proofs.Packing.Records
import DumpCatalog.Proofs.Plan.History

/-! # Plans: the catalog that is made of one

A plan is used while it is made: the files of its intents are opened, closed and read in between
(`Plan.Use`). None of that is seen in the catalog of the plan, which is that of the changes alone
(`Catalog.ofPlan_fresh`, `Plan.fresh_ofUses`). The catalog is made when every file that is set is
text in memory, and it has the whole of each text; otherwise the first other file is the fault
(`Catalog.ofPlan_ofUses`). -/

namespace DumpCatalog

/-! ### Files that are used -/

namespace MetadataFile

/-- What may be done with a file: a call, or reading all that is left as text. -/
inductive Handling where
  | call (system : Disk) (call : Call)
  | readText

/-- The file behind what is done with it. -/
def handle (file : MetadataFile) : Handling → MetadataFile
  | .call system call => (file.answer system call).2
  | .readText => file.readText.2

/-- The file as it was before it was first used. -/
def fresh : MetadataFile → MetadataFile
  | .memory text _ => .ofText text
  | .stored catalog database collection _ => .ofCatalog catalog database collection
  | .disk path _ => .ofPath path

/-- Text in memory, whatever has been read of it. -/
def IsHeld (file : MetadataFile) : Prop := ∃ text session, file = .memory text session

variable (file : MetadataFile)

@[simp] theorem fresh_withSession (session : Session) :
    (file.withSession session).fresh = file.fresh := by
  cases file <;> rfl

@[simp] theorem fresh_close : file.close.fresh = file.fresh := by
  cases file <;> rfl

theorem fresh_openOn (system : Disk) : (file.openOn system).2.fresh = file.fresh := by
  cases file with
  | memory text session => rfl
  | stored catalog database collection session =>
    rw [openOn]
    split
    · rfl
    · rfl
  | disk path session =>
    rw [openOn]
    split
    · rfl
    · rfl

theorem fresh_read (room : Nat) : (file.read room).2.fresh = file.fresh := by
  rw [read]
  split
  · rfl
  · exact fresh_withSession _ _

theorem fresh_readText : file.readText.2.fresh = file.fresh := by
  rw [readText]
  split
  · rfl
  · exact fresh_withSession _ _

/-- **A file that is used is still the same file.** -/
theorem fresh_handle (handling : Handling) : (file.handle handling).fresh = file.fresh := by
  cases handling with
  | call system call =>
    cases call with
    | opening => exact file.fresh_openOn system
    | closing => exact file.fresh_close
    | reading room => exact file.fresh_read room
  | readText => exact file.fresh_readText

end MetadataFile

/-! ### Plans that are used -/

/-- The intent with its file as it was before it was first used. -/
def Intent.fresh (intent : Intent) : Intent :=
  { intent with file := intent.file.map MetadataFile.fresh }

theorem Intent.fresh_merge (intent later : Intent) :
    (intent.merge later).fresh = intent.fresh.merge later.fresh := by
  simp only [fresh, merge, Option.map_or]
  rfl

namespace Plan

/-- What may be done with a plan: it is changed, or the file of the intent for a namespace, if there
is one, is used. -/
inductive Use where
  | change (made : Change)
  | handle (fullName : String) (handling : MetadataFile.Handling)

/-- The change of a plan, if it is changed. -/
def Use.change? : Use → Option Change
  | .change made => some made
  | .handle .. => none

/-- The plan behind what is done with it. -/
def use (plan : Plan) : Use → Plan
  | .change made => plan.change made
  | .handle fullName handling =>
    ⟨plan.intents.map fun intent =>
      if intent.fullName = fullName then
        { intent with file := intent.file.map fun file => file.handle handling }
      else intent⟩

/-- The plan behind all that was done with it. -/
def ofUses (uses : List Use) : Plan := uses.foldl use empty

/-- The changes among all that was done with a plan. -/
def changesOf (uses : List Use) : List Change := uses.filterMap Use.change?

/-- The plan with its files as they were before they were first used. -/
def fresh (plan : Plan) : Plan := ⟨plan.intents.map Intent.fresh⟩

/-- The change with the file that it brings as it was before it was first used. -/
def Change.fresh : Change → Change
  | put intent => put intent.fresh
  | setFile fullName file => setFile fullName (file.map MetadataFile.fresh)

theorem fresh_change (plan : Plan) (change : Change) :
    (plan.change change).fresh = plan.fresh.change change.fresh := by
  cases change with
  | put intent =>
    exact congrArg mk
      (map_mergeInto (f := Intent.fresh) (fun _ => rfl) Intent.fresh_merge _ intent)
  | setFile fullName file =>
    have each (intent : Intent) :
        Intent.fresh (if intent.fullName = fullName then { intent with file := file } else intent) =
          if intent.fresh.fullName = fullName then
            { intent.fresh with file := file.map MetadataFile.fresh }
          else intent.fresh := by
      have name : intent.fresh.fullName = intent.fullName := rfl
      rw [name]
      split
      · rfl
      · rfl
    simp only [Plan.change, fresh, setFile, List.map_map, Change.fresh, Function.comp_def, each]

theorem fresh_handle (plan : Plan) (fullName : String) (handling : MetadataFile.Handling) :
    (plan.use (.handle fullName handling)).fresh = plan.fresh := by
  rw [use, fresh, fresh, List.map_map]
  congr 1
  refine List.map_congr_left fun intent _ => ?_
  rw [Function.comp_apply]
  split
  · cases intent with
    | mk database collection dataPath metadataPath size file =>
      cases file with
      | none => rfl
      | some file => simp [Intent.fresh, MetadataFile.fresh_handle]
  · rfl

theorem map_fullName_fresh (plan : Plan) :
    plan.fresh.intents.map Intent.fullName = plan.intents.map Intent.fullName := by
  rw [fresh, List.map_map]
  rfl

theorem ofUses_concat (uses : List Use) (use : Use) :
    ofUses (uses ++ [use]) = (ofUses uses).use use := by
  rw [ofUses, List.foldl_append]
  rfl

theorem changesOf_concat (uses : List Use) (use : Use) :
    changesOf (uses ++ [use]) = changesOf uses ++ use.change?.toList := by
  rw [changesOf, List.filterMap_append]
  cases use <;> rfl

/-- **A plan that is used is that of its changes**, but for what has been read. -/
theorem fresh_ofUses (uses : List Use) :
    (ofUses uses).fresh = (ofChanges (changesOf uses)).fresh := by
  induction uses using List.reverseRecOn with
  | nil => rfl
  | append_singleton uses use ih =>
    rw [ofUses_concat, changesOf_concat]
    cases use with
    | change made =>
      rw [Use.change?, Option.toList_some, ofChanges_concat, fresh_change, ← ih]
      exact fresh_change _ made
    | handle fullName handling =>
      rw [fresh_handle, ih, Use.change?, Option.toList_none, List.append_nil]

theorem nodup_ofUses (uses : List Use) : ((ofUses uses).intents.map Intent.fullName).Nodup := by
  rw [← map_fullName_fresh, fresh_ofUses, map_fullName_fresh]
  exact nodup_ofChanges _

end Plan

/-! ### Records of intents -/

/-- The whole text that a file holds in memory, whatever has been read of it. No file holds the
empty text. -/
def textOf? : Option MetadataFile → Option String
  | none => some ""
  | some (.memory text _) => some text
  | some _ => none

theorem textOf?_map_fresh (file : Option MetadataFile) :
    textOf? (file.map MetadataFile.fresh) = textOf? file := by
  rcases file with - | - | - | -
  all_goals rfl

namespace Intent

variable {intent : Intent} {record : Record} {fault : Fault}

/-- The file of the intent, if it has one, is text in memory. -/
def Buffered (intent : Intent) : Prop := ∀ file ∈ intent.file, file.IsHeld

theorem buffered_iff : intent.Buffered ↔ ∃ text, textOf? intent.file = some text := by
  rw [Buffered]
  rcases intent.file with - | - | - | -
  all_goals simp [textOf?, MetadataFile.IsHeld]

theorem heldMetadata_eq (intent : Intent) :
    intent.heldMetadata =
      (textOf? intent.file).elim (.error (.foreignMetadataFile intent.fullName)) .ok := by
  rw [heldMetadata]
  rcases intent.file with - | - | - | -
  all_goals rfl

theorem record_fresh (intent : Intent) : intent.fresh.record = intent.record := by
  rw [record, record, heldMetadata_eq, heldMetadata_eq, fresh, textOf?_map_fresh]
  rfl

theorem record_eq_ok_iff :
    intent.record = .ok record ↔ textOf? intent.file = some record.metadata ∧
      record = ⟨intent.database, intent.collection, record.metadata, intent.size⟩ := by
  rw [Intent.record, heldMetadata_eq]
  cases textOf? intent.file with
  | none =>
    refine ⟨fun made => (by cases made), ?_⟩
    rintro ⟨held, -⟩
    simp at held
  | some text =>
    constructor
    · rintro ⟨⟩
      exact ⟨rfl, rfl⟩
    · rintro ⟨held, same⟩
      rw [same, ← Option.some.inj held]
      rfl

theorem exists_record_iff : (∃ record, intent.record = .ok record) ↔ intent.Buffered := by
  rw [buffered_iff]
  constructor
  · rintro ⟨record, made⟩
    exact ⟨record.metadata, (record_eq_ok_iff.mp made).1⟩
  · rintro ⟨text, held⟩
    exact ⟨⟨intent.database, intent.collection, text, intent.size⟩,
      record_eq_ok_iff.mpr ⟨held, rfl⟩⟩

theorem record_eq_error_iff :
    intent.record = .error fault ↔
      ¬ intent.Buffered ∧ fault = .foreignMetadataFile intent.fullName := by
  rw [Intent.record, heldMetadata_eq, buffered_iff]
  cases textOf? intent.file with
  | none =>
    constructor
    · rintro ⟨⟩
      exact ⟨by simp, rfl⟩
    · rintro ⟨-, rfl⟩
      rfl
  | some text =>
    refine ⟨fun failed => (by cases failed), ?_⟩
    rintro ⟨foreign, -⟩
    exact absurd ⟨text, rfl⟩ foreign

end Intent

/-! ### Catalogs of plans -/

namespace Catalog

variable {plan : Plan} {n : Int32}

theorem ofPlan_fresh (plan : Plan) (n : Int32) : ofPlan plan.fresh n = ofPlan plan n := by
  have same (catalog : Catalog) (intent : Intent) :
      catalog.addIntent intent.fresh = catalog.addIntent intent := by
    rw [addIntent, addIntent, Intent.record_fresh]
  rw [ofPlan, ofPlan, Plan.fresh, List.foldlM_map]
  simp only [same]

theorem outcome_foldlM_addIntent_eq_error_iff {catalog : Catalog} {intents : List Intent}
    {fault : Fault} :
    (intents.foldlM addIntent catalog).outcome = .error fault ↔
      ∃ front intent back, intents = front ++ intent :: back ∧
        (∀ other ∈ front, other.Buffered) ∧ intent.record = .error fault := by
  induction intents generalizing catalog with
  | nil =>
    refine ⟨fun failed => (by cases failed), ?_⟩
    rintro ⟨front, intent, back, whole, -⟩
    simp at whole
  | cons first later ih =>
    rw [List.foldlM_cons, Logged.outcome_bind, outcome_addIntent]
    cases made : first.record with
    | error early =>
      have foreign := (Intent.record_eq_error_iff.mp made).1
      constructor
      · rintro ⟨⟩
        exact ⟨[], first, later, rfl, by simp, made⟩
      · rintro ⟨front, intent, back, whole, buffered, failed⟩
        cases front with
        | nil =>
          obtain ⟨rfl, -⟩ := List.cons.inj whole
          rw [made] at failed
          obtain rfl := Except.error.inj failed
          rfl
        | cons other front =>
          obtain ⟨rfl, -⟩ := List.cons.inj whole
          exact absurd (buffered _ (List.mem_cons_self ..)) foreign
    | ok record =>
      have held : first.Buffered := Intent.exists_record_iff.mp ⟨record, made⟩
      refine Iff.trans (@ih (catalog.add record)) ?_
      constructor
      · rintro ⟨front, intent, back, rfl, buffered, failed⟩
        exact ⟨first :: front, intent, back, rfl, List.forall_mem_cons.mpr ⟨held, buffered⟩, failed⟩
      · rintro ⟨front, intent, back, whole, buffered, failed⟩
        cases front with
        | nil =>
          obtain ⟨rfl, -⟩ := List.cons.inj whole
          rw [made] at failed
          simp at failed
        | cons other front =>
          obtain ⟨rfl, rfl⟩ := List.cons.inj whole
          exact ⟨front, intent, back, rfl, (List.forall_mem_cons.mp buffered).2, failed⟩

theorem exists_outcome_ofPlan_iff :
    (∃ catalog, (ofPlan plan n).outcome = .ok catalog) ↔
      ∀ intent ∈ plan.intents, intent.Buffered := by
  simp only [outcome_ofPlan_eq_ok_iff, ← Intent.exists_record_iff, ← exists_forall₂_iff]
  constructor
  · rintro ⟨_, records, all, -⟩
    exact ⟨records, all.flip⟩
  · rintro ⟨records, all⟩
    exact ⟨_, records, all.flip, rfl⟩

/-- **A record that copies an intent** of a plan with this history: it has the names and the size of
the intent, and the whole text in memory that its file was set to last. -/
structure Copies (changes : List Plan.Change) (intent : Intent) (record : Record) : Prop where
  database : record.database = intent.database
  collection : record.collection = intent.collection
  size : record.size = intent.size
  metadata : textOf? (Plan.lastFile intent.fullName changes) = some record.metadata

/-- **A catalog that copies a plan**: it has one record for each intent, in the plan's order, and no
two of them have the same printed name. -/
structure CopiesAll (uses : List Plan.Use) (n : Int32) (catalog : Catalog) : Prop where
  header : catalog.header = Header.new n
  records : List.Forall₂ (Copies (Plan.changesOf uses)) (Plan.ofUses uses).intents catalog.records
  distinct : (catalog.records.map Record.fullName).Nodup
  whole : catalog = ofRecords catalog.header catalog.records

variable {uses : List Plan.Use} {catalog : Catalog}

/-- Whatever has been done with a plan, the text that the file of an intent holds is that of the
file that was set last. -/
theorem textOf?_ofUses {intent : Intent} (member : intent ∈ (Plan.ofUses uses).intents) :
    textOf? intent.file = textOf? (Plan.lastFile intent.fullName (Plan.changesOf uses)) := by
  have unused : intent.fresh ∈ (Plan.ofChanges (Plan.changesOf uses)).fresh.intents := by
    rw [← Plan.fresh_ofUses]
    exact List.mem_map_of_mem member
  obtain ⟨changed, inside, same⟩ := List.mem_map.mp unused
  have name : changed.fullName = intent.fullName := by
    change changed.fresh.fullName = intent.fresh.fullName
    rw [same]
  calc textOf? intent.file
      = textOf? intent.fresh.file := (textOf?_map_fresh _).symm
    _ = textOf? changed.fresh.file := by rw [same]
    _ = textOf? changed.file := textOf?_map_fresh _
    _ = textOf? (Plan.lastFile intent.fullName (Plan.changesOf uses)) := by
      rw [Plan.file_ofChanges _ changed inside, name]

theorem copiesAll_of_ok (made : (ofPlan (Plan.ofUses uses) n).outcome = .ok catalog) :
    CopiesAll uses n catalog := by
  obtain ⟨records, all, rfl⟩ := outcome_ofPlan_eq_ok_iff.mp made
  have fields : List.Forall₂ (Copies (Plan.changesOf uses)) (Plan.ofUses uses).intents records := by
    refine (forall₂_imp_of_mem all.flip fun record intent member made => ?_).flip
    obtain ⟨held, same⟩ := Intent.record_eq_ok_iff.mp made
    exact ⟨congrArg Record.database same, congrArg Record.collection same,
      congrArg Record.size same, (textOf?_ofUses member).symm.trans held⟩
  have names : List.Forall₂ (· = ·) ((Plan.ofUses uses).intents.map Intent.fullName)
      (records.map Record.fullName) := by
    rw [List.forall₂_map_left_iff, List.forall₂_map_right_iff]
    refine fields.imp fun intent record copies => ?_
    rw [Intent.fullName, Record.fullName, copies.database, copies.collection]
  rw [List.forall₂_eq_eq_eq] at names
  refine ⟨header_ofRecords .., ?_, ?_, ?_⟩
  · rw [records_ofRecords]
    exact fields
  · rw [records_ofRecords, ← names]
    exact Plan.nodup_ofUses uses
  · rw [header_ofRecords, records_ofRecords]

/-- **The catalog of a plan is made of all its intents, or the first fault is told.** Whatever has
been read of the files in the meantime, the outcome is that of the changes of the plan alone. There
is a catalog exactly when every file in the plan is text in memory, and it copies the plan.
Otherwise the fault names the first intent with another file. -/
theorem ofPlan_ofUses (uses : List Plan.Use) (n : Int32) :
    ofPlan (Plan.ofUses uses) n = ofPlan (Plan.ofChanges (Plan.changesOf uses)) n ∧
    ((∃ catalog, (ofPlan (Plan.ofUses uses) n).outcome = .ok catalog) ↔
      ∀ intent ∈ (Plan.ofUses uses).intents, intent.Buffered) ∧
    (∀ catalog, (ofPlan (Plan.ofUses uses) n).outcome = .ok catalog → CopiesAll uses n catalog) ∧
    ∀ fault, (ofPlan (Plan.ofUses uses) n).outcome = .error fault ↔
      ∃ front intent back, (Plan.ofUses uses).intents = front ++ intent :: back ∧
        (∀ other ∈ front, other.Buffered) ∧ ¬ intent.Buffered ∧
          fault = .foreignMetadataFile intent.fullName := by
  refine ⟨?_, exists_outcome_ofPlan_iff, fun _ => copiesAll_of_ok, fun fault => ?_⟩
  · rw [← ofPlan_fresh, Plan.fresh_ofUses, ofPlan_fresh]
  · rw [ofPlan, outcome_foldlM_addIntent_eq_error_iff]
    simp only [Intent.record_eq_error_iff]

end Catalog

end DumpCatalog
