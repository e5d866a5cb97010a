import DumpCatalog.Proofs.Plan.Grouping
import Mathlib.Data.List.TakeWhile

/-! # Plans: histories

A plan is made by putting intents into it, and meanwhile the metadata files of intents that are in
it may be exchanged. What it comes to can be read off the history of these changes: there is one
intent for each namespace, in the order in which the namespaces were first put
(`Plan.map_fullName_ofChanges`), and each field of it was set by the last change that sets it
(`Plan.told_of_mem`). Two changes in a row may be exchanged when one brings the data of a collection
and the other its metadata (`Plan.put_comm`). -/

namespace DumpCatalog

namespace Plan

/-! ### Changes -/

/-- A change of a plan: an intent is put into it, or the file of the intent for a namespace, if
there is one, is exchanged. -/
inductive Change where
  | put (intent : Intent)
  | setFile (fullName : String) (file : Option MetadataFile)

namespace Change

/-- The intent that is put. -/
def intent? : Change → Option Intent
  | put intent => some intent
  | setFile .. => none

/-- What the file for a namespace is set to, if it is set. An intent without a file does not set
it. -/
def file? (name : String) : Change → Option (Option MetadataFile)
  | put intent => if intent.fullName = name then intent.file.map some else none
  | setFile fullName file => if fullName = name then some file else none

/-- Whether a change puts no intent for the namespace. -/
def misses (name : String) (change : Change) : Bool :=
  change.intent?.all fun intent => intent.fullName ≠ name

end Change

/-- The plan after a change. -/
def change (plan : Plan) : Change → Plan
  | .put intent => plan.put intent
  | .setFile fullName file => plan.setFile fullName file

/-- The plan after a history of changes. -/
def ofChanges (changes : List Change) : Plan := changes.foldl change empty

/-- The intents that are put in a history. -/
def puts (changes : List Change) : List Intent := changes.filterMap Change.intent?

/-- The intents that are put for a namespace. -/
def putsFor (name : String) (changes : List Change) : List Intent :=
  groupOf Intent.fullName (puts changes) name

/-- The changes from the first intent for a namespace on. -/
def since (name : String) (changes : List Change) : List Change :=
  changes.dropWhile (Change.misses name)

/-- What the file for a namespace was set to last, once there was an intent for the namespace. -/
def lastFile (name : String) (changes : List Change) : Option MetadataFile :=
  ((since name changes).filterMap (Change.file? name)).getLast?.getD none

/-- **What a history tells of an intent.** The names are those of the first intent for its
namespace. Each path is the last one that an intent for the namespace has. The size is that of the
last intent with data, or of the first intent when none has data. The file is what was set last. -/
structure Told (changes : List Change) (intent : Intent) : Prop where
  names : ∃ first ∈ (putsFor intent.fullName changes).head?,
    intent.database = first.database ∧ intent.collection = first.collection ∧
      intent.size =
        (Intent.lastOf Intent.dataSize? (putsFor intent.fullName changes)).getD first.size
  dataPath : intent.dataPath = Intent.lastOf Intent.dataPath (putsFor intent.fullName changes)
  metadataPath : intent.metadataPath =
    Intent.lastOf Intent.metadataPath (putsFor intent.fullName changes)
  file : intent.file = lastFile intent.fullName changes

variable {changes : List Change}

theorem ofChanges_concat (changes : List Change) (change : Change) :
    ofChanges (changes ++ [change]) = (ofChanges changes).change change := by
  rw [ofChanges, List.foldl_append]
  rfl

theorem puts_concat_put (changes : List Change) (intent : Intent) :
    puts (changes ++ [.put intent]) = puts changes ++ [intent] := by
  rw [puts, List.filterMap_append]
  rfl

theorem puts_concat_setFile (changes : List Change) (name : String) (file : Option MetadataFile) :
    puts (changes ++ [.setFile name file]) = puts changes := by
  rw [puts, List.filterMap_append]
  exact List.append_nil _

/-! ### All but files

Files aside, a history comes to the plan of the intents that are put. -/

/-- The intent without its file. -/
def bare (intent : Intent) : Intent := { intent with file := none }

@[simp] theorem fullName_bare (intent : Intent) : (bare intent).fullName = intent.fullName := rfl

theorem map_fullName_bare (intents : List Intent) :
    (intents.map bare).map Intent.fullName = intents.map Intent.fullName := by
  rw [List.map_map]
  rfl

/-- What keeps the names of intents and can be done before or after merging them can be done before
or after putting one. -/
theorem map_mergeInto {f : Intent → Intent}
    (names : ∀ intent, (f intent).fullName = intent.fullName)
    (merges : ∀ intent later, f (intent.merge later) = (f intent).merge (f later))
    (intents : List Intent) (intent : Intent) :
    (mergeInto intents intent).map f = mergeInto (intents.map f) (f intent) := by
  induction intents with
  | nil => rfl
  | cons first later ih =>
    rw [mergeInto, List.map_cons, mergeInto, names, names, ← ih, ← merges]
    split
    · rfl
    · rfl

theorem map_bare_setFile (plan : Plan) (name : String) (file : Option MetadataFile) :
    (plan.setFile name file).intents.map bare = plan.intents.map bare := by
  rw [setFile, List.map_map]
  refine List.map_congr_left fun intent _ => ?_
  rw [Function.comp_apply]
  split
  · rfl
  · rfl

theorem map_fullName_setFile (plan : Plan) (name : String) (file : Option MetadataFile) :
    (plan.setFile name file).intents.map Intent.fullName = plan.intents.map Intent.fullName := by
  rw [← map_fullName_bare, map_bare_setFile, map_fullName_bare]

theorem map_bare_ofChanges (changes : List Change) :
    (ofChanges changes).intents.map bare = (ofIntents ((puts changes).map bare)).intents := by
  induction changes using List.reverseRecOn with
  | nil => rfl
  | append_singleton changes change ih =>
    rw [ofChanges_concat]
    cases change with
    | put intent =>
      rw [puts_concat_put, List.map_append, List.map_singleton, ofIntents_concat, ← ih]
      exact map_mergeInto fullName_bare (fun _ _ => rfl) _ intent
    | setFile name file =>
      rw [puts_concat_setFile, ← ih]
      exact map_bare_setFile _ name file

/-- **There is one intent for each namespace that is put**, in the order in which the namespaces
were first put. -/
theorem map_fullName_ofChanges (changes : List Change) :
    (ofChanges changes).intents.map Intent.fullName =
      ((puts changes).map Intent.fullName).eraseDups := by
  rw [← map_fullName_bare, map_bare_ofChanges, map_fullName_ofIntents, map_fullName_bare]

theorem nodup_ofChanges (changes : List Change) :
    ((ofChanges changes).intents.map Intent.fullName).Nodup := by
  rw [map_fullName_ofChanges]
  exact nodup_eraseDups _

theorem sums_bare {intent : Intent} (planned : intent ∈ (ofChanges changes).intents) :
    ∃ first ∈ (putsFor intent.fullName changes).head?,
      (bare intent).Sums (bare first) ((putsFor intent.fullName changes).map bare) := by
  have known : bare intent ∈ (ofIntents ((puts changes).map bare)).intents := by
    rw [← map_bare_ofChanges]
    exact List.mem_map_of_mem planned
  have merged := forall₂_ofIntents ((puts changes).map bare)
  rw [groups_map, List.forall₂_map_right_iff] at merged
  obtain ⟨group, member, merge⟩ := exists_of_mem_forall₂ merged known
  obtain ⟨name, -, rfl⟩ := List.mem_map.mp member
  have same : (bare intent).fullName = name := by
    obtain ⟨first, inside, names⟩ := merge.fullName_eq
    obtain ⟨put, among, rfl⟩ := List.mem_map.mp inside
    exact names.symm.trans (mem_groupOf.mp among).2
  obtain rfl : intent.fullName = name := same
  obtain ⟨_, _, whole, sums⟩ := merge.fields
  obtain ⟨first, later, group, rfl, -⟩ := List.map_eq_cons_iff.mp whole
  have group : putsFor intent.fullName changes = first :: later := group
  refine ⟨first, by rw [group]; rfl, ?_⟩
  rw [group]
  exact group ▸ sums

/-! ### Files -/

theorem since_eq_nil_iff {name : String} :
    since name changes = [] ↔ name ∉ (puts changes).map Intent.fullName := by
  rw [since, List.dropWhile_eq_nil_iff]
  constructor
  · intro all known
    obtain ⟨intent, member, same⟩ := List.mem_map.mp known
    obtain ⟨change, inside, given⟩ := List.mem_filterMap.mp member
    have := all change inside
    simp [Change.misses, given, same] at this
  · intro absent change inside
    rw [Change.misses, Option.all_eq_true]
    intro intent given
    have member : intent ∈ puts changes := List.mem_filterMap.mpr ⟨change, inside, given⟩
    exact decide_eq_true fun same => absent (List.mem_map.mpr ⟨intent, member, same⟩)

theorem since_concat (name : String) (changes : List Change) (change : Change) :
    since name (changes ++ [change]) =
      if name ∈ (puts changes).map Intent.fullName then since name changes ++ [change]
      else since name [change] := by
  rw [since, List.dropWhile_append]
  change (if (since name changes).isEmpty = true then since name [change]
    else since name changes ++ [change]) = _
  simp only [List.isEmpty_iff, since_eq_nil_iff, ite_not]

theorem lastFile_concat {name : String} (known : name ∈ (puts changes).map Intent.fullName)
    (change : Change) :
    lastFile name (changes ++ [change]) = (change.file? name).getD (lastFile name changes) := by
  rw [lastFile, since_concat, if_pos known, List.filterMap_append]
  cases set : change.file? name with
  | none => simp [set, lastFile]
  | some file => simp [set]

theorem lastFile_concat_put {intent : Intent}
    (absent : intent.fullName ∉ (puts changes).map Intent.fullName) :
    lastFile intent.fullName (changes ++ [.put intent]) = intent.file := by
  have first : since intent.fullName [.put intent] = [.put intent] := by
    simp [since, Change.misses, Change.intent?]
  rw [lastFile, since_concat, if_neg absent, first]
  cases set : intent.file with
  | none => simp [Change.file?, set]
  | some file => simp [Change.file?, set]

/-- What a change makes of an intent that is in the plan. -/
def Change.touch (intent : Intent) : Change → Intent
  | put next => if intent.fullName = next.fullName then intent.merge next else intent
  | setFile fullName file =>
    if intent.fullName = fullName then { intent with file := file } else intent

theorem Change.touch_eq (change : Change) (intent : Intent) :
    (change.touch intent).fullName = intent.fullName ∧
      (change.touch intent).file = (change.file? intent.fullName).getD intent.file := by
  cases change with
  | put next =>
    rw [touch, file?]
    by_cases same : intent.fullName = next.fullName
    · rw [if_pos same, if_pos same.symm, Intent.merge]
      cases next.file with
      | none => exact ⟨rfl, rfl⟩
      | some file => exact ⟨rfl, rfl⟩
    · rw [if_neg same, if_neg (Ne.symm same)]
      exact ⟨rfl, rfl⟩
  | setFile fullName file =>
    rw [touch, file?]
    by_cases same : intent.fullName = fullName
    · rw [if_pos same, if_pos same.symm]
      exact ⟨rfl, rfl⟩
    · rw [if_neg same, if_neg (Ne.symm same)]
      exact ⟨rfl, rfl⟩

theorem of_mem_change {plan : Plan} (unique : (plan.intents.map Intent.fullName).Nodup)
    {change : Change} {intent : Intent} (member : intent ∈ (plan.change change).intents) :
    (∃ before ∈ plan.intents, intent = change.touch before) ∨
      (change = .put intent ∧ intent.fullName ∉ plan.intents.map Intent.fullName) := by
  cases change with
  | put next =>
    have member : intent ∈ mergeInto plan.intents next := member
    by_cases known : next.fullName ∈ plan.intents.map Intent.fullName
    · rw [mergeInto_of_mem unique known] at member
      obtain ⟨before, inside, rfl⟩ := List.mem_map.mp member
      exact .inl ⟨before, inside, rfl⟩
    · rw [mergeInto_of_notMem known] at member
      rcases List.mem_append.mp member with before | last
      · have differ : intent.fullName ≠ next.fullName := fun same =>
          known (same ▸ List.mem_map_of_mem before)
        exact .inl ⟨intent, before, (if_neg differ).symm⟩
      · obtain rfl := List.mem_singleton.mp last
        exact .inr ⟨rfl, known⟩
  | setFile fullName file =>
    obtain ⟨before, inside, rfl⟩ := List.mem_map.mp member
    exact .inl ⟨before, inside, rfl⟩

/-- **The file of an intent is what was set last.** -/
theorem file_ofChanges (changes : List Change) :
    ∀ intent ∈ (ofChanges changes).intents, intent.file = lastFile intent.fullName changes := by
  induction changes using List.reverseRecOn with
  | nil => simp [ofChanges, empty]
  | append_singleton changes change ih =>
    have planned (name : String) : name ∈ (ofChanges changes).intents.map Intent.fullName ↔
        name ∈ (puts changes).map Intent.fullName := by
      rw [map_fullName_ofChanges, List.mem_eraseDups]
    rw [ofChanges_concat]
    intro intent member
    rcases of_mem_change (nodup_ofChanges changes) member with ⟨before, inside, rfl⟩ | ⟨rfl, absent⟩
    · obtain ⟨name, file⟩ := change.touch_eq before
      have known := (planned _).mp (List.mem_map_of_mem inside)
      rw [name, file, lastFile_concat known, ih before inside]
    · exact (lastFile_concat_put ((planned _).not.mp absent)).symm

/-! ### What is told -/

theorem lastOf_map_bare {β : Type} {field : Intent → Option β}
    (h : ∀ intent, field (bare intent) = field intent) (group : List Intent) :
    Intent.lastOf field (group.map bare) = Intent.lastOf field group := by
  rw [Intent.lastOf, Intent.lastOf, List.filterMap_map]
  congr 2
  exact funext h

theorem told_of_mem {intent : Intent} (planned : intent ∈ (ofChanges changes).intents) :
    Told changes intent := by
  obtain ⟨first, head, sums⟩ := sums_bare planned
  have dataPath := sums.dataPath
  have metadataPath := sums.metadataPath
  have size := sums.size
  rw [lastOf_map_bare fun _ => rfl] at dataPath metadataPath size
  exact ⟨⟨first, head, sums.database, sums.collection, size⟩, dataPath, metadataPath,
    file_ofChanges changes intent planned⟩

/-! ### Data and metadata in either order -/

/-- Two intents for one namespace can be put in either order when they can be merged in either
order, on their own and into any other. -/
theorem mergeInto_comm {intent other : Intent} (same : intent.fullName = other.fullName)
    (first : intent.merge other = other.merge intent)
    (later : ∀ before : Intent, (before.merge intent).merge other =
      (before.merge other).merge intent) (intents : List Intent) :
    mergeInto (mergeInto intents intent) other = mergeInto (mergeInto intents other) intent := by
  induction intents with
  | nil => simp only [mergeInto, same, if_true, first]
  | cons before intents ih =>
    by_cases hit : before.fullName = other.fullName
    · simp only [mergeInto, same, hit, if_true, Intent.fullName_merge, later]
    · simp only [mergeInto, same, hit, if_false, ih]

/-- **The data and the metadata of a collection can be put in either order**, as long as not both of
them bring a file. -/
theorem put_comm (plan : Plan) (database collection dataPath metadataPath : String)
    (size size' : Int64) {file file' : Option MetadataFile} (one : file = none ∨ file' = none) :
    (plan.put ⟨database, collection, some dataPath, none, size, file⟩).put
        ⟨database, collection, none, some metadataPath, size', file'⟩ =
      (plan.put ⟨database, collection, none, some metadataPath, size', file'⟩).put
        ⟨database, collection, some dataPath, none, size, file⟩ := by
  let data : Intent := ⟨database, collection, some dataPath, none, size, file⟩
  let metadata : Intent := ⟨database, collection, none, some metadataPath, size', file'⟩
  have first : data.merge metadata = metadata.merge data := by
    rcases one with rfl | rfl
    · simp [Intent.merge, data, metadata]
    · simp [Intent.merge, data, metadata]
  have later (before : Intent) :
      (before.merge data).merge metadata = (before.merge metadata).merge data := by
    rcases one with rfl | rfl
    · simp [Intent.merge, data, metadata]
    · simp [Intent.merge, data, metadata]
  have same : data.fullName = metadata.fullName := rfl
  exact congrArg Plan.mk (mergeInto_comm same first later plan.intents)

end Plan

end DumpCatalog
