import DumpCatalog.Proofs.Plan.History

/-! # Plans: looking up by an index

A plan finds the intent for a namespace by going through its intents. An index beside the intents
leads from each namespace to a position (`IndexedPlan`): it is extended when an intent is set behind
the others and is not changed else. Still it always leads to the right intents, since none of them
is ever moved or renamed, so both kinds of plans come to the same by every history
(`Plan.indexed_ofChanges`). `Plan.ofChanges_tells` says what that is. -/

namespace DumpCatalog

/-! ### Positions of namespaces -/

section Positions
variable {intents : List Intent} {intent : Intent} {position : Nat}

theorem fullName_eq_iff (unique : (intents.map Intent.fullName).Nodup)
    (here : intents[position]? = some intent) {other : Intent} {place : Nat}
    (there : intents[place]? = some other) :
    other.fullName = intent.fullName ↔ position = place := by
  have inside : position < (intents.map Intent.fullName).length := by
    rw [List.length_map]
    exact (List.getElem?_eq_some_iff.mp here).1
  rw [← List.getElem?_inj inside unique, List.getElem?_map, List.getElem?_map, here, there]
  exact ⟨fun same => congrArg some same.symm, fun same => (Option.some.inj same).symm⟩

theorem findIdx?_eq_some_iff (unique : (intents.map Intent.fullName).Nodup) (name : String) :
    intents.findIdx? (·.fullName = name) = some position ↔
      ∃ intent, intents[position]? = some intent ∧ intent.fullName = name := by
  rw [List.findIdx?_eq_some_iff_getElem]
  constructor
  · rintro ⟨inside, same, -⟩
    exact ⟨_, List.getElem?_eq_getElem inside, of_decide_eq_true same⟩
  · rintro ⟨intent, here, rfl⟩
    obtain ⟨inside, rfl⟩ := List.getElem?_eq_some_iff.mp here
    refine ⟨inside, decide_eq_true rfl, fun place before same => ?_⟩
    have there := List.getElem?_eq_getElem (before.trans inside)
    have := (fullName_eq_iff unique here there).mp (of_decide_eq_true same)
    omega

theorem map_eq_modify (unique : (intents.map Intent.fullName).Nodup)
    (here : intents[position]? = some intent) (change : Intent → Intent) :
    (intents.map fun other => if other.fullName = intent.fullName then change other else other) =
      intents.modify position change := by
  refine List.ext_getElem? fun place => ?_
  rw [List.getElem?_map, List.getElem?_modify]
  cases there : intents[place]? with
  | none => rfl
  | some other =>
    simp only [Option.map_some, Option.map_eq_map, fullName_eq_iff unique here there]

theorem mergeInto_eq (intents : List Intent) (intent : Intent) :
    mergeInto intents intent =
      match intents.findIdx? (·.fullName = intent.fullName) with
      | some position => intents.modify position (·.merge intent)
      | none => intents ++ [intent] := by
  induction intents with
  | nil => rfl
  | cons first later ih =>
    rw [mergeInto, List.findIdx?_cons, ih]
    by_cases same : first.fullName = intent.fullName
    · simp [same]
    · cases later.findIdx? (·.fullName = intent.fullName) with
      | none => simp [same]
      | some position => simp [same]

theorem lookup_zipIdx (names : List String) (name : String) (start : Nat) :
    (names.zipIdx start).lookup name = (names.findIdx? (· = name)).map (start + ·) := by
  induction names generalizing start with
  | nil => rfl
  | cons first later ih =>
    rw [List.zipIdx_cons, List.lookup_cons, List.findIdx?_cons, ih]
    by_cases same : first = name
    · simp [same]
    · have differ : (name == first) = false := beq_false_of_ne (Ne.symm same)
      rw [differ, if_neg (by simpa using same), Option.map_map]
      refine congrArg (Option.map · _) (funext fun position => ?_)
      rw [Function.comp_apply]
      omega

end Positions

/-! ### Plans with an index -/

/-- Intents with an index that leads from namespaces to positions. -/
structure IndexedPlan where
  intents : List Intent
  positions : List (String × Nat)
  deriving DecidableEq, Repr

namespace IndexedPlan

/-- The plan without intents. -/
def empty : IndexedPlan := ⟨[], []⟩

/-- The position to which the index leads. -/
def position? (plan : IndexedPlan) (fullName : String) : Option Nat :=
  plan.positions.lookup fullName

/-- The plan with an intent put into it. -/
def put (plan : IndexedPlan) (intent : Intent) : IndexedPlan :=
  match plan.position? intent.fullName with
  | some position => { plan with intents := plan.intents.modify position (·.merge intent) }
  | none =>
    ⟨plan.intents ++ [intent], plan.positions ++ [(intent.fullName, plan.intents.length)]⟩

/-- The plan with the metadata file of one namespace exchanged. -/
def setFile (plan : IndexedPlan) (fullName : String) (file : Option MetadataFile) : IndexedPlan :=
  match plan.position? fullName with
  | some position =>
    { plan with intents := plan.intents.modify position fun intent => { intent with file := file } }
  | none => plan

/-- The intent for a namespace. -/
def get? (plan : IndexedPlan) (fullName : String) : Option Intent :=
  (plan.position? fullName).bind (plan.intents[·]?)

/-- The plan after a change. -/
def change (plan : IndexedPlan) : Plan.Change → IndexedPlan
  | .put intent => plan.put intent
  | .setFile fullName file => plan.setFile fullName file

/-- The plan after a history of changes. -/
def ofChanges (changes : List Plan.Change) : IndexedPlan := changes.foldl change empty

end IndexedPlan

/-! ### The index beside the intents -/

namespace Plan

/-- The plan with its index, which has the namespace of each intent with its position. -/
def indexed (plan : Plan) : IndexedPlan :=
  ⟨plan.intents, (plan.intents.map Intent.fullName).zipIdx⟩

variable {plan : Plan}

/-- The index leads where going through the intents leads. -/
theorem position?_indexed (plan : Plan) (name : String) :
    plan.indexed.position? name = plan.position? name := by
  rw [IndexedPlan.position?, indexed, lookup_zipIdx, List.findIdx?_map, position?]
  simp only [Nat.zero_add, Option.map_id']
  rfl

theorem get?_indexed (plan : Plan) (name : String) : plan.indexed.get? name = plan.get? name := by
  rw [IndexedPlan.get?, position?_indexed, get?, List.find?_eq_bind_findIdx?_getElem?]
  rfl

theorem put_indexed (plan : Plan) (intent : Intent) :
    plan.indexed.put intent = (plan.put intent).indexed := by
  have merged := mergeInto_eq plan.intents intent
  have names := map_fullName_mergeInto plan.intents intent
  rw [IndexedPlan.put, position?_indexed, position?, indexed, indexed, put]
  cases found : plan.intents.findIdx? (·.fullName = intent.fullName) with
  | some position =>
    have known : intent.fullName ∈ plan.intents.map Intent.fullName := by
      obtain ⟨inside, same, -⟩ := List.findIdx?_eq_some_iff_getElem.mp found
      exact List.mem_map.mpr ⟨_, List.getElem_mem inside, of_decide_eq_true same⟩
    rw [found] at merged
    rw [names, if_pos known, merged]
  | none =>
    have absent : intent.fullName ∉ plan.intents.map Intent.fullName := by
      rintro known
      obtain ⟨other, member, same⟩ := List.mem_map.mp known
      exact of_decide_eq_false (List.findIdx?_eq_none_iff.mp found other member) same
    rw [found] at merged
    rw [names, if_neg absent, merged, List.zipIdx_append, List.length_map, Nat.zero_add]
    rfl

theorem setFile_indexed (unique : (plan.intents.map Intent.fullName).Nodup) (name : String)
    (file : Option MetadataFile) :
    plan.indexed.setFile name file = (plan.setFile name file).indexed := by
  rw [IndexedPlan.setFile, position?_indexed, position?, indexed, indexed,
    map_fullName_setFile, setFile]
  cases found : plan.intents.findIdx? (·.fullName = name) with
  | some position =>
    obtain ⟨intent, here, rfl⟩ := (findIdx?_eq_some_iff unique name).mp found
    rw [map_eq_modify unique here]
  | none =>
    have others : ∀ intent ∈ plan.intents, intent.fullName ≠ name := fun intent member =>
      of_decide_eq_false (List.findIdx?_eq_none_iff.mp found intent member)
    have same : (plan.intents.map fun intent =>
        if intent.fullName = name then { intent with file := file } else intent) =
        plan.intents := by
      conv => rhs; rw [← List.map_id plan.intents]
      exact List.map_congr_left fun intent member => if_neg (others intent member)
    rw [same]

/-- **The index is kept beside the intents** by every history of changes. -/
theorem indexed_ofChanges (changes : List Change) :
    IndexedPlan.ofChanges changes = (ofChanges changes).indexed := by
  induction changes using List.reverseRecOn with
  | nil => rfl
  | append_singleton changes change ih =>
    have step : IndexedPlan.ofChanges (changes ++ [change]) =
        (IndexedPlan.ofChanges changes).change change := by
      rw [IndexedPlan.ofChanges, List.foldl_append]
      rfl
    rw [step, ih, ofChanges_concat]
    cases change with
    | put intent => exact put_indexed _ intent
    | setFile name file => exact setFile_indexed (nodup_ofChanges changes) name file

end Plan

/-! ### What the index tells -/

/-- **The index leads to the intents of a plan**: from the namespace of each intent to its position,
and from nothing else to anywhere. Going through the intents leads to the same. -/
structure IndexedPlan.Leads (indexed : IndexedPlan) (plan : Plan) : Prop where
  intents : indexed.intents = plan.intents
  positions : indexed.positions = (plan.intents.map Intent.fullName).zipIdx
  position_iff : ∀ name position, indexed.position? name = some position ↔
    ∃ intent, plan.intents[position]? = some intent ∧ intent.fullName = name
  get_iff : ∀ name intent, indexed.get? name = some intent ↔
    intent ∈ plan.intents ∧ intent.fullName = name
  position_eq : ∀ name, plan.position? name = indexed.position? name
  get_eq : ∀ name, plan.get? name = indexed.get? name

namespace Plan

theorem leads_indexed {plan : Plan} (unique : (plan.intents.map Intent.fullName).Nodup) :
    plan.indexed.Leads plan := by
  have position_iff (name : String) (position : Nat) :
      plan.indexed.position? name = some position ↔
        ∃ intent, plan.intents[position]? = some intent ∧ intent.fullName = name := by
    rw [position?_indexed]
    exact findIdx?_eq_some_iff unique name
  refine ⟨rfl, rfl, position_iff, fun name intent => ?_,
    fun name => (position?_indexed plan name).symm, fun name => (get?_indexed plan name).symm⟩
  rw [IndexedPlan.get?, Option.bind_eq_some_iff]
  constructor
  · rintro ⟨position, found, here⟩
    obtain ⟨other, there, same⟩ := (position_iff name position).mp found
    obtain rfl : other = intent := Option.some.inj (there.symm.trans here)
    exact ⟨List.mem_of_getElem? here, same⟩
  · rintro ⟨member, same⟩
    obtain ⟨position, here⟩ := List.mem_iff_getElem?.mp member
    exact ⟨position, (position_iff name position).mpr ⟨intent, here, same⟩, here⟩

theorem setFile_eq_modify {plan : Plan} (unique : (plan.intents.map Intent.fullName).Nodup)
    {position : Nat} {intent : Intent} (here : plan.intents[position]? = some intent)
    (file : Option MetadataFile) :
    plan.setFile intent.fullName file =
      ⟨plan.intents.modify position fun intent => { intent with file := file }⟩ :=
  congrArg Plan.mk (map_eq_modify unique here _)

/-- **What a history of changes comes to.** There is one intent for each namespace that was put, in
the order in which they were first put, and it has what the history tells of it. An index that is
kept beside the intents leads from each namespace to its position and from nothing else anywhere.
Files may be exchanged by position as well as by namespace, and the data and the metadata of a
collection may be put in either order. -/
theorem ofChanges_tells (changes : List Change) :
    (ofChanges changes).intents.map Intent.fullName =
        ((puts changes).map Intent.fullName).eraseDups ∧
      (∀ intent ∈ (ofChanges changes).intents, Told changes intent) ∧
      (IndexedPlan.ofChanges changes).Leads (ofChanges changes) ∧
      (∀ position intent file, (ofChanges changes).intents[position]? = some intent →
        ofChanges (changes ++ [.setFile intent.fullName file]) =
          ⟨(ofChanges changes).intents.modify position
            fun intent => { intent with file := file }⟩) ∧
      ∀ database collection dataPath metadataPath size size' file file',
        file = none ∨ file' = none →
        ofChanges (changes ++ [.put ⟨database, collection, some dataPath, none, size, file⟩,
            .put ⟨database, collection, none, some metadataPath, size', file'⟩]) =
          ofChanges (changes ++ [.put ⟨database, collection, none, some metadataPath, size', file'⟩,
            .put ⟨database, collection, some dataPath, none, size, file⟩]) := by
  have unique := nodup_ofChanges changes
  have twice (first second : Intent) : ofChanges (changes ++ [.put first, .put second]) =
      ((ofChanges changes).put first).put second := by
    rw [ofChanges, List.foldl_append]
    rfl
  refine ⟨map_fullName_ofChanges changes, fun intent => told_of_mem, ?_, ?_, ?_⟩
  · rw [indexed_ofChanges]
    exact leads_indexed unique
  · intro position intent file here
    rw [ofChanges_concat]
    exact setFile_eq_modify unique here file
  · intro database collection dataPath metadataPath size size' file file' one
    rw [twice, twice]
    exact put_comm _ database collection dataPath metadataPath size size' one

-- The second intent for `a.b` has no data: its path is taken, its size is not.
example : IndexedPlan.ofChanges [.put ⟨"a", "b", some "data", none, 1, none⟩,
      .put (.new "c" "d"), .put ⟨"a", "b", none, some "metadata", 7, none⟩] =
    ⟨[⟨"a", "b", some "data", some "metadata", 1, none⟩, .new "c" "d"],
      [("a.b", 0), ("c.d", 1)]⟩ := by decide

end Plan

end DumpCatalog
