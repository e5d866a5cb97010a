import DumpCatalog.Proofs.Plan.Discovery

/-! # Plans: what becomes of each file

A walk visits the nodes at the top level and those in the directories there. Each file among them
should be kept, in an intent that has the names of its own directory and its own collection, or be
passed over and reported. This is so as long as files of distinct collections have distinct
namespaces, and not else (`DumpTree.keepsAll_iff`). But collection `b.c` of database `a` and
collection `c` of database `a.b` have one printed name between them: their files are merged into one
intent, which has the names of the first file and the paths of the last. -/

namespace DumpCatalog

/-- A node that a walk comes to, and the directory at the top level that it is in; a node at the top
level itself is in none. -/
structure Visit (Node : Type) where
  directory : Option Node
  node : Node

/-- A file that a walk takes, by what its name tells. -/
structure TakenFile (Node : Type) extends Visit Node where
  collection : String
  kind : FileKind

/-- The path that an intent has for files of a kind. -/
def FileKind.pathOf (kind : FileKind) (intent : Intent) : Option String :=
  match kind with
  | data => intent.dataPath
  | metadata => intent.metadataPath

theorem FileKind.pathOf_intent (kind other : FileKind) (database collection path : String)
    (size : Int64) : kind.pathOf (other.intent database collection path size) =
      if other = kind then some path else none := by
  cases kind with
  | data => exact other.dataPath_intent database collection path size
  | metadata => exact other.metadataPath_intent database collection path size

theorem Intent.Sums.pathOf {intent first : Intent} {group : List Intent}
    (h : intent.Sums first group) (kind : FileKind) :
    kind.pathOf intent = lastOf kind.pathOf group := by
  cases kind with
  | data => exact h.dataPath
  | metadata => exact h.metadataPath

namespace DumpTree

variable {Node : Type}

/-! ### What a walk visits -/

/-- The nodes that a walk from `top` comes to: those at the top level, and those in the directories
there. -/
inductive Visits (tree : DumpTree Node) (top : Node) : Visit Node → Prop
  | atTop {nodes : List Node} {node : Node} (listed : tree.children top = .ok nodes)
      (member : node ∈ nodes) : tree.Visits top ⟨none, node⟩
  | inDirectory {nodes : List Node} {directory node : Node}
      (outer : tree.Visits top ⟨none, directory⟩) (isDir : tree.isDirectory directory = true)
      (listed : tree.children directory = .ok nodes) (member : node ∈ nodes) :
      tree.Visits top ⟨some directory, node⟩

variable (tree : DumpTree Node)

/-- The database that a node is in by its directory. -/
def databaseOf (visit : Visit Node) : String :=
  match visit.directory with
  | none => ""
  | some directory => tree.name directory

/-- **Which files a walk takes**: files with a known ending and something before it, of which only
those of the log of operations at the top level. -/
structure Takes (top : Node) (file : TakenFile Node) : Prop where
  visits : tree.Visits top file.toVisit
  isFile : tree.isDirectory file.node = false
  named : tree.name file.node = file.collection ++ file.kind.suffix
  full : file.collection ≠ ""
  oplog : file.directory = none → file.collection = Intent.oplogCollection

/-- The printed name of the collection of a file. -/
def fullName (file : TakenFile Node) : String :=
  namespaceOf (tree.databaseOf file.toVisit) file.collection

/-- The intent of a file. -/
def intentFor (file : TakenFile Node) : Intent :=
  file.kind.intent (tree.databaseOf file.toVisit) file.collection (tree.path file.node)
    (tree.size file.node)

/-! ### What becomes of a file -/

/-- The plan has the path of a node, in an intent with the names of the node's own directory and its
own collection. -/
def Keeps (plan : Plan) (visit : Visit Node) : Prop :=
  ∃ intent ∈ plan.intents, intent.database = tree.databaseOf visit ∧
    ∃ kind : FileKind, tree.name visit.node = intent.collection ++ kind.suffix ∧
      kind.pathOf intent = some (tree.path visit.node)

/-- There is a warning with the path of a node. -/
def Reports (events : List Event) (visit : Visit Node) : Prop :=
  ∃ event ∈ events, event.level = .warn ∧ event.fields = [("path", tree.path visit.node)]

/-- Every file that the walk visits is kept or reported. -/
def KeepsAll (top : Node) (events : List Event) (plan : Plan) : Prop :=
  ∀ visit, tree.Visits top visit → tree.isDirectory visit.node = false →
    tree.Keeps plan visit ∨ tree.Reports events visit

/-- Files with one namespace are of one collection. -/
def NamesApart (top : Node) : Prop :=
  ∀ file other, tree.Takes top file → tree.Takes top other →
    tree.fullName file = tree.fullName other →
      tree.databaseOf file.toVisit = tree.databaseOf other.toVisit ∧
        file.collection = other.collection

/-- Files with one namespace are of one collection, and those of one kind have one path. -/
structure Unmixed (top : Node) : Prop where
  names : tree.NamesApart top
  paths : ∀ file other, tree.Takes top file → tree.Takes top other →
    tree.fullName file = tree.fullName other → file.kind = other.kind →
      tree.path file.node = tree.path other.node

/-- Paths tell all nodes apart. -/
def PathsApart (top : Node) : Prop :=
  ∀ visit other, tree.Visits top visit → tree.Visits top other →
    tree.path visit.node = tree.path other.node → visit = other

/-- Names tell the nodes of a directory apart, directories have names, and paths tell all nodes
apart. -/
structure Orderly (top : Node) : Prop where
  siblings : ∀ directory node other, tree.Visits top ⟨directory, node⟩ →
    tree.Visits top ⟨directory, other⟩ → tree.name node = tree.name other → node = other
  named : ∀ directory, tree.Visits top ⟨none, directory⟩ → tree.isDirectory directory = true →
    tree.name directory ≠ ""
  paths : tree.PathsApart top

/-! ### The walk as a list of visits -/

/-- The nodes in a directory that can be listed, and none in what cannot. -/
def below (node : Node) : List Node := (tree.children node).toOption.getD []

/-- The visits of a walk at a node of the top level. -/
def stopsAt (node : Node) : List (Visit Node) :=
  if tree.isDirectory node then (tree.below node).map fun inner => ⟨some node, inner⟩
  else [⟨none, node⟩]

/-- The visits at which a walk takes a file or passes over something. -/
def stops (top : Node) : List (Visit Node) := (tree.below top).flatMap tree.stopsAt

/-- The intent of what is taken at a visit. -/
def taken? (visit : Visit Node) : Option Intent :=
  if tree.isDirectory visit.node then none
  else
    match visit.directory with
    | none => (tree.intentOf? "" visit.node).filter Intent.isOplog
    | some directory => tree.intentOf? (tree.name directory) visit.node

/-- The intents of all that is taken. -/
def intents (top : Node) : List Intent := (tree.stops top).filterMap tree.taken?

/-- What is reported at a visit where something is passed over. -/
def warning (visit : Visit Node) : Event :=
  match visit.directory with
  | none => .strayFile (tree.path visit.node)
  | some _ =>
    if tree.isDirectory visit.node then .nestedDirectory (tree.path visit.node)
    else .unknownFile (tree.path visit.node)

variable {tree}

theorem mem_below_iff {directory node : Node} :
    node ∈ tree.below directory ↔ ∃ nodes, tree.children directory = .ok nodes ∧ node ∈ nodes := by
  unfold below
  cases tree.children directory with
  | error fault => simp [Except.toOption]
  | ok nodes => simp [Except.toOption]

theorem mem_stops_iff {top : Node} {visit : Visit Node} :
    visit ∈ tree.stops top ↔ tree.Visits top visit ∧
      (visit.directory = none → tree.isDirectory visit.node = false) := by
  rw [stops, List.mem_flatMap]
  constructor
  · rintro ⟨node, outer, member⟩
    obtain ⟨nodes, listed, outer⟩ := mem_below_iff.mp outer
    unfold stopsAt at member
    split at member
    · next isDir =>
      obtain ⟨inner, inside, rfl⟩ := List.mem_map.mp member
      obtain ⟨nodes', listed', inside⟩ := mem_below_iff.mp inside
      exact ⟨.inDirectory (.atTop listed outer) isDir listed' inside, fun top => (by simp at top)⟩
    · next isFile =>
      obtain rfl := List.mem_singleton.mp member
      exact ⟨.atTop listed outer, fun _ => by simpa using isFile⟩
  · rintro ⟨visited, taken⟩
    cases visited with
    | @atTop nodes node listed member =>
      refine ⟨node, mem_below_iff.mpr ⟨nodes, listed, member⟩, ?_⟩
      rw [stopsAt, taken rfl, if_neg (by simp)]
      exact List.mem_singleton_self _
    | @inDirectory nodes directory node outer isDir listed member =>
      cases outer with
      | @atTop outerNodes _ listedTop outer =>
        refine ⟨directory, mem_below_iff.mpr ⟨outerNodes, listedTop, outer⟩, ?_⟩
        rw [stopsAt, if_pos isDir]
        exact List.mem_map_of_mem (mem_below_iff.mpr ⟨nodes, listed, member⟩)

theorem foundAtTop_below (node : Node) :
    tree.foundAtTop tree.below node = (tree.stopsAt node).filterMap tree.taken? := by
  unfold foundAtTop stopsAt
  split
  · rw [List.filterMap_map, List.filterMap_eq_flatMap_toList]
    refine List.flatMap_congr fun inner _ => ?_
    simp only [foundIn, taken?, Function.comp_apply]
    split
    · rfl
    · rfl
  · next isFile =>
    rw [List.filterMap_eq_flatMap_toList, List.flatMap_singleton, taken?, if_neg isFile]

theorem skippedAtTop_below (node : Node) :
    tree.skippedAtTop tree.below node =
      ((tree.stopsAt node).filter fun visit => (tree.taken? visit).isNone).map tree.warning := by
  unfold skippedAtTop stopsAt
  split
  · rw [List.filter_map, List.map_map, List.map_eq_flatMap, flatMap_filter]
    refine List.flatMap_congr fun inner _ => ?_
    simp only [skippedIn, taken?, warning, Function.comp_apply]
    split
    · rfl
    · cases tree.intentOf? (tree.name node) inner with
      | none => rfl
      | some intent => rfl
  · next isFile =>
    simp only [List.filter_singleton, taken?, if_neg isFile]
    cases (tree.intentOf? "" node).filter Intent.isOplog with
    | none => rfl
    | some intent => rfl

theorem exists_listed {top : Node} {events : List Event} {plan : Plan}
    (made : tree.planFrom top = ⟨events, .ok plan⟩) :
    tree.children top = .ok (tree.below top) ∧ ∀ child ∈ tree.below top,
      tree.isDirectory child = true → tree.children child = .ok (tree.below child) := by
  have listed (node : Node) (nodes : List Node) (h : tree.children node = .ok nodes) :
      tree.children node = .ok (tree.below node) := by
    rw [below, h]
    rfl
  have ends : (tree.planFrom top).outcome = .ok plan := by rw [made]
  rw [planFrom, Logged.outcome_bind, bind_eq_ok_iff] at ends
  obtain ⟨nodes, top, ends⟩ := ends
  rw [Logged.outcome_ofExcept] at top
  rw [Logged.outcome_bind, bind_eq_ok_iff] at ends
  obtain ⟨last, steps, -⟩ := ends
  refine ⟨listed _ _ top, fun child member isDir => ?_⟩
  have member : child ∈ nodes := by
    rw [below, top] at member
    exact member
  obtain ⟨before, after, step⟩ := Logged.exists_of_foldlM steps child member
  rw [planAtTop, if_pos isDir, Logged.outcome_bind, bind_eq_ok_iff] at step
  obtain ⟨nodes, inside, -⟩ := step
  exact listed _ _ inside

/-- **A walk that comes to an end has taken or reported something at every visit.** -/
theorem planFrom_stops {top : Node} {events : List Event} {plan : Plan}
    (made : tree.planFrom top = ⟨events, .ok plan⟩) :
    events = ((tree.stops top).filter fun visit => (tree.taken? visit).isNone).map tree.warning ++
        [.planMade plan.size] ∧
      plan = .ofIntents (tree.intents top) := by
  obtain ⟨listed, below⟩ := exists_listed made
  have walk := tree.planFrom_eq tree.below listed below
  have found : (tree.below top).flatMap (tree.foundAtTop tree.below) =
      tree.intents top := by
    rw [intents, stops, List.filterMap_flatMap]
    exact List.flatMap_congr fun node _ => foundAtTop_below node
  have skipped : (tree.below top).flatMap (tree.skippedAtTop tree.below) =
      ((tree.stops top).filter fun visit => (tree.taken? visit).isNone).map tree.warning := by
    rw [stops, List.filter_flatMap, List.map_flatMap]
    exact List.flatMap_congr fun node _ => skippedAtTop_below node
  rw [made, found, skipped] at walk
  injection walk with events outcome
  injection outcome with plan
  rw [plan]
  exact ⟨events, rfl⟩

/-! ### What is taken, and what is reported -/

theorem taken?_eq_some_iff {visit : Visit Node} {intent : Intent} :
    tree.taken? visit = some intent ↔ tree.isDirectory visit.node = false ∧
      ∃ collection kind, tree.name visit.node = collection ++ FileKind.suffix kind ∧
        collection ≠ "" ∧ (visit.directory = none → collection = Intent.oplogCollection) ∧
        intent = tree.intentFor ⟨visit, collection, kind⟩ := by
  obtain ⟨directory, node⟩ := visit
  by_cases isDir : tree.isDirectory node = true
  · simp [taken?, isDir]
  · cases directory with
    | none =>
      rw [taken?, if_neg isDir, Option.filter_eq_some_iff, intentOf?_eq_some_iff]
      constructor
      · rintro ⟨⟨collection, kind, named, full, rfl⟩, log⟩
        rw [Intent.isOplog_iff, FileKind.collection_intent] at log
        exact ⟨by simpa using isDir, collection, kind, named, full, fun _ => log.2, rfl⟩
      · rintro ⟨-, collection, kind, named, full, log, rfl⟩
        refine ⟨⟨collection, kind, named, full, rfl⟩, ?_⟩
        simp [Intent.isOplog_iff, intentFor, databaseOf, log]
    | some directory =>
      rw [taken?, if_neg isDir, intentOf?_eq_some_iff]
      constructor
      · rintro ⟨collection, kind, named, full, rfl⟩
        exact ⟨by simpa using isDir, collection, kind, named, full, fun top => (by simp at top), rfl⟩
      · rintro ⟨-, collection, kind, named, full, -, rfl⟩
        exact ⟨collection, kind, named, full, rfl⟩

theorem Takes.taken?_eq {top : Node} {file : TakenFile Node} (h : tree.Takes top file) :
    tree.taken? file.toVisit = some (tree.intentFor file) :=
  taken?_eq_some_iff.mpr ⟨h.isFile, file.collection, file.kind, h.named, h.full, h.oplog, rfl⟩

theorem mem_intents_iff {top : Node} {intent : Intent} :
    intent ∈ tree.intents top ↔
      ∃ file, tree.Takes top file ∧ intent = tree.intentFor file := by
  rw [intents, List.mem_filterMap]
  constructor
  · rintro ⟨visit, member, taken⟩
    obtain ⟨isFile, collection, kind, named, full, oplog, rfl⟩ := taken?_eq_some_iff.mp taken
    have visited := (mem_stops_iff.mp member).1
    exact ⟨⟨visit, collection, kind⟩, ⟨visited, isFile, named, full, oplog⟩, rfl⟩
  · rintro ⟨file, takes, rfl⟩
    exact ⟨file.toVisit, mem_stops_iff.mpr ⟨takes.visits, fun _ => takes.isFile⟩, takes.taken?_eq⟩

theorem level_warning (visit : Visit Node) : (tree.warning visit).level = .warn := by
  unfold warning
  split
  · rfl
  · split
    · rfl
    · rfl

theorem fields_warning (visit : Visit Node) :
    (tree.warning visit).fields = [("path", tree.path visit.node)] := by
  unfold warning
  split
  · rfl
  · split
    · rfl
    · rfl

theorem reports_iff {top : Node} {events : List Event} {plan : Plan} {visit : Visit Node}
    (made : tree.planFrom top = ⟨events, .ok plan⟩) :
    tree.Reports events visit ↔ ∃ other ∈ tree.stops top, tree.taken? other = none ∧
      tree.path other.node = tree.path visit.node := by
  rw [(planFrom_stops made).1]
  constructor
  · rintro ⟨event, member, level, fields⟩
    rcases List.mem_append.mp member with passed | last
    · obtain ⟨other, inside, rfl⟩ := List.mem_map.mp passed
      obtain ⟨member, none⟩ := List.mem_filter.mp inside
      rw [fields_warning] at fields
      exact ⟨other, member, by simpa using none, by simpa using fields⟩
    · rw [List.mem_singleton.mp last] at level
      simp [Event.level] at level
  · rintro ⟨other, member, none, same⟩
    refine ⟨tree.warning other, List.mem_append_left _ (List.mem_map_of_mem ?_),
      level_warning other, ?_⟩
    · exact List.mem_filter.mpr ⟨member, by simpa using none⟩
    · rw [fields_warning, same]

theorem fullName_intentFor (file : TakenFile Node) :
    (tree.intentFor file).fullName = tree.fullName file := by
  simp [intentFor, Intent.fullName, fullName]

theorem pathOf_intentFor (kind : FileKind) (file : TakenFile Node) :
    kind.pathOf (tree.intentFor file) =
      if file.kind = kind then some (tree.path file.node) else none :=
  FileKind.pathOf_intent ..

/-! ### What is kept -/

/-- The intent has the names and the path of a file. -/
structure Holds (tree : DumpTree Node) (intent : Intent) (file : TakenFile Node) : Prop where
  database : intent.database = tree.databaseOf file.toVisit
  collection : intent.collection = file.collection
  path : file.kind.pathOf intent = some (tree.path file.node)

theorem keeps_iff {top : Node} {plan : Plan} {file : TakenFile Node} (takes : tree.Takes top file) :
    tree.Keeps plan file.toVisit ↔ ∃ intent ∈ plan.intents, tree.Holds intent file := by
  constructor
  · rintro ⟨intent, planned, database, kind, named, path⟩
    have name := FileKind.ofName?_eq_some_iff.mpr named
    rw [FileKind.ofName?_eq_some_iff.mpr takes.named, Option.some.injEq, Prod.mk.injEq] at name
    obtain ⟨collection, rfl⟩ := name
    exact ⟨intent, planned, database, collection.symm, path⟩
  · rintro ⟨intent, planned, holds⟩
    refine ⟨intent, planned, holds.database, file.kind, ?_, holds.path⟩
    rw [holds.collection]
    exact takes.named

theorem exists_takes_of_mem_groupOf {top : Node} {name : String} {intent : Intent}
    (h : intent ∈ groupOf Intent.fullName (tree.intents top) name) :
    ∃ file, tree.Takes top file ∧ tree.fullName file = name ∧ intent = tree.intentFor file := by
  obtain ⟨found, same⟩ := mem_groupOf.mp h
  obtain ⟨file, takes, rfl⟩ := mem_intents_iff.mp found
  rw [fullName_intentFor] at same
  exact ⟨file, takes, same, rfl⟩

/-- Where nothing is mixed, what is merged with the intent of a file holds the file: the first
member of the group gives the names, and the last one of the file's kind gives the path. -/
theorem holds_of_mergeOf {top : Node} (unmixed : tree.Unmixed top) {file : TakenFile Node}
    (takes : tree.Takes top file) {intent : Intent}
    (merged : intent.MergeOf (groupOf Intent.fullName (tree.intents top) (tree.fullName file))) :
    tree.Holds intent file := by
  obtain ⟨first, later, whole, sums⟩ := merged.fields
  obtain ⟨other, takes', same, rfl⟩ := exists_takes_of_mem_groupOf (whole ▸ List.mem_cons_self ..)
  obtain ⟨database, collection⟩ := unmixed.names other file takes' takes same
  have itself : tree.intentFor file ∈
      groupOf Intent.fullName (tree.intents top) (tree.fullName file) :=
    mem_groupOf.mpr ⟨mem_intents_iff.mpr ⟨file, takes, rfl⟩, fullName_intentFor file⟩
  have set : file.kind.pathOf (tree.intentFor file) = some (tree.path file.node) := by
    rw [pathOf_intentFor, if_pos rfl]
  obtain ⟨_, inside, path, given, last⟩ := Intent.exists_lastOf itself set
  obtain ⟨latest, takesLatest, sameLatest, rfl⟩ := exists_takes_of_mem_groupOf inside
  rw [pathOf_intentFor] at given
  split at given
  · next kind =>
    rw [unmixed.paths latest file takesLatest takes sameLatest kind] at given
    refine ⟨?_, ?_, ?_⟩
    · rw [sums.database, ← database]
      exact FileKind.database_intent ..
    · rw [sums.collection, ← collection]
      exact FileKind.collection_intent ..
    · rw [sums.pathOf, last, given]
  · simp at given

section Walk
variable {top : Node} {events : List Event} {plan : Plan}
  (made : tree.planFrom top = ⟨events, .ok plan⟩)
include made

theorem keeps_of_takes (unmixed : tree.Unmixed top) {file : TakenFile Node}
    (takes : tree.Takes top file) : tree.Keeps plan file.toVisit := by
  obtain ⟨merged, planned, merge⟩ := Plan.exists_mergeOf (mem_intents_iff.mpr ⟨file, takes, rfl⟩)
  rw [← (planFrom_stops made).2] at planned
  rw [fullName_intentFor] at merge
  exact (keeps_iff takes).mpr ⟨merged, planned, holds_of_mergeOf unmixed takes merge⟩

theorem not_reports_of_takes (paths : tree.PathsApart top)
    {file : TakenFile Node} (takes : tree.Takes top file) :
    ¬ tree.Reports events file.toVisit := by
  rw [reports_iff made]
  rintro ⟨other, member, none, same⟩
  obtain rfl := paths _ _ (mem_stops_iff.mp member).1 takes.visits same
  rw [takes.taken?_eq] at none
  simp at none

theorem keepsAll_of_unmixed (unmixed : tree.Unmixed top) : tree.KeepsAll top events plan := by
  intro visit visited isFile
  have member : visit ∈ tree.stops top := mem_stops_iff.mpr ⟨visited, fun _ => isFile⟩
  cases taken : tree.taken? visit with
  | none => exact .inr ((reports_iff made).mpr ⟨visit, member, taken, rfl⟩)
  | some intent =>
    obtain ⟨-, collection, kind, named, full, oplog, -⟩ := taken?_eq_some_iff.mp taken
    have takes : tree.Takes top ⟨visit, collection, kind⟩ := ⟨visited, isFile, named, full, oplog⟩
    exact .inl (keeps_of_takes made unmixed takes)

theorem unmixed_of_keepsAll (paths : tree.PathsApart top)
    (all : tree.KeepsAll top events plan) : tree.Unmixed top := by
  have kept {file : TakenFile Node} (takes : tree.Takes top file) :=
    (keeps_iff takes).mp
      ((all _ takes.visits takes.isFile).resolve_right (not_reports_of_takes made paths takes))
  -- files with one namespace are held by one intent
  have both {file other : TakenFile Node} (takes : tree.Takes top file)
      (takes' : tree.Takes top other) (same : tree.fullName file = tree.fullName other) :
      ∃ intent, tree.Holds intent file ∧ tree.Holds intent other := by
    obtain ⟨intent, planned, holds⟩ := kept takes
    obtain ⟨intent', planned', holds'⟩ := kept takes'
    rw [(planFrom_stops made).2] at planned planned'
    have one : intent = intent' := by
      refine Plan.eq_of_fullName planned planned' ?_
      rw [Intent.fullName, Intent.fullName, holds.database, holds.collection, holds'.database,
        holds'.collection]
      exact same
    exact ⟨intent, holds, one ▸ holds'⟩
  constructor
  · intro file other takes takes' same
    obtain ⟨intent, holds, holds'⟩ := both takes takes' same
    exact ⟨holds.database.symm.trans holds'.database, holds.collection.symm.trans holds'.collection⟩
  · intro file other takes takes' same kind
    obtain ⟨intent, holds, holds'⟩ := both takes takes' same
    have path := holds.path
    rw [kind, holds'.path, Option.some.injEq] at path
    exact path.symm

end Walk

theorem Visits.outer {top directory node : Node} (h : tree.Visits top ⟨some directory, node⟩) :
    tree.Visits top ⟨none, directory⟩ ∧ tree.isDirectory directory = true := by
  cases h with
  | inDirectory outer isDir => exact ⟨outer, isDir⟩

theorem Orderly.eq_of_databaseOf {top : Node} (h : tree.Orderly top) {visit other : Visit Node}
    (visited : tree.Visits top visit) (visited' : tree.Visits top other)
    (same : tree.databaseOf visit = tree.databaseOf other) : visit.directory = other.directory := by
  obtain ⟨directory, node⟩ := visit
  obtain ⟨directory', node'⟩ := other
  cases directory with
  | none =>
    cases directory' with
    | none => rfl
    | some directory' => exact absurd same.symm (h.named _ visited'.outer.1 visited'.outer.2)
  | some directory =>
    cases directory' with
    | none => exact absurd same (h.named _ visited.outer.1 visited.outer.2)
    | some directory' => exact congrArg some (h.siblings _ _ _ visited.outer.1 visited'.outer.1 same)

theorem Orderly.unmixed_iff {top : Node} (h : tree.Orderly top) :
    tree.Unmixed top ↔ tree.NamesApart top := by
  refine ⟨Unmixed.names, fun apart => ⟨apart, fun file other takes takes' same kind => ?_⟩⟩
  obtain ⟨database, collection⟩ := apart file other takes takes' same
  have directory := h.eq_of_databaseOf takes.visits takes'.visits database
  have name : tree.name file.node = tree.name other.node := by
    rw [takes.named, takes'.named, collection, kind]
  have visited : tree.Visits top ⟨other.directory, file.node⟩ := directory ▸ takes.visits
  rw [h.siblings _ _ _ visited takes'.visits name]

/-- **What a walk keeps.** Let a walk come to its end. When files with one namespace are of one
collection, and of one kind only one, then each file that the walk visits is in the plan under its
own names, or it is reported. In an orderly tree, this is so exactly when files with one namespace
are of one collection. -/
theorem keepsAll_iff {top : Node} {events : List Event} {plan : Plan}
    (made : tree.planFrom top = ⟨events, .ok plan⟩) :
    (tree.Unmixed top → tree.KeepsAll top events plan) ∧
      (tree.Orderly top → (tree.KeepsAll top events plan ↔ tree.NamesApart top)) := by
  refine ⟨keepsAll_of_unmixed made, fun orderly => ?_⟩
  rw [← orderly.unmixed_iff]
  exact ⟨unmixed_of_keepsAll made orderly.paths, keepsAll_of_unmixed made⟩

end DumpTree

end DumpCatalog
