import DumpCatalog.Plan.Discovery
import DumpCatalog.Proofs.Plan.Grouping

/-! # Plans: what a walk over a tree finds

The name of a file tells its collection and its kind in one way only
(`FileKind.ofName?_eq_some_iff`). A walk whose directories can be listed never fails: it puts the
intents of what it finds into the plan in turn and reports what it passes over
(`DumpTree.planFrom_eq`). -/

namespace DumpCatalog

/-! ### Names of files -/

theorem withoutSuffix?_eq_some_iff {suffix text front : String} :
    withoutSuffix? suffix text = some front ↔ text = front ++ suffix := by
  rw [withoutSuffix?]
  constructor
  · intro h
    split at h
    · next ends =>
      obtain ⟨before, whole⟩ := List.isSuffixOf_iff_suffix.mp ends
      have length : text.length - suffix.length = before.length := by
        rw [← String.length_toList, ← String.length_toList, ← whole, List.length_append]
        omega
      rw [length, ← whole, List.take_left, Option.some.injEq] at h
      rw [← h, ← String.toList_inj, String.toList_append, String.toList_ofList, whole]
    · simp at h
  · rintro rfl
    have length : (front ++ suffix).length - suffix.length = front.toList.length := by
      rw [String.length_append, String.length_toList]
      omega
    rw [String.toList_append, if_pos (List.isSuffixOf_iff_suffix.mpr ⟨_, rfl⟩), length,
      List.take_left, String.ofList_toList]

/-- How the names of files of a kind end. -/
def FileKind.suffix : FileKind → String
  | data => dataSuffix
  | metadata => metadataSuffix

theorem append_dataSuffix_ne (front front' : String) :
    front ++ dataSuffix ≠ front' ++ metadataSuffix := by
  intro same
  have characters := congrArg String.toList same
  have data : dataSuffix.toList = ['.'] ++ ['b', 's', 'o', 'n'] := by decide
  have metadata : metadataSuffix.toList =
      ['.', 'm', 'e', 't', 'a', 'd', 'a', 't', 'a', '.'] ++ ['j', 's', 'o', 'n'] := by decide
  rw [String.toList_append, String.toList_append, data, metadata, ← List.append_assoc,
    ← List.append_assoc] at characters
  exact absurd (List.append_inj_right' characters rfl) (by decide)

/-- **The name of a file tells its collection and its kind.** -/
theorem FileKind.ofName?_eq_some_iff {name collection : String} {kind : FileKind} :
    FileKind.ofName? name = some (collection, kind) ↔ name = collection ++ kind.suffix := by
  rw [FileKind.ofName?]
  cases ends : withoutSuffix? metadataSuffix name with
  | some front =>
    have whole := withoutSuffix?_eq_some_iff.mp ends
    subst whole
    cases kind with
    | data =>
      refine ⟨fun h => (by simp at h), fun same => ?_⟩
      exact absurd same.symm (append_dataSuffix_ne collection front)
    | metadata =>
      refine ⟨fun h => (by cases h; rfl), fun same => ?_⟩
      have again : withoutSuffix? metadataSuffix _ = some collection :=
        withoutSuffix?_eq_some_iff.mpr same
      rw [ends] at again
      rw [Option.some.inj again]
  | none =>
    cases kind with
    | data =>
      show (withoutSuffix? dataSuffix name).map _ = _ ↔ name = collection ++ dataSuffix
      rw [← withoutSuffix?_eq_some_iff, Option.map_eq_some_iff]
      constructor
      · rintro ⟨front, cut, same⟩
        cases same
        exact cut
      · exact fun cut => ⟨collection, cut, rfl⟩
    | metadata =>
      constructor
      · intro h
        obtain ⟨front, -, same⟩ := Option.map_eq_some_iff.mp h
        simp at same
      · intro same
        have again : withoutSuffix? metadataSuffix name = some collection :=
          withoutSuffix?_eq_some_iff.mpr same
        rw [ends] at again
        simp at again

/-! ### Intents of files -/

theorem Intent.isOplog_iff {intent : Intent} :
    intent.isOplog = true ↔ intent.database = "" ∧ intent.collection = Intent.oplogCollection := by
  simp [isOplog]

namespace FileKind

/-- The intent of a file of a kind. Only the size of data is of interest. -/
def intent (kind : FileKind) (database collection path : String) (size : Int64) : Intent :=
  match kind with
  | .data => { Intent.new database collection with dataPath := some path, size := size }
  | .metadata => { Intent.new database collection with metadataPath := some path }

variable (kind : FileKind) (database collection path : String) (size : Int64)

@[simp] theorem database_intent :
    (kind.intent database collection path size).database = database := by
  cases kind <;> rfl

@[simp] theorem collection_intent :
    (kind.intent database collection path size).collection = collection := by
  cases kind <;> rfl

@[simp] theorem file_intent : (kind.intent database collection path size).file = none := by
  cases kind <;> rfl

@[simp] theorem dataPath_intent : (kind.intent database collection path size).dataPath =
    if kind = .data then some path else none := by
  cases kind <;> rfl

@[simp] theorem metadataPath_intent : (kind.intent database collection path size).metadataPath =
    if kind = .metadata then some path else none := by
  cases kind <;> rfl

@[simp] theorem dataSize?_intent : (kind.intent database collection path size).dataSize? =
    if kind = .data then some size else none := by
  cases kind <;> rfl

@[simp] theorem size_intent :
    (kind.intent database collection path size).size = if kind = .data then size else 0 := by
  cases kind <;> rfl

end FileKind

namespace DumpTree

variable {Node : Type} {tree : DumpTree Node} {node : Node}

theorem intentOf?_of_name {collection : String} {kind : FileKind}
    (named : tree.name node = collection ++ kind.suffix) (full : collection ≠ "")
    (database : String) :
    tree.intentOf? database node =
      some (kind.intent database collection (tree.path node) (tree.size node)) := by
  have nonempty : collection.isEmpty = false := by simpa using full
  rw [intentOf?, FileKind.ofName?_eq_some_iff.mpr named]
  dsimp only
  rw [nonempty, if_neg (by simp)]
  cases kind <;> rfl

theorem intentOf?_eq_some_iff {database : String} {intent : Intent} :
    tree.intentOf? database node = some intent ↔ ∃ collection kind,
      tree.name node = collection ++ FileKind.suffix kind ∧ collection ≠ "" ∧
        intent = kind.intent database collection (tree.path node) (tree.size node) := by
  constructor
  · intro h
    cases name : FileKind.ofName? (tree.name node) with
    | none => simp [intentOf?, name] at h
    | some found =>
      obtain ⟨collection, kind⟩ := found
      have named := FileKind.ofName?_eq_some_iff.mp name
      by_cases full : collection = ""
      · simp [intentOf?, name, full] at h
      · rw [intentOf?_of_name named full, Option.some.injEq] at h
        exact ⟨collection, kind, named, full, h.symm⟩
  · rintro ⟨collection, kind, named, full, rfl⟩
    exact intentOf?_of_name named full database

end DumpTree

/-! ### Steps that do not fail -/

/-- Steps that do not fail give what their results come to in turn, and report what they report one
after another. -/
theorem Logged.foldlM_eq {α σ : Type} {step : σ → α → Logged σ} {events : α → List Event}
    {next : σ → α → σ} {l : List α}
    (h : ∀ a ∈ l, ∀ state, step state a = ⟨events a, .ok (next state a)⟩) (state : σ) :
    l.foldlM step state = ⟨l.flatMap events, .ok (l.foldl next state)⟩ := by
  induction l generalizing state with
  | nil => rfl
  | cons a l ih =>
    have later := ih (fun b member => h b (List.mem_cons_of_mem _ member)) (next state a)
    rw [List.foldlM_cons, h a (List.mem_cons_self ..)]
    show Logged.mk (events a ++ (l.foldlM step (next state a)).events)
      (l.foldlM step (next state a)).outcome = _
    rw [later]
    rfl

theorem Logged.eq_of_outcome {α : Type} {made : Logged α} {a : α} (h : made.outcome = .ok a) :
    made = ⟨made.events, .ok a⟩ := by
  rw [← h]

theorem Logged.exists_of_foldlM {α σ : Type} {step : σ → α → Logged σ} {l : List α}
    {state last : σ} (h : (l.foldlM step state).outcome = .ok last) :
    ∀ a ∈ l, ∃ before after, (step before a).outcome = .ok after := by
  induction l generalizing state with
  | nil => simp
  | cons a l ih =>
    rw [List.foldlM_cons, outcome_bind, bind_eq_ok_iff] at h
    obtain ⟨after, first, rest⟩ := h
    rw [List.forall_mem_cons]
    exact ⟨⟨state, after, first⟩, ih rest⟩

namespace DumpTree

variable {Node : Type} (tree : DumpTree Node)

/-- The intents of a node in the directory of a database. -/
def foundIn (database : String) (node : Node) : List Intent :=
  if tree.isDirectory node then [] else (tree.intentOf? database node).toList

/-- The intents of a node at the top level, where `below` lists the nodes in a directory. -/
def foundAtTop (below : Node → List Node) (node : Node) : List Intent :=
  if tree.isDirectory node then (below node).flatMap (tree.foundIn (tree.name node))
  else ((tree.intentOf? "" node).filter Intent.isOplog).toList

/-- What is reported of a node in the directory of a database, if it is passed over. -/
def skippedIn (database : String) (node : Node) : List Event :=
  if tree.isDirectory node then [.nestedDirectory (tree.path node)]
  else if (tree.intentOf? database node).isSome then [] else [.unknownFile (tree.path node)]

/-- What is reported of a node at the top level, and of what is passed over in it. -/
def skippedAtTop (below : Node → List Node) (node : Node) : List Event :=
  if tree.isDirectory node then (below node).flatMap (tree.skippedIn (tree.name node))
  else if ((tree.intentOf? "" node).filter Intent.isOplog).isSome then []
  else [.strayFile (tree.path node)]

theorem planInDatabase_eq (database : String) (plan : Plan) (node : Node) :
    tree.planInDatabase database plan node =
      ⟨tree.skippedIn database node, .ok (plan.putAll (tree.foundIn database node))⟩ := by
  rw [planInDatabase, skippedIn, foundIn]
  by_cases directory : tree.isDirectory node = true
  · rw [if_pos directory, if_pos directory, if_pos directory]
    rfl
  · rw [if_neg directory, if_neg directory, if_neg directory]
    cases tree.intentOf? database node with
    | none => rfl
    | some intent => rfl

theorem planAtTop_eq {below : Node → List Node} {node : Node}
    (listed : tree.isDirectory node = true → tree.children node = .ok (below node)) (plan : Plan) :
    tree.planAtTop plan node =
      ⟨tree.skippedAtTop below node, .ok (plan.putAll (tree.foundAtTop below node))⟩ := by
  rw [planAtTop, skippedAtTop, foundAtTop]
  by_cases directory : tree.isDirectory node = true
  · rw [if_pos directory, if_pos directory, if_pos directory, listed directory, Plan.putAll,
      List.foldl_flatMap]
    exact Logged.foldlM_eq (fun a _ state => tree.planInDatabase_eq _ state a) plan
  · rw [if_neg directory, if_neg directory, if_neg directory]
    cases (tree.intentOf? "" node).filter Intent.isOplog with
    | none => rfl
    | some intent => rfl

/-- **A walk whose directories can be listed puts the intents of all that it finds into the plan in
turn**, and reports what it passes over. -/
theorem planFrom_eq (below : Node → List Node) {node : Node} {nodes : List Node}
    (top : tree.children node = .ok nodes)
    (listed : ∀ child ∈ nodes, tree.isDirectory child = true →
      tree.children child = .ok (below child)) :
    tree.planFrom node =
      ⟨nodes.flatMap (tree.skippedAtTop below) ++
          [.planMade (Plan.ofIntents (nodes.flatMap (tree.foundAtTop below))).size],
        .ok (Plan.ofIntents (nodes.flatMap (tree.foundAtTop below)))⟩ := by
  have walk := Logged.foldlM_eq
    (fun child member plan => tree.planAtTop_eq (listed child member) plan) Plan.empty
  have found : nodes.foldl (fun plan child => plan.putAll (tree.foundAtTop below child))
      Plan.empty = Plan.ofIntents (nodes.flatMap (tree.foundAtTop below)) := by
    rw [Plan.ofIntents, Plan.putAll, List.foldl_flatMap]
    rfl
  rw [found] at walk
  rw [planFrom, top]
  show (nodes.foldlM tree.planAtTop Plan.empty >>= _) = _
  rw [walk]
  rfl

theorem outcome_planFrom (below : Node → List Node) {node : Node} {nodes : List Node}
    (top : tree.children node = .ok nodes)
    (listed : ∀ child ∈ nodes, tree.isDirectory child = true →
      tree.children child = .ok (below child)) :
    (tree.planFrom node).outcome =
      .ok (Plan.ofIntents (nodes.flatMap (tree.foundAtTop below))) := by
  rw [tree.planFrom_eq below top listed]

theorem outcome_planFrom_of_error {node : Node} {fault : Fault}
    (top : tree.children node = .error fault) : (tree.planFrom node).outcome = .error fault := by
  rw [planFrom, top, Logged.outcome_bind]
  rfl

end DumpTree

end DumpCatalog
