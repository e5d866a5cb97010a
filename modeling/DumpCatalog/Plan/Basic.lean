import DumpCatalog.Intent

/-! # Plans

A plan has one intent for each namespace, in the order in which the namespaces were first put into
it. The main statement says what the namespaces of a plan are once one more intent is put into
it. -/

namespace DumpCatalog

/-- Intents for distinct namespaces. -/
structure Plan where
  intents : List Intent
  deriving DecidableEq, Repr

/-- Merges an intent into the one for its namespace, or sets it behind the others. -/
def mergeInto (intents : List Intent) (intent : Intent) : List Intent :=
  match intents with
  | [] => [intent]
  | first :: later =>
    if first.fullName = intent.fullName then first.merge intent :: later
    else first :: mergeInto later intent

/-- The namespaces stay as they are when the intent's is among them, and else it stands behind
them. -/
theorem map_fullName_mergeInto (intents : List Intent) (intent : Intent) :
    (mergeInto intents intent).map Intent.fullName =
      if intent.fullName ∈ intents.map Intent.fullName then intents.map Intent.fullName
      else intents.map Intent.fullName ++ [intent.fullName] := by
  induction intents with
  | nil => simp [mergeInto]
  | cons first later ih =>
    rw [mergeInto]
    by_cases same : first.fullName = intent.fullName
    · simp [same]
    · rw [if_neg same, List.map_cons, ih]
      by_cases known : intent.fullName ∈ later.map Intent.fullName
      · rw [if_pos known, if_pos (by rw [List.map_cons]; exact List.mem_cons_of_mem _ known)]
        rfl
      · have absent : intent.fullName ∉ (first :: later).map Intent.fullName := by
          rw [List.map_cons, List.mem_cons, not_or]
          exact ⟨Ne.symm same, known⟩
        rw [if_neg known, if_neg absent]
        rfl

namespace Plan

/-- The plan without intents. -/
def empty : Plan := ⟨[]⟩

/-- The plan with an intent put into it. -/
def put (plan : Plan) (intent : Intent) : Plan := ⟨mergeInto plan.intents intent⟩

/-- The position of the intent for a namespace. -/
def position? (plan : Plan) (fullName : String) : Option Nat :=
  plan.intents.findIdx? (·.fullName = fullName)

/-- The intent for a namespace. -/
def get? (plan : Plan) (fullName : String) : Option Intent :=
  plan.intents.find? (·.fullName = fullName)

/-- The number of intents. -/
def size (plan : Plan) : Nat := plan.intents.length

/-- Whether there are no intents. -/
def isEmpty (plan : Plan) : Bool := plan.intents.isEmpty

/-- The plan with the metadata file of one namespace exchanged. -/
def setFile (plan : Plan) (fullName : String) (file : Option MetadataFile) : Plan :=
  ⟨plan.intents.map fun intent =>
    if intent.fullName = fullName then { intent with file := file } else intent⟩

/-- Reads the whole metadata text of a namespace, if its intent has a file. -/
def readMetadata (system : Disk) (plan : Plan) (fullName : String) :
    Option (Except Fault String) × Plan :=
  match (plan.get? fullName).bind Intent.file with
  | none => (none, plan)
  | some file =>
    let (text, later) := file.readWhole system
    (some text, plan.setFile fullName (some later))

end Plan

end DumpCatalog
