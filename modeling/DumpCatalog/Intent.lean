import DumpCatalog.MetadataFile

/-! # Intents

What is known of one collection that is to be dumped or restored: where its data and its metadata
are, how large the data is, and a file to read the metadata from. Two intents for the same namespace
are merged, and what the later one knows wins. -/

namespace DumpCatalog

/-- One collection to be dumped or restored. -/
structure Intent where
  database : String
  collection : String
  dataPath : Option String
  metadataPath : Option String
  size : Int64
  file : Option MetadataFile
  deriving DecidableEq, Repr

namespace Intent

/-- The collection that logs operations; it has no database. -/
def oplogCollection : String := "oplog"

/-- An intent of which only the names are known. -/
def new (database collection : String) : Intent := ⟨database, collection, none, none, 0, none⟩

/-- The printed name of the namespace. -/
def fullName (intent : Intent) : String := namespaceOf intent.database intent.collection

/-- Whether the intent is for the log of operations. -/
def isOplog (intent : Intent) : Bool :=
  intent.database.isEmpty && intent.collection == oplogCollection

/-- The intent with what another one knows. The size goes with the data. -/
def merge (intent later : Intent) : Intent :=
  { intent with
    dataPath := later.dataPath.or intent.dataPath
    size := if later.dataPath.isSome then later.size else intent.size
    metadataPath := later.metadataPath.or intent.metadataPath
    file := later.file.or intent.file }

/-- A path that may be unknown, spelled out. -/
def pathDetail : Option String → String
  | none => "None"
  | some path => "Some(" ++ Text.quoted path ++ ")"

/-- The intent with its parts spelled out; of the file, whether there is one. -/
def detail (intent : Intent) : String :=
  "Intent \x7b db: " ++ Text.quoted intent.database ++
    ", collection: " ++ Text.quoted intent.collection ++
    ", bson_path: " ++ pathDetail intent.dataPath ++
    ", metadata_path: " ++ pathDetail intent.metadataPath ++
    ", size: " ++ toString intent.size.toInt ++
    ", metadata_file: " ++ (if intent.file.isSome then "true" else "false") ++ " \x7d"

@[simp] theorem fullName_merge (intent later : Intent) :
    (intent.merge later).fullName = intent.fullName := rfl

end Intent

end DumpCatalog
