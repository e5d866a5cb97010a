import DumpCatalog.Bson.Field

/-! # The header of an archive

The first document of an archive names the version of the format and how many collections its
writer streams in parallel. -/

namespace DumpCatalog

/-- The header of an archive. The number of parallel collections is advice only. -/
structure Header where
  version : String
  concurrentCollections : Int32
  deriving DecidableEq, Repr

namespace Header

/-- The version that new headers bear. -/
def currentVersion : String := "0.1"

/-- A header of the current version. -/
def new (concurrentCollections : Int32) : Header := ⟨currentVersion, concurrentCollections⟩

/-- The header as a document. -/
def toDocument (header : Header) : List (String × Bson.Value) :=
  [("version", .string header.version),
    ("concurrent_collections", .int32 header.concurrentCollections)]

/-- The written form of a header. -/
def toBytes (header : Header) : Bytes := Bson.documentBytes header.toDocument

/-- A header of which some fields have been read. -/
structure Draft where
  version : Option String
  concurrentCollections : Option Int32

/-- Takes one element into the draft. -/
def Draft.step (draft : Draft) (e : Bson.Element) : Except Bson.DecodeFault Draft :=
  if e.name = "version" then do
    return { draft with version := ← e.readOnce draft.version Bson.Content.toText }
  else if e.name = "concurrent_collections" then do
    return { draft with
      concurrentCollections := ← e.readOnce draft.concurrentCollections Bson.Content.toInt32 }
  else do
    e.skip
    return draft

/-- The header of a draft, both of whose fields are demanded. -/
def Draft.finish (draft : Draft) : Except Bson.DecodeFault Header := do
  let version ← Bson.demand "version" draft.version
  let concurrentCollections ← Bson.demand "concurrent_collections" draft.concurrentCollections
  return ⟨version, concurrentCollections⟩

/-- The header that a document writes. -/
def ofBytes (doc : Bytes) : Except Bson.DecodeFault Header := do
  (← Bson.readDocument Draft.step ⟨none, none⟩ doc).finish

end Header

end DumpCatalog
