import DumpCatalog.Bson.Field
import DumpCatalog.Namespace

/-! # Records

What an archive says of one namespace. A record without a collection stands for its database alone;
a record without a database names a collection at the top level. -/

namespace DumpCatalog

/-- The description of one namespace: its metadata text, which may be empty, and the size of its
data in bytes, zero when it is not known. -/
structure Record where
  database : String
  collection : String
  metadata : String
  size : Int64
  deriving DecidableEq, Repr

namespace Record

/-- The printed name of the namespace. -/
def fullName (record : Record) : String := namespaceOf record.database record.collection

/-- The record as a document. -/
def toDocument (record : Record) : List (String × Bson.Value) :=
  [("db", .string record.database), ("collection", .string record.collection),
    ("metadata", .string record.metadata), ("size", .int64 record.size)]

/-- The written form of a record. -/
def toBytes (record : Record) : Bytes := Bson.documentBytes record.toDocument

/-- A record of which some fields have been read. -/
structure Draft where
  database : Option String
  collection : Option String
  metadata : Option String
  size : Option Int64

/-- Takes one element into the draft. -/
def Draft.step (draft : Draft) (e : Bson.Element) : Except Bson.DecodeFault Draft :=
  if e.name = "db" then do
    return { draft with database := ← e.readOnce draft.database Bson.Content.toText }
  else if e.name = "collection" then do
    return { draft with collection := ← e.readOnce draft.collection Bson.Content.toText }
  else if e.name = "metadata" then do
    return { draft with metadata := ← e.readOnce draft.metadata Bson.Content.toText }
  else if e.name = "size" then do
    return { draft with size := ← e.readOnce draft.size Bson.Content.toInt64 }
  else do
    e.skip
    return draft

/-- The record of a draft: its names are demanded, the rest has defaults. -/
def Draft.finish (draft : Draft) : Except Bson.DecodeFault Record := do
  let database ← Bson.demand "db" draft.database
  let collection ← Bson.demand "collection" draft.collection
  return ⟨database, collection, draft.metadata.getD "", draft.size.getD 0⟩

/-- The record that a document writes. -/
def ofBytes (doc : Bytes) : Except Bson.DecodeFault Record := do
  (← Bson.readDocument Draft.step ⟨none, none, none, none⟩ doc).finish

end Record

end DumpCatalog
