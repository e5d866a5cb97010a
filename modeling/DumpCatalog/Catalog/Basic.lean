import DumpCatalog.Header
import DumpCatalog.Logged
import DumpCatalog.Record

/-! # Catalogs

The catalog of an archive is its header and its records in the order in which they were added. The
records are also grouped by database: a group lists the positions of its records, and groups stand
in the order in which their databases were first seen. `Catalog.add` is the only operation that
extends a catalog, and it extends both views. -/

namespace DumpCatalog

/-- The positions of the records of one database, in order. -/
structure Group where
  database : String
  positions : List Nat
  deriving DecidableEq, Repr

/-- The header and the records of an archive, with the records grouped by database. -/
structure Catalog where
  header : Header
  records : List Record
  groups : List Group
  deriving DecidableEq, Repr

/-- Adds a position to the group of a database, which is opened behind the others when there is
none. -/
def addPosition (groups : List Group) (database : String) (position : Nat) : List Group :=
  match groups with
  | [] => [⟨database, [position]⟩]
  | group :: later =>
    if group.database = database then
      { group with positions := group.positions ++ [position] } :: later
    else group :: addPosition later database position

namespace Catalog

/-- A catalog without records. -/
def new (header : Header) : Catalog := ⟨header, [], []⟩

/-- The catalog with one more record behind the others. -/
def add (catalog : Catalog) (record : Record) : Catalog :=
  { catalog with
    records := catalog.records ++ [record]
    groups := addPosition catalog.groups record.database catalog.records.length }

/-- The catalog with these records behind the others, in order. -/
def addAll (catalog : Catalog) (records : List Record) : Catalog := records.foldl add catalog

/-- The catalog of these records. -/
def ofRecords (header : Header) (records : List Record) : Catalog := (new header).addAll records

/-- Adds a record and reports it. -/
def addReported (catalog : Catalog) (record : Record) : Logged Catalog :=
  ⟨[.recordAdded record.database record.collection], .ok (catalog.add record)⟩

/-- The distinct databases in the order in which they were first seen. The empty name is among them
when there are records at the top level. -/
def databases (catalog : Catalog) : List String := catalog.groups.map (·.database)

/-- The group of a database. -/
def group? (catalog : Catalog) (database : String) : Option Group :=
  catalog.groups.find? (·.database = database)

/-- The records of a database in order, if the database is known. -/
def recordsIn? (catalog : Catalog) (database : String) : Option (List Record) :=
  (catalog.group? database).map fun group => group.positions.filterMap (catalog.records[·]?)

/-- The first record of a collection. -/
def find? (catalog : Catalog) (database collection : String) : Option Record :=
  catalog.records.find? fun record =>
    record.database = database && record.collection = collection

/-- The number of records. -/
def size (catalog : Catalog) : Nat := catalog.records.length

/-- Whether there are no records. -/
def isEmpty (catalog : Catalog) : Bool := catalog.records.isEmpty

/-! ### The flat view -/

@[simp] theorem records_new (header : Header) : (new header).records = [] := rfl

@[simp] theorem records_add (catalog : Catalog) (record : Record) :
    (catalog.add record).records = catalog.records ++ [record] := rfl

@[simp] theorem header_add (catalog : Catalog) (record : Record) :
    (catalog.add record).header = catalog.header := rfl

@[simp] theorem records_addAll (catalog : Catalog) (records : List Record) :
    (catalog.addAll records).records = catalog.records ++ records := by
  induction records generalizing catalog with
  | nil => simp [addAll]
  | cons record records ih =>
    have := ih (catalog.add record)
    simpa [addAll] using this

@[simp] theorem header_addAll (catalog : Catalog) (records : List Record) :
    (catalog.addAll records).header = catalog.header := by
  induction records generalizing catalog with
  | nil => rfl
  | cons record records ih => exact ih (catalog.add record)

@[simp] theorem records_ofRecords (header : Header) (records : List Record) :
    (ofRecords header records).records = records := by
  rw [ofRecords, records_addAll, records_new, List.nil_append]

@[simp] theorem header_ofRecords (header : Header) (records : List Record) :
    (ofRecords header records).header = header := by
  rw [ofRecords, header_addAll]
  rfl

end Catalog

end DumpCatalog
