import DumpCatalog.Block
import DumpCatalog.Catalog.Basic
import DumpCatalog.Magic
import DumpCatalog.Sink

/-! # Catalogs as bytes

A catalog is written as the magic number, its header, its records, and the terminator. Reading takes
exactly that off a source and leaves what follows. -/

namespace DumpCatalog.Catalog

/-! ### Writing -/

/-- The pieces of a written catalog, each of which is sent on its own. -/
def pieces (catalog : Catalog) : List Bytes :=
  magicBytes :: catalog.header.toBytes :: catalog.records.map Record.toBytes ++
    [Block.terminatorBytes]

/-- The written form of a catalog. -/
def toBytes (catalog : Catalog) : Bytes := catalog.pieces.flatten

/-- Sends the pieces of a catalog to where it is written, and reports it once all are taken. -/
def writeBy {σ : Type} (catalog : Catalog) (place : σ)
    (send : σ → List Bytes → Except IoFault Unit × σ) : Logged Unit × σ :=
  match send place catalog.pieces with
  | (.error fault, later) => (.fail (.io fault), later)
  | (.ok (), later) => (.report (.catalogWritten catalog.size), later)

/-- Writes a catalog to a sink. -/
def write (catalog : Catalog) (sink : Sink) : Logged Unit × Sink :=
  catalog.writeBy sink Sink.writeAll

/-! ### Reading -/

/-- Takes blocks up to the terminator: a header replaces the catalog's, a body adds a record. -/
def readBlocks (catalog : Catalog) (reader : BlockReader) : Logged Catalog × BlockReader :=
  match h : reader.next with
  | (⟨events, .error fault⟩, later) => (⟨events, .error fault⟩, later)
  | (⟨events, .ok .terminator⟩, later) => (⟨events, .ok catalog⟩, later)
  | (⟨events, .ok (.header doc)⟩, later) =>
    have := BlockReader.rest_lt_of_next h (by simp)
    match Header.ofBytes doc with
    | .error cause => (⟨events, .error (.decode cause)⟩, later)
    | .ok header =>
      let (rest, last) := readBlocks { catalog with header := header } later
      (⟨events ++ rest.events, rest.outcome⟩, last)
  | (⟨events, .ok (.body doc)⟩, later) =>
    have := BlockReader.rest_lt_of_next h (by simp)
    match Record.ofBytes doc with
    | .error cause => (⟨events, .error (.decode cause)⟩, later)
    | .ok record =>
      let added : Event := .recordAdded record.database record.collection
      let (rest, last) := readBlocks (catalog.add record) later
      (⟨events ++ added :: rest.events, rest.outcome⟩, last)
termination_by reader.source.rest.length

/-- Reads a catalog off the front of a source. -/
def read (source : Source) : Logged Catalog × Source :=
  match readMagic source with
  | (.error fault, later) => (.fail fault, later)
  | (.ok (), later) =>
    let (catalog, reader) := readBlocks (new (Header.new 1)) (BlockReader.new later)
    (do
      let catalog ← catalog
      Logged.report (.catalogRead catalog.header.version catalog.size)
      return catalog,
     reader.source)

end DumpCatalog.Catalog
