import DumpCatalog.Logged
import DumpCatalog.Source

/-! # Blocks

Behind the magic number an archive has documents one after another, each of which begins with its
own length, and then a terminator, which stands where a length would. The first document is the
header, the others are bodies. A `BlockReader` takes one block at a time off a source and never
reads past the terminator. The main statement says that every document it gives makes the source
shorter. -/

namespace DumpCatalog

/-- One unit of the sequence; a document is whole, its length included. -/
inductive Block where
  | header (doc : Bytes)
  | body (doc : Bytes)
  | terminator
  deriving DecidableEq, Repr

namespace Block

/-- The least length of a document: its length and its closing zero. -/
def minSize : Int32 := 5

/-- The greatest length of a document: sixteen megabytes and room for what comes with it. -/
def maxSize : Int32 := 16 * 1024 * 1024 + 16 * 1024

/-- The length that no document has. -/
def terminatorSize : Int32 := -1

/-- The bytes behind the last document. -/
def terminatorBytes : Bytes := Bytes.ofInt32 terminatorSize

theorem terminatorBytes_eq : terminatorBytes = [0xFF, 0xFF, 0xFF, 0xFF] := by decide

end Block

/-- A source of blocks, and what has come from it: the header, and the terminator. -/
structure BlockReader where
  source : Source
  headerSeen : Bool
  ended : Bool
  deriving DecidableEq, Repr

namespace BlockReader

/-- A reader at the front of the sequence. -/
def new (source : Source) : BlockReader := ⟨source, false, false⟩

/-- Gives a document as header or body, by whether the header has been given. -/
def give (reader : BlockReader) (size : Int32) (doc : Bytes) : Logged Block × BlockReader :=
  if reader.headerSeen then (⟨[.bodyBlock size], .ok (.body doc)⟩, reader)
  else (⟨[.headerBlock size], .ok (.header doc)⟩, { reader with headerSeen := true })

/-- Takes the rest of a block whose first four bytes have been taken. -/
def finish (reader : BlockReader) (slot : Bytes) : Logged Block × BlockReader :=
  let size := Bytes.toInt32 slot
  if size = Block.terminatorSize then
    if reader.headerSeen then (⟨[.terminator], .ok .terminator⟩, { reader with ended := true })
    else (.fail .missingHeader, reader)
  else if Block.minSize ≤ size ∧ size ≤ Block.maxSize then
    match reader.source.takeExactly (size.toNatClampNeg - 4) with
    | (.error fault, later) => (.fail (.io fault), { reader with source := later })
    | (.ok rest, later) => { reader with source := later }.give size (slot ++ rest)
  else (.fail (.invalidBlockSize size), reader)

/-- The next block. Once the terminator has come it comes again, and nothing more is read. A fault
leaves the reader as it was, but for the bytes that were taken. -/
def next (reader : BlockReader) : Logged Block × BlockReader :=
  if reader.ended then (pure .terminator, reader)
  else
    let slot := reader.source.fill 4
    let reader := { reader with source := slot.source }
    match slot.stop with
    | .full => reader.finish slot.bytes
    | .ended => (.fail (if slot.bytes = [] then .truncated else .io .tornLength), reader)
    | .failed fault => (.fail (.io fault), reader)

/-! ### Progress -/

theorem source_give (reader : BlockReader) (size : Int32) (doc : Bytes) :
    (reader.give size doc).2.source = reader.source := by
  unfold give; split <;> rfl

theorem rest_takeExactly_le (source : Source) (n : Nat) :
    (source.takeExactly n).2.rest.length ≤ source.rest.length := by
  have := source.length_source_fill_le n
  unfold Source.takeExactly
  dsimp only
  split <;> exact this

theorem rest_finish_le (reader : BlockReader) (slot : Bytes) :
    (reader.finish slot).2.source.rest.length ≤ reader.source.rest.length := by
  unfold finish
  dsimp only
  split
  · split <;> exact Nat.le_refl _
  · split
    · have taken := rest_takeExactly_le reader.source ((Bytes.toInt32 slot).toNatClampNeg - 4)
      split
      · next h => rw [h] at taken; exact taken
      · next h => rw [h] at taken; rw [source_give]; exact taken
    · exact Nat.le_refl _

theorem rest_lt_of_next {reader later : BlockReader} {events : List Event} {block : Block}
    (h : reader.next = (⟨events, .ok block⟩, later)) (document : block ≠ .terminator) :
    later.source.rest.length < reader.source.rest.length := by
  unfold next at h
  split at h
  · cases h; exact absurd rfl document
  · dsimp only at h
    split at h
    · next full =>
      have took := Source.length_fill_of_full full
      have split := congrArg List.length (Source.fill_rest reader.source 4)
      have rest := rest_finish_le { reader with source := (reader.source.fill 4).source }
        (reader.source.fill 4).bytes
      rw [h] at rest
      simp only [List.length_append] at split rest
      omega
    · cases h
    · cases h

end BlockReader

end DumpCatalog
