import DumpCatalog.Source

/-! # The magic number

The four bytes by which an archive is known. -/

namespace DumpCatalog

/-- The number at the front of every archive. -/
def magicNumber : UInt32 := 0x8199E26D

/-- The bytes at the front of every archive. -/
def magicBytes : Bytes := Bytes.ofUInt32 magicNumber

/-- Takes the magic number off a source; of other bytes, too, only four are taken. -/
def readMagic (source : Source) : Except Fault Unit × Source :=
  match source.takeExactly 4 with
  | (.error fault, later) => (.error (.io fault), later)
  | (.ok bs, later) =>
    let found := Bytes.toUInt32 bs
    (if found = magicNumber then .ok () else .error (.formatMismatch found), later)

end DumpCatalog
