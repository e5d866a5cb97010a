import DumpCatalog.Catalog.Stream
import DumpCatalog.Disk.Basic

/-! # Archives on disk

An archive is opened by its path. A directory can be opened like a file, but the first read from it
fails. -/

namespace DumpCatalog.Disk

/-- The bytes of what a path leads to. -/
def openSource (disk : Disk) (path : String) : Except Fault Source :=
  match disk.lookup path with
  | .ok (.file content) => .ok (Source.ofBytes content)
  | .ok (.directory _) => .ok ⟨[], [], .failing (.system .isADirectory)⟩
  | .error fault => .error (.io (.system fault))

/-- The catalog of the archive that a path leads to. -/
def openCatalog (disk : Disk) (path : String) : Logged Catalog := do
  (Catalog.read (← Logged.ofExcept (disk.openSource path))).1

end DumpCatalog.Disk
