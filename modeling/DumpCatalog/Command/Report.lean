import DumpCatalog.Catalog.Basic
import DumpCatalog.DumpTree
import DumpCatalog.Text.Column

/-! # Reports

The texts that the commands print, line by line. -/

namespace DumpCatalog.Report

/-- Lines as they are printed. -/
def lines (texts : List String) : String := String.join (texts.map (· ++ "\n"))

/-- A line of a listing in two columns. -/
def listedLine (path size : String) : String := Text.padRight 48 path ++ " " ++ Text.padLeft 12 size

/-- A listing, in which directories end in a separator. -/
def listing (listed : List Listed) : String :=
  lines (listedLine "Path" "Size" :: listed.map fun line =>
    listedLine (if line.isDirectory then line.path ++ "/" else line.path)
      (toString line.size.toInt))

/-- The number of namespaces in words. -/
def namespaces (n : Nat) : String := toString n ++ " namespace(s)"

/-- The line of a database. -/
def databaseLine (catalog : Catalog) (database : String) : String :=
  let label := if database.isEmpty then "(top level)" else database
  let count := ((catalog.recordsIn? database).map List.length).getD 0
  "    " ++ Text.padRight 24 label ++ " " ++ namespaces count

/-- The header of a catalog and its databases. -/
def summary (source : String) (catalog : Catalog) : String :=
  lines ([
    "── Dump archive ─────────────────────────────────────────",
    "  Source                 " ++ source,
    "  Format version         " ++ catalog.header.version,
    "  Concurrent collections " ++ toString catalog.header.concurrentCollections.toInt,
    "  Namespaces             " ++ toString catalog.size,
    "  Databases (" ++ toString catalog.databases.length ++ "):"] ++
    catalog.databases.map (databaseLine catalog))

/-- What is said after packing. -/
def packed (directory : String) (count : Nat) : String :=
  "  " ++ namespaces count ++ " from " ++ directory

end DumpCatalog.Report
