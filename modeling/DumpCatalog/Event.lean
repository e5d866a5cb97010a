/-! # Events

What the library reports while it works. An event has a level, a message, and named fields in
text form. -/

namespace DumpCatalog

/-- How much an event matters. -/
inductive Level where
  | debug
  | info
  | warn
  deriving DecidableEq, Repr

/-- What happened. -/
inductive Event where
  | headerBlock (size : Int32)
  | bodyBlock (size : Int32)
  | terminator
  | catalogRead (version : String) (records : Nat)
  | catalogWritten (records : Nat)
  | recordAdded (database collection : String)
  /-- A file at the top level of a dump tree that is no file of the oplog. -/
  | strayFile (path : String)
  | nestedDirectory (path : String)
  /-- A file in a database's directory that holds neither data nor metadata. -/
  | unknownFile (path : String)
  | planMade (intents : Nat)
  | directoryPacked (directory : String) (records : Nat)
  deriving DecidableEq, Repr

namespace Event

/-- The level of an event. -/
def level : Event → Level
  | headerBlock _ | bodyBlock _ | terminator | catalogRead .. | catalogWritten _ | planMade _ =>
    .debug
  | recordAdded .. | directoryPacked .. => .info
  | strayFile _ | nestedDirectory _ | unknownFile _ => .warn

/-- The message of an event. -/
def message : Event → String
  | headerBlock _ => "header block"
  | bodyBlock _ => "body block"
  | terminator => "block sequence terminator"
  | catalogRead .. => "read archive prelude"
  | catalogWritten _ => "wrote archive prelude"
  | recordAdded .. => "archive prelude"
  | strayFile _ => "skipping unexpected top-level file"
  | nestedDirectory _ => "skipping nested directory"
  | unknownFile _ => "skipping file without a dump extension"
  | planMade _ => "created intents from dump tree"
  | directoryPacked .. => "packed dump directory"

/-- The fields of an event, each with its text. -/
def fields : Event → List (String × String)
  | headerBlock size | bodyBlock size => [("size", toString size.toInt)]
  | terminator => []
  | catalogRead version records => [("version", version), ("namespaces", toString records)]
  | catalogWritten records => [("namespaces", toString records)]
  | recordAdded database collection => [("db", database), ("collection", collection)]
  | strayFile path | nestedDirectory path | unknownFile path => [("path", path)]
  | planMade intents => [("intents", toString intents)]
  | directoryPacked directory records => [("dir", directory), ("namespaces", toString records)]

end Event

end DumpCatalog
