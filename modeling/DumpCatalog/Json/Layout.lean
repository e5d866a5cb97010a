import DumpCatalog.Json.Value

/-! # How a JSON value is laid out

Every item and every member stands on a line of its own, two spaces further in than what it belongs
to. Empty arrays and objects stay on one line. -/

namespace DumpCatalog.Json

/-- A digit in base sixteen. -/
def hexDigit (n : Nat) : Char := (Nat.toDigits 16 n).headD '0'

/-- How one character is written in a string. -/
def escapedChar (c : Char) : List Char :=
  if c = '"' then ['\\', '"']
  else if c = '\\' then ['\\', '\\']
  else if c.toNat = 0x08 then ['\\', 'b']
  else if c.toNat = 0x0C then ['\\', 'f']
  else if c = '\n' then ['\\', 'n']
  else if c = '\r' then ['\\', 'r']
  else if c = '\t' then ['\\', 't']
  else if c.toNat < 0x20 then
    ['\\', 'u', '0', '0', hexDigit (c.toNat / 16), hexDigit (c.toNat % 16)]
  else [c]

/-- A string between quotes. -/
def quotedText (text : String) : String :=
  String.ofList ('"' :: text.toList.flatMap escapedChar ++ ['"'])

/-- A new line, indented by so many steps. -/
def newLine (depth : Nat) : String := "\n" ++ String.ofList (List.replicate (2 * depth) ' ')

namespace Value

mutual

/-- A value inside so many others. -/
def layOut (depth : Nat) : Value → String
  | .null => "null"
  | .boolean b => if b then "true" else "false"
  | .number n => n.render
  | .text t => quotedText t
  | .array [] => "[]"
  | .array (item :: items) =>
    "[" ++ newLine (depth + 1) ++ layOut (depth + 1) item ++ layOutItems (depth + 1) items ++
      newLine depth ++ "]"
  | .object [] => "\x7b\x7d"
  | .object ((name, value) :: members) =>
    "\x7b" ++ newLine (depth + 1) ++ quotedText name ++ ": " ++ layOut (depth + 1) value ++
      layOutMembers (depth + 1) members ++ newLine depth ++ "\x7d"

/-- The items behind the first. -/
def layOutItems (depth : Nat) : List Value → String
  | [] => ""
  | item :: items => "," ++ newLine depth ++ layOut depth item ++ layOutItems depth items

/-- The members behind the first. -/
def layOutMembers (depth : Nat) : List (String × Value) → String
  | [] => ""
  | (name, value) :: members =>
    "," ++ newLine depth ++ quotedText name ++ ": " ++ layOut depth value ++
      layOutMembers depth members

end

/-- A value as a document writes it. -/
def render (value : Value) : String := value.layOut 0

end Value

/-- The text with its layout put in order, if it writes a value, and else as it is. -/
def reformat (text : String) : String :=
  match Value.ofText? text with
  | some value => value.render
  | none => text

example : reformat "[1,-0,\"a\"]" = "[\n  1,\n  -0.0,\n  \"a\"\n]" := by decide +kernel

example : reformat "[1,]" = "[1,]" := by decide +kernel

end DumpCatalog.Json
