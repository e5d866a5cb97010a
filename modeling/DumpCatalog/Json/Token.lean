import DumpCatalog.Json.Number

/-! # Tokens of a JSON text

A text is cut into tokens character by character. A scanner holds the tokens that are done and the
one that is still open: a word, which is a number or a literal, or a string, whose characters are
kept as code points so that an escaped pair of surrogates can be put together at its end. -/

namespace DumpCatalog.Json

/-- A token. -/
inductive Token where
  | openObject
  | closeObject
  | openArray
  | closeArray
  | comma
  | colon
  | null
  | boolean (value : Bool)
  | number (value : Number)
  | text (text : String)
  deriving DecidableEq, Repr

namespace Token

/-- A token that is a character of its own. -/
def ofPunctuation? (c : Char) : Option Token :=
  if c = '\x7b' then some openObject
  else if c = '\x7d' then some closeObject
  else if c = '[' then some openArray
  else if c = ']' then some closeArray
  else if c = ',' then some comma
  else if c = ':' then some colon
  else none

/-- The literal or number that a word is. -/
def ofWord? (word : List Char) : Option Token :=
  if word = "null".toList then some null
  else if word = "true".toList then some (boolean true)
  else if word = "false".toList then some (boolean false)
  else (Number.ofText? word).map number

/-- Characters that words consist of. -/
def isWordChar (c : Char) : Bool := c.isAlphanum || c = '+' || c = '-' || c = '.'

/-- Blanks between tokens. -/
def isBlank (c : Char) : Bool := c = ' ' || c = '\t' || c = '\n' || c = '\r'

/-! ### Strings -/

/-- The value of a digit in base sixteen. -/
def hexValue? (c : Char) : Option Nat :=
  if c.isDigit then some (c.toNat - '0'.toNat)
  else if 'a' ≤ c ∧ c ≤ 'f' then some (c.toNat - 'a'.toNat + 10)
  else if 'A' ≤ c ∧ c ≤ 'F' then some (c.toNat - 'A'.toNat + 10)
  else none

/-- The code point of an escape of one letter. -/
def escaped? (c : Char) : Option Nat :=
  if c = '"' ∨ c = '\\' ∨ c = '/' then some c.toNat
  else if c = 'b' then some 0x08
  else if c = 'f' then some 0x0C
  else if c = 'n' then some 0x0A
  else if c = 'r' then some 0x0D
  else if c = 't' then some 0x09
  else none

/-- Whether a number is the first half of a pair of surrogates. -/
def isHighSurrogate (n : Nat) : Bool := 0xD800 ≤ n && n < 0xDC00

/-- Whether a number is the second half of a pair of surrogates. -/
def isLowSurrogate (n : Nat) : Bool := 0xDC00 ≤ n && n < 0xE000

/-- The characters of code points from last to first, put in front of `later`. Surrogates have to
come in pairs. -/
def joinPairs (later : List Char) : List Nat → Option (List Char)
  | [] => some later
  | [n] => if isHighSurrogate n || isLowSurrogate n then none else some (Char.ofNat n :: later)
  | low :: high :: points =>
    if isLowSurrogate low then
      if isHighSurrogate high then
        joinPairs (Char.ofNat (0x10000 + (high - 0xD800) * 0x400 + (low - 0xDC00)) :: later) points
      else none
    else if isHighSurrogate low then none
    else joinPairs (Char.ofNat low :: later) (high :: points)

/-! ### Scanning -/

/-- The token that is still open. Characters stand in reverse order. -/
inductive Pending where
  | nothing
  | word (reversed : List Char)
  | text (reversed : List Nat)
  | escape (reversed : List Nat)
  | hex (reversed : List Nat) (digits value : Nat)
  deriving Repr

/-- The tokens that are done, in reverse order, and the one that is open. -/
structure Scanner where
  done : List Token
  pending : Pending
  deriving Repr

namespace Scanner

/-- Takes a character between tokens. -/
def begin (scanner : Scanner) (c : Char) : Option Scanner :=
  if isBlank c then some { scanner with pending := .nothing }
  else if c = '"' then some { scanner with pending := .text [] }
  else if isWordChar c then some { scanner with pending := .word [c] }
  else (ofPunctuation? c).map fun token => ⟨token :: scanner.done, .nothing⟩

/-- Ends an open word. -/
def endWord (scanner : Scanner) (reversed : List Char) : Option Scanner :=
  (ofWord? reversed.reverse).map fun token => ⟨token :: scanner.done, .nothing⟩

/-- Takes a character. -/
def step (scanner : Scanner) (c : Char) : Option Scanner :=
  match scanner.pending with
  | .nothing => scanner.begin c
  | .word reversed =>
    if isWordChar c then some { scanner with pending := .word (c :: reversed) }
    else (scanner.endWord reversed).bind fun scanner => scanner.begin c
  | .text reversed =>
    if c = '"' then
      (joinPairs [] reversed).map fun cs => ⟨.text (String.ofList cs) :: scanner.done, .nothing⟩
    else if c = '\\' then some { scanner with pending := .escape reversed }
    else if c.toNat < 0x20 then none
    else some { scanner with pending := .text (c.toNat :: reversed) }
  | .escape reversed =>
    if c = 'u' then some { scanner with pending := .hex reversed 0 0 }
    else (escaped? c).map fun n => { scanner with pending := .text (n :: reversed) }
  | .hex reversed digits value =>
    (hexValue? c).map fun d =>
      let value := 16 * value + d
      { scanner with
        pending := if digits = 3 then .text (value :: reversed)
          else .hex reversed (digits + 1) value }

/-- The tokens, when none is open in the middle. -/
def finish (scanner : Scanner) : Option (List Token) :=
  match scanner.pending with
  | .nothing => some scanner.done.reverse
  | .word reversed => (scanner.endWord reversed).map fun scanner => scanner.done.reverse
  | _ => none

end Scanner

/-- The tokens of a text. -/
def ofText? (text : List Char) : Option (List Token) :=
  (text.foldlM Scanner.step ⟨[], .nothing⟩).bind Scanner.finish

end Token

end DumpCatalog.Json
