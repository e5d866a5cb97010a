import DumpCatalog.Path

/-! # Arguments of the command line

Options may stand before and after the other arguments. An option is a switch or takes a value; the
value is attached to it or is the next argument, which may then not look like an option itself. An
option comes at most once. Two hyphens end the options. -/

namespace DumpCatalog.Command

/-- An option: its letter, its long name, and whether it takes a value. -/
structure OptionForm where
  letter : Option Char
  name : String
  takesValue : Bool
  deriving DecidableEq, Repr

/-- An option as it was given. -/
structure Given where
  name : String
  value : String
  deriving DecidableEq, Repr

/-- The options and the other arguments that have been gathered, and what is left of the command
line. -/
structure Gathered where
  options : List Given
  operands : List String
  rest : List String
  deriving DecidableEq, Repr

/-- Whether an argument looks like an option. A single hyphen does not. -/
def looksLikeOption (arg : String) : Bool := arg.toList.head? = some '-' && arg != "-"

/-- The text before the first equals sign, and the text behind it if there is one. -/
def splitAtEquals (cs : List Char) : List Char × Option (List Char) :=
  match cs.dropWhile (· != '=') with
  | [] => (cs, none)
  | _ :: value => (cs.takeWhile (· != '='), some value)

/-- What an argument with options gives: options that are complete, and perhaps one that wants the
next argument for its value. -/
structure Opened where
  complete : List Given
  wanting : Option String

/-- The option that a long name and perhaps a value give. -/
def openLong (forms : List OptionForm) (cs : List Char) : Option Opened := do
  let (name, value) := splitAtEquals cs
  let form ← forms.find? (·.name.toList == name)
  match form.takesValue, value with
  | false, none => some ⟨[⟨form.name, ""⟩], none⟩
  | false, some _ => none
  | true, none => some ⟨[], some form.name⟩
  | true, some value => some ⟨[⟨form.name, String.ofList value⟩], none⟩

/-- The options that letters behind a hyphen give. What follows an option with a value is the value,
with or without an equals sign in front. -/
def openLetters (forms : List OptionForm) : List Char → Option Opened
  | [] => some ⟨[], none⟩
  | c :: cs => do
    let form ← forms.find? (·.letter == some c)
    if form.takesValue then
      match cs with
      | [] => some ⟨[], some form.name⟩
      | '=' :: value => some ⟨[⟨form.name, String.ofList value⟩], none⟩
      | value => some ⟨[⟨form.name, String.ofList value⟩], none⟩
    else
      let later ← openLetters forms cs
      some { later with complete := ⟨form.name, ""⟩ :: later.complete }

/-- The options that an argument gives. -/
def openOption (forms : List OptionForm) (arg : String) : Option Opened :=
  match arg.toList with
  | '-' :: '-' :: name => openLong forms name
  | '-' :: letters => openLetters forms letters
  | _ => none

/-- Gathers arguments up to the end of the command line or, when `toOperand`, up to the first
argument that is no option. -/
def gather (forms : List OptionForm) (toOperand : Bool) (found : Gathered) :
    List String → Option Gathered
  | [] => some found
  | arg :: args =>
    if arg = "--" then
      if toOperand then none else some { found with operands := found.operands ++ args }
    else if looksLikeOption arg then
      match openOption forms arg, args with
      | none, _ => none
      | some ⟨complete, none⟩, args =>
        gather forms toOperand { found with options := found.options ++ complete } args
      | some ⟨_, some _⟩, [] => none
      | some ⟨complete, some name⟩, value :: args =>
        if looksLikeOption value then none
        else
          let found := { found with options := found.options ++ complete ++ [⟨name, value⟩] }
          gather forms toOperand found args
    else if toOperand then some { found with rest := arg :: args }
    else gather forms toOperand { found with operands := found.operands ++ [arg] } args

/-- The arguments by these forms, each option at most once. -/
def gatherOnce (forms : List OptionForm) (toOperand : Bool) (args : List String) :
    Option Gathered := do
  let gathered ← gather forms toOperand ⟨[], [], []⟩ args
  if (gathered.options.map (·.name)).Nodup then some gathered else none

/-- The value of an option. -/
def Gathered.value? (gathered : Gathered) (name : String) : Option String :=
  (gathered.options.find? (·.name = name)).map (·.value)

/-- Whether a switch was given. -/
def Gathered.has (gathered : Gathered) (name : String) : Bool := (gathered.value? name).isSome

/-! ### Values -/

/-- A path, which may not be empty. -/
def path? (text : String) : Option String := if text.isEmpty then none else some text

/-- The number that digits write; there has to be at least one. -/
def natural? (cs : List Char) : Option Nat :=
  if cs.isEmpty || !cs.all Char.isDigit then none
  else some (cs.foldl (fun n c => 10 * n + (c.toNat - '0'.toNat)) 0)

/-- A whole number with or without a sign. -/
def integer? (text : String) : Option Int :=
  match text.toList with
  | '+' :: cs => (natural? cs).map Int.ofNat
  | '-' :: cs => (natural? cs).map fun n => -Int.ofNat n
  | cs => (natural? cs).map Int.ofNat

/-- A whole number of 32 bits. -/
def int32? (text : String) : Option Int32 := do
  let n ← integer? text
  if Int32.minValue.toInt ≤ n ∧ n ≤ Int32.maxValue.toInt then some (Int32.ofInt n) else none

end DumpCatalog.Command
