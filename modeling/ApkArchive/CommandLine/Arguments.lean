import ApkArchive.CommandLine.Options

/-!
# Reading the command line

Arguments are read from left to right. An argument that begins with two dashes names one option;
one that begins with a single dash names options by letters, several in a row; any other is a value
for the option before it, or a positional argument: the input, then the output. After a bare `--`
all arguments are positional.

A value is looked at when the next option or positional argument is complete, or at the end. So of
two mistakes the first is reported, except that an argument which names no option is reported at
once, whatever was wrong with the value before it.
-/

namespace ApkArchive.CommandLine

/-- What takes a value. -/
inductive Slot
  | input
  | output
  | alignment
  | sizeAlignment
  deriving DecidableEq, Repr

/-- What takes no value. -/
inductive Switch
  | preserveAlignment
  | stripSignatures
  | check
  | force
  | noMmap
  | quiet
  deriving DecidableEq, Repr

/-- What is wrong with a command line. -/
inductive Misuse
  /-- The input is missing, or the output without a check. -/
  | missingArgument
  /-- A value is no number, or out of range. -/
  | badValue
  /-- An option without its value, or an empty path. -/
  | emptyValue
  /-- No such option, or one argument too many. -/
  | unknownArgument
  /-- An option is given twice. -/
  | repeatedOption
  /-- A value is attached to an option that takes none. -/
  | unexpectedValue
  deriving DecidableEq, Repr

def Misuse.message : Misuse → String
  | missingArgument => "a required argument is missing"
  | badValue => "a value is no number or out of range"
  | emptyValue => "a value is missing or empty"
  | unknownArgument => "unexpected argument"
  | repeatedOption => "an option is given more than once"
  | unexpectedValue => "an option takes no value"

/-- Why a command line gives no options. -/
inductive Stop
  | help
  | version
  | misuse (misuse : Misuse)
  deriving DecidableEq, Repr

/-- What an option name stands for. -/
inductive Meaning
  | value (slot : Slot)
  | switch (switch : Switch)
  | verbose
  | help
  | version
  deriving DecidableEq, Repr

/-- The long names, without their dashes. -/
def Meaning.ofName? (name : List Char) : Option Meaning :=
  [("align", value .alignment), ("size-align", value .sizeAlignment),
    ("preserve-alignment", switch .preserveAlignment),
    ("strip-signatures", switch .stripSignatures), ("check", switch .check),
    ("force", switch .force), ("no-mmap", switch .noMmap), ("help", help), ("version", version)]
  |>.lookup (String.ofList name)

/-- The letters. -/
def Meaning.ofLetter? (letter : Char) : Option Meaning :=
  [('a', value .alignment), ('p', switch .preserveAlignment), ('s', switch .stripSignatures),
    ('c', switch .check), ('f', switch .force), ('v', verbose), ('q', switch .quiet),
    ('h', help), ('V', version)]
  |>.lookup letter

/-- The number that some decimal digits denote. -/
def natural? (digits : List Char) : Option Nat :=
  if digits.isEmpty || !digits.all Char.isDigit then none
  else some (digits.foldl (fun n digit => 10 * n + (digit.toNat - '0'.toNat)) 0)

/-- The number that decimal digits denote, with or without a sign before them. -/
def integer? : List Char → Option Int
  | '+' :: digits => (natural? digits).map Int.ofNat
  | '-' :: digits => (natural? digits).map fun n => -Int.ofNat n
  | digits => (natural? digits).map Int.ofNat

/-- The number that a text denotes, if it is from zero to below `bound`. -/
def numberBelow? (bound : Nat) (text : String) : Option Nat :=
  match integer? text.toList with
  | some n => if 0 ≤ n ∧ n < bound then some n.toNat else none
  | none => none

example : numberBelow? 65536 "+8" = some 8 ∧ numberBelow? 65536 "65536" = none ∧
    numberBelow? 65536 "-0" = some 0 ∧ numberBelow? 65536 "" = none := by decide

/-- The largest verbosity that is told apart from larger ones. -/
def maxVerbosity : Nat := 255

/-- What has been read of a command line. -/
structure Draft where
  input : Option String := none
  output : Option String := none
  alignment : Option UInt16 := none
  sizeAlignment : Option UInt32 := none
  switches : List Switch := []
  verbosity : Nat := 0
  deriving DecidableEq, Repr

namespace Draft

/-- Whether a slot has its value. -/
def isFilled (draft : Draft) : Slot → Bool
  | .input => draft.input.isSome
  | .output => draft.output.isSome
  | .alignment => draft.alignment.isSome
  | .sizeAlignment => draft.sizeAlignment.isSome

/-- Gives a slot its value. -/
def store (draft : Draft) (value : String) : Slot → Except Misuse Draft
  | .input =>
    if value.isEmpty then .error .emptyValue else .ok { draft with input := some value }
  | .output =>
    if value.isEmpty then .error .emptyValue else .ok { draft with output := some value }
  | .alignment =>
    match numberBelow? UInt16.size value with
    | none => .error .badValue
    | some n => .ok { draft with alignment := some (UInt16.ofNat n) }
  | .sizeAlignment =>
    match numberBelow? UInt32.size value with
    | none => .error .badValue
    | some n => .ok { draft with sizeAlignment := some (UInt32.ofNat n) }

/-- Gives a slot its value, which may be missing; a slot takes one value only. -/
def fill (draft : Draft) (slot : Slot) : (value : Option String) → Except Misuse Draft
  | none => .error .emptyValue
  | some value => if draft.isFilled slot then .error .repeatedOption else draft.store value slot

/-- Turns a switch on, which can be done once. -/
def turnOn (draft : Draft) (switch : Switch) : Except Misuse Draft :=
  if draft.switches.contains switch then .error .repeatedOption
  else .ok { draft with switches := switch :: draft.switches }

/-- Asks for more talk. -/
def raiseVerbosity (draft : Draft) : Draft :=
  { draft with verbosity := min maxVerbosity (draft.verbosity + 1) }

/-- The options, if nothing is missing. -/
def finish (draft : Draft) : Except Misuse Options :=
  match draft.input with
  | none => .error .missingArgument
  | some input =>
    let check := draft.switches.contains .check
    if hasTarget : check = true ∨ draft.output.isSome = true then
      .ok {
        input
        output := draft.output
        alignment := draft.alignment.getD 4
        preserveAlignment := draft.switches.contains .preserveAlignment
        sizeAlignment := draft.sizeAlignment
        stripSignatures := draft.switches.contains .stripSignatures
        check
        force := draft.switches.contains .force
        noMmap := draft.switches.contains .noMmap
        verbosity := draft.verbosity
        quiet := draft.switches.contains .quiet
        hasTarget }
    else .error .missingArgument

end Draft

/-- How far the reading of a command line has come. -/
structure Reading where
  draft : Draft := {}
  /-- A slot whose value has not been looked at, and the value, if it has been read. -/
  pending : Option (Slot × Option String) := none
  /-- How many positional arguments have been read. -/
  positionals : Nat := 0
  /-- Whether only positional arguments can follow. -/
  optionsEnded : Bool := false
  deriving DecidableEq, Repr

namespace Reading

/-- Reports a mistake. -/
def fail (misuse : Misuse) : Except Stop α := .error (.misuse misuse)

/-- Looks at the value that is pending. -/
def settle (reading : Reading) : Except Stop Reading :=
  match reading.pending with
  | none => .ok reading
  | some (slot, value) => do
    let draft ← (reading.draft.fill slot value).mapError Stop.misuse
    return { reading with draft, pending := none }

/-- Reads an option. A value that is not attached is expected in the next argument. -/
def applyOption (reading : Reading) (attached : Option String) : Meaning → Except Stop Reading
  | .value slot => do
    let reading ← reading.settle
    let reading := { reading with pending := some (slot, attached) }
    if attached.isSome then reading.settle else return reading
  | .switch switch => do
    let reading ← reading.settle
    let draft ← (reading.draft.turnOn switch).mapError Stop.misuse
    return { reading with draft }
  | .verbose => do
    let reading ← reading.settle
    return { reading with draft := reading.draft.raiseVerbosity }
  | .help => do
    discard reading.settle
    throw .help
  | .version => do
    discard reading.settle
    throw .version

/-- Reads what follows two dashes. -/
def longOption (reading : Reading) (text : List Char) : Except Stop Reading :=
  let name := text.takeWhile (· ≠ '=')
  let attached := match text.dropWhile (· ≠ '=') with
    | [] => none
    | _ :: value => some (String.ofList value)
  match Meaning.ofName? name with
  | none => fail .unknownArgument
  | some (.value slot) => reading.applyOption attached (.value slot)
  | some meaning =>
    if attached.isSome then fail .unexpectedValue else reading.applyOption none meaning

/-- The value that is attached to a letter; an equals sign may stand before it. -/
def attachedValue? : List Char → Option String
  | [] => none
  | '=' :: value => some (String.ofList value)
  | value => some (String.ofList value)

/-- Reads the letters after one dash. What follows a letter that takes a value is the value. -/
def letters (reading : Reading) : List Char → Except Stop Reading
  | [] => .ok reading
  | letter :: rest =>
    match Meaning.ofLetter? letter with
    | none => fail .unknownArgument
    | some (.value slot) => reading.applyOption (attachedValue? rest) (.value slot)
    | some meaning => do (← reading.applyOption none meaning).letters rest

/-- The slot for a positional argument after so many others. -/
def positionalSlot? : Nat → Option Slot
  | 0 => some .input
  | 1 => some .output
  | _ => none

/-- Reads a positional argument. -/
def positional (reading : Reading) (argument : String) : Except Stop Reading :=
  match positionalSlot? reading.positionals with
  | none => fail .unknownArgument
  | some slot => do
    let reading ← reading.settle
    return { reading with
      pending := some (slot, some argument)
      positionals := reading.positionals + 1 }

/-- Reads an argument that names no option. -/
def plain (reading : Reading) (argument : String) : Except Stop Reading :=
  match reading.pending with
  | some (slot, none) => .ok { reading with pending := some (slot, some argument) }
  | _ => reading.positional argument

/-- Reads an argument. -/
def next (reading : Reading) (argument : String) : Except Stop Reading :=
  if reading.optionsEnded then reading.positional argument
  else
    match argument.toList with
    | ['-', '-'] => .ok { reading with optionsEnded := true }
    | '-' :: '-' :: text => reading.longOption text
    | '-' :: letter :: rest => reading.letters (letter :: rest)
    | _ => reading.plain argument

end Reading

/-- The options that a command line gives. -/
def Options.parse (arguments : List String) : Except Stop Options := do
  let reading ← arguments.foldlM Reading.next {}
  let reading ← reading.settle
  reading.draft.finish.mapError Stop.misuse

end ApkArchive.CommandLine
