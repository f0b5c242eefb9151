import ApkArchive.Signing.Sign

/-!
# Options of the program

The program aligns an archive or checks its alignment. What it is told on the command line is an
`Options`; a value of that type has an output unless it asks for a check.
-/

namespace ApkArchive.CommandLine

/-- What the program is to do. -/
structure Options where
  input : String
  output : Option String := none
  /-- The boundary for stored data; zero switches alignment off. -/
  alignment : UInt16 := 4
  /-- Leave entries alone that were not aligned in the input. -/
  preserveAlignment : Bool := false
  /-- Pad the comment so that the size of the output is a multiple of this. -/
  sizeAlignment : Option UInt32 := none
  /-- Drop the files of a JAR signature. -/
  stripSignatures : Bool := false
  /-- Check the alignment of the input and write nothing. -/
  check : Bool := false
  /-- Replace the output if it exists. -/
  force : Bool := false
  /-- Read the input with positional reads instead of mapping it into memory. -/
  noMmap : Bool := false
  /-- How often more talk was asked for. -/
  verbosity : Nat := 0
  /-- Say nothing but errors. -/
  quiet : Bool := false
  hasTarget : check = true ∨ output.isSome = true
  deriving DecidableEq, Repr

namespace Options

/-- The least important level that the log shows. -/
def logLevel (options : Options) : Level :=
  if options.quiet then .error
  else
    match options.verbosity with
    | 0 => .warn
    | 1 => .info
    | 2 => .debug
    | _ => .trace

/-- The options of the signing run. -/
def config (options : Options) : Signing.Config where
  alignment := { default := options.alignment, preserve := options.preserveAlignment }
  sizeMultiple := options.sizeAlignment.map UInt32.toNat

end Options
end ApkArchive.CommandLine
