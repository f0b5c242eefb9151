import ApkArchive.Alignment.Check
import ApkArchive.CommandLine.Arguments
import ApkArchive.CommandLine.Files
import ApkArchive.Signing.PassThrough

/-!
# The program

The program aligns an archive with the engine that signs nothing, or checks the alignment of one.
What it does to files it does through a `Host`, so that it can be run on any.

The aligned archive goes into a temporary file beside the output, which takes the place of the
output when it is complete. If anything goes wrong the temporary file is removed.
-/

namespace ApkArchive.CommandLine

open Signing

/-- What the program has said: its results, and its log. -/
structure Transcript where
  results : String := ""
  log : String := ""
  deriving DecidableEq, Repr

/-- A part of the program; a failure ends the program and keeps what has been said. -/
abbrev Program (m : Type → Type) := ExceptT Failure (StateT Transcript m)

namespace Program

variable {m : Type → Type} [Monad m]

/-- Prints a result, unless the program is to be quiet. -/
def print (options : Options) (text : String) : Program m Unit :=
  if options.quiet then pure ()
  else modify fun transcript => { transcript with results := transcript.results ++ text }

/-- Puts a notice into the log, if the log shows notices of its level. -/
def note (options : Options) (notice : Notice) : Program m Unit :=
  if options.logLevel.shows notice.level then
    modify fun transcript => { transcript with log := transcript.log ++ notice.line }
  else pure ()

/-- Goes on with the result of an operation, or fails. -/
def require (blame : ε → Failure) : Except ε α → Program m α
  | .ok a => pure a
  | .error error => throw (blame error)

/-- Performs an operation on files. -/
def perform (blame : StorageFault → Failure) (operation : m (Except StorageFault α)) :
    Program m α := do
  require blame (← operation)

/-- The failure of an operation on files that the library carries out. -/
def storageFailure (fault : StorageFault) : Failure := (Error.storage fault).failure

/-- The input as a view. A file that is mapped into memory is contiguous, and is taken to stay as it
is: what a machine does with a mapping whose file is cut is not said here. -/
def view (options : Options) (input : OpenFile m) (contents : ByteArray) : View :=
  .ofStore { Store.ofFile input.size contents with contiguous := !options.noMmap }

/-- What is said about the alignment of an entry. -/
def verdict (placement : Alignment.Placement) : String :=
  if placement.compressed then "OK - compressed"
  else if placement.isAligned then "OK"
  else s!"BAD - {placement.excess}"

/-- Whether the data of an entry is in the wrong place. -/
def isMisplaced (placement : Alignment.Placement) : Bool :=
  !placement.compressed && !placement.isAligned

/-- Checks the alignment of an archive. -/
def check (options : Options) (input : OpenFile m) : Program m Unit := do
  let contents ← perform storageFailure input.contents
  let apk := view options input contents
  let sections ← require Error.failure (Sections.locate apk)
  if let some flaw := sections.flaw? then note options (.blockIgnored flaw)
  let placements ← require Error.failure (Alignment.placements apk sections options.alignment)
  print options s!"Verifying alignment of {options.input} ({options.alignment})...\n"
  placements.forM fun placement =>
    print options
      s!"{Column.right 8 (toString placement.dataOffset)} {placement.name} ({verdict placement})\n"
  let misplaced := placements.countP isMisplaced
  if misplaced ≠ 0 then
    let summary := s!"Verification FAILED: {misplaced} of {placements.length} entries unaligned"
    throw { error := summary }
  print options "Verification successful\n"

/-- Writes the aligned archive to the temporary file. -/
def write (host : Host m) (options : Options) (input : OpenFile m) (temporary : String) :
    Program m Unit := do
  perform (fun fault => (storageFailure fault).within s!"Failed to create {temporary}")
    (host.createFile temporary)
  let contents ← perform storageFailure input.contents
  let engine := PassThrough.engine options.stripSignatures
  let start : Session Bool := { engine := false }
  match (sign engine options.config (view options input contents)).run start with
  | .error error session =>
    session.notices.forM (note options)
    throw error.failure
  | .ok summary session =>
    session.notices.forM (note options)
    perform storageFailure (host.writeFile temporary session.output.contents)
    print options <|
      s!"{options.input}: {summary.copied} entries, {summary.realigned} re-aligned, " ++
        s!"{summary.skipped} stripped, {summary.outputSize} bytes\n"
    if session.engine then note options .blockDropped

/-- The path of the temporary file beside the output. -/
def temporaryFor (output : String) : String := String.ofList (Path.temporary output.toList)

/-- Writes the aligned archive to the output. -/
def align (host : Host m) (options : Options) (input : OpenFile m) (output : String) :
    Program m Unit := do
  if !options.force && (← host.pathExists output) then
    throw { error := s!"{output} exists (use -f to overwrite)" }
  let temporary := temporaryFor output
  let blame (fault : StorageFault) : Failure :=
    { error := s!"Failed to move output into place at {output}", causes := [fault.message] }
  tryCatch
    (do
      write host options input temporary
      perform blame (host.renameFile temporary output))
    (fun failure => do
      host.removeFile temporary
      throw failure)

/-- Opens the input. -/
def openInput (host : Host m) (options : Options) : Program m (OpenFile m) := do
  let blame (fault : StorageFault) : Failure :=
    (storageFailure fault).within s!"Failed to open {options.input}"
  let input ← perform blame (host.openFile options.input)
  if !options.noMmap && !input.mappable then throw (blame .notMappable)
  return input

/-- Does what the options say. -/
def execute (host : Host m) (options : Options) : Program m Unit := do
  let input ← openInput host options
  match options.check, options.output with
  | false, some output => align host options input output
  | _, _ => check options input

end Program

/-- How the program ends, and what it has said. -/
structure Report where
  code : UInt32 := 0
  results : String := ""
  log : String := ""
  deriving DecidableEq, Repr

/-- The causes of a failure as the program reports them. Several causes are numbered. -/
def reportCauses : List String → String
  | [] => ""
  | [cause] => s!"\nCaused by:\n    {cause}\n"
  | causes =>
    let lines := causes.zipIdx.map fun ((cause, i) : String × Nat) =>
      s!"{Column.right 5 (toString i)}: {cause}\n"
    "\nCaused by:\n" ++ String.join lines

/-- A failure as the program reports it in the end. -/
def report (failure : Failure) : String :=
  s!"Error: {failure.error}\n{reportCauses failure.causes}"

/-- How the program is to be called. -/
def usage : String :=
  "Usage: apkzip [OPTIONS] <INPUT> [OUTPUT]\n\n" ++
  "Options:\n" ++
  "  -a, --align <N>           alignment of stored data in bytes, 0 for none (default 4)\n" ++
  "  -p, --preserve-alignment  leave entries alone that were not aligned in INPUT\n" ++
  "      --size-align <N>      pad the comment so that the size is a multiple of N\n" ++
  "  -s, --strip-signatures    drop the files of a JAR signature\n" ++
  "  -c, --check               check the alignment of INPUT and write nothing\n" ++
  "  -f, --force               replace OUTPUT if it exists\n" ++
  "      --no-mmap             do not map INPUT into memory\n" ++
  "  -v                        more log messages; may be repeated\n" ++
  "  -q                        no messages but errors\n" ++
  "  -h, --help                show this text\n" ++
  "  -V, --version             show the version\n"

/-- Runs the program with the given arguments. -/
def run {m : Type → Type} [Monad m] (host : Host m) (arguments : List String) : m Report := do
  match Options.parse arguments with
  | .error .help => return { results := usage }
  | .error .version => return { results := "apkzip 0.1.0\n" }
  | .error (.misuse misuse) =>
    return { code := 2, log := s!"error: {misuse.message}\n\n{usage}" }
  | .ok options =>
    match ← ((Program.execute host options).run).run {} with
    | (.ok (), said) => return { results := said.results, log := said.log }
    | (.error failure, said) =>
      return { code := 1, results := said.results, log := said.log ++ report failure }

end ApkArchive.CommandLine
