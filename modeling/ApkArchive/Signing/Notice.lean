import ApkArchive.Text.Terminal
import ApkArchive.Zip.SigningBlock

/-!
# What is worth a line in the log

A `Notice` is something that a run did or saw. Its level, the part of the program that it comes
from and its wording are functions of it.
-/

namespace ApkArchive

/-- How important a notice is, the most important first. -/
inductive Level
  | error
  | warn
  | info
  | debug
  | trace
  deriving DecidableEq, Repr

namespace Level

/-- The place in the order of importance. -/
def rank : Level → Nat
  | error => 1
  | warn => 2
  | info => 3
  | debug => 4
  | trace => 5

def name : Level → String
  | error => "ERROR"
  | warn => "WARN"
  | info => "INFO"
  | debug => "DEBUG"
  | trace => "TRACE"

/-- Whether a log that shows notices up to this level shows one of that level. -/
def shows (filter level : Level) : Bool := level.rank ≤ filter.rank

end Level

namespace Signing

/-- The counts of a finished run. -/
structure Summary where
  /-- Input entries that were copied. -/
  copied : Nat
  /-- Copied entries whose extra field was changed to align their data. -/
  realigned : Nat
  /-- Input entries that were dropped. -/
  skipped : Nat
  /-- Input entries that were dropped because the engine has its own version. -/
  replaced : Nat
  /-- Entries that the engine added. -/
  added : Nat
  /-- The size of the signing block, with the padding before it. -/
  blockSize : Nat
  /-- The size of the output. -/
  outputSize : Nat
  deriving DecidableEq, Repr

/-- Something worth a line in the log. -/
inductive Notice
  | blockIgnored (flaw : SigningBlock.Flaw)
  | inputLocated (entries directory : Nat) (signed : Bool)
  | gapCopied (size offset : Nat)
  | tailCopied (size offset : Nat)
  | dataShown (name : String)
  | signatureStripped (name : String)
  | leftToEngine (name : String)
  | skipped (name : String)
  | aligning (name : String) (alignment : UInt16)
  | copied (name : String) (inputOffset outputOffset data : Nat)
  | added (name : String) (offset : Nat)
  | commentPadded (size multiple : Nat)
  | blockInserted (size padding : Nat)
  | finished (summary : Summary)
  | blockDropped
  deriving DecidableEq, Repr

namespace Notice

def level : Notice → Level
  | blockIgnored _ | blockDropped => .warn
  | finished _ => .info
  | gapCopied .. | tailCopied .. | dataShown _ => .trace
  | _ => .debug

/-- The part of the program that a notice comes from. -/
def target : Notice → String
  | blockIgnored _ => "apkzip::zip::locator"
  | signatureStripped _ => "apkzip::signer::passthrough"
  | blockDropped => "apkzip"
  | _ => "apkzip::signer"

def text : Notice → String
  | blockIgnored (.sizeOutOfRange size) =>
    s!"Ignoring APK Signing Block with size out of range: {size}"
  | blockIgnored (.startsBeforeFile size) =>
    s!"Ignoring APK Signing Block starting before the file: size {size}"
  | blockIgnored (.sizesDiffer header footer) =>
    s!"Ignoring APK Signing Block with mismatched sizes: header {header}, footer {footer}"
  | inputLocated entries directory signed =>
    s!"Input: {entries} entries, Central Directory at {directory}, signing block: {signed}"
  | gapCopied size offset => s!"Copying {size} unprocessed bytes at offset {offset}"
  | tailCopied size offset => s!"Copying {size} trailing bytes at offset {offset}"
  | dataShown name => s!"Feeding {name} to the signing engine"
  | signatureStripped name => s!"Stripping signature entry {name}"
  | leftToEngine name => s!"{name}: left to the signing engine"
  | skipped name => s!"{name}: skipped"
  | aligning name alignment => s!"{name}: aligning data to {alignment} bytes"
  | copied name inputOffset outputOffset data =>
    s!"{name}: copied from {inputOffset} to {outputOffset}, data at {data}"
  | added name offset => s!"{name}: added by the signing engine at {offset}"
  | commentPadded size multiple =>
    s!"Padding EOCD comment by {size} bytes to make output size a multiple of {multiple}"
  | blockInserted size padding =>
    s!"Inserted {size} byte signing block after {padding} bytes of padding"
  | finished summary =>
    s!"Wrote {summary.outputSize} bytes: {summary.copied} entries copied " ++
      s!"({summary.realigned} re-aligned), {summary.skipped} skipped, " ++
      s!"{summary.replaced} replaced, {summary.added} added"
  | blockDropped => "Dropped the input's APK Signing Block; re-sign the output"

/-- A text with four blanks after each line break, so that its further lines stand out. -/
def indented (text : String) : String :=
  String.ofList <| text.toList.flatMap fun c => if c = '\n' then "\n    ".toList else [c]

/-- The entry of a notice in the log. -/
def line (notice : Notice) : String :=
  Terminal.plain s!"[{Column.left 5 notice.level.name} {notice.target}] {indented notice.text}\n"

end Notice
end Signing
end ApkArchive
