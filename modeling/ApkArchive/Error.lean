/-!
# What can go wrong

An `Error` is a cause, not a text. A `Fault` says what is wrong with the structure of an archive,
a `StorageFault` what is wrong with the place its bytes live in, and a `Failure` is what a signing
engine reports. The wording of each is in its `message`.
-/

namespace ApkArchive

/-- A word in eight hexadecimal digits. -/
def hexWord (word : UInt32) : String :=
  String.ofList <| (List.range 8).map fun i => Nat.digitChar (word.toNat >>> (4 * (7 - i)) % 16)

example : hexWord 0x06054b50 = "06054b50" := by decide

/-- What is wrong with an archive, or with the one that would be written. -/
inductive Fault
  | endRecordNotFound
  | endRecordTooShort (available : Nat)
  | notEndRecord (signature : UInt32)
  /-- An archive comment cannot be this long. -/
  | commentTooLong (size : Nat)
  /-- A count, size or offset holds the value that refers to a ZIP64 record. -/
  | zip64
  | directoryStartOutOfRange (start endRecord : Nat)
  /-- The directory does not end where the end record begins. -/
  | directoryNotContiguous (stop endRecord : Nat)
  | directoryTooLarge (size : Nat)
  | outputDirectoryTooLarge (size : Nat)
  /-- More entries than an end record can count. -/
  | tooManyEntries (count : Nat)
  /-- An offset of the output does not fit into its field. -/
  | outputTooLarge (offset : Nat)
  /-- A signing block is smaller than its own frame. -/
  | signingBlockTooSmall (size : Nat)
  | pairLengthCutOff
  /-- The length of a pair of a signing block is too small, or runs past the block. -/
  | pairLengthOutOfRange (length : Nat)
  | recordHeaderTooShort (available : Nat)
  | notDirectoryRecord (signature : UInt32)
  /-- The name, extra field or comment of a directory record is cut off. -/
  | recordTooShort (needed available : Nat)
  | duplicateName (name : String)
  /-- Bytes follow the last directory record. -/
  | unusedDirectorySpace (size : Nat)
  | nameTooLong (name : String)
  | entryTooLarge (name : String)
  | localHeaderPastDirectory (name : String) (stop directory : Nat)
  | notLocalHeader (name : String) (signature : UInt32)
  /-- Only one of the two headers of an entry announces a data descriptor. -/
  | descriptorMismatch (name : String) (inLocal inDirectory : Bool)
  | checksumMismatch (name : String) (inLocal inDirectory : UInt32)
  | compressedSizeMismatch (name : String) (inLocal inDirectory : UInt32)
  | uncompressedSizeMismatch (name : String) (inLocal inDirectory : UInt32)
  /-- The local name is longer than the name in the directory. -/
  | nameLengthMismatch (name : String) (inLocal inDirectory : Nat)
  | nameMismatch (inLocal inDirectory : String)
  | dataOverlap (name : String) (start stop directory : Nat)
  | descriptorOverlap (name : String) (stop directory : Nat)
  | extraTooLarge (name : String) (size : Nat)
  | corruptStream (name : String)
  | trailingBytes (name : String)
  /-- An entry inflates to a size other than the one in the directory. -/
  | inflatedSizeMismatch (name : String) (expected actual : Nat)
  deriving DecidableEq, Repr

namespace Fault

def message : Fault → String
  | endRecordNotFound => "ZIP End of Central Directory record not found"
  | endRecordTooShort available => s!"End of Central Directory too short: {available} bytes"
  | notEndRecord signature =>
    s!"Not an End of Central Directory record. Signature: 0x{hexWord signature}"
  | commentTooLong size => s!"End of Central Directory comment would grow to {size} bytes"
  | zip64 => "ZIP64 archives are not supported"
  | directoryStartOutOfRange start endRecord =>
    s!"ZIP Central Directory start offset out of range: {start}. " ++
      s!"ZIP End of Central Directory offset: {endRecord}"
  | directoryNotContiguous stop endRecord =>
    "ZIP Central Directory is not immediately followed by End of Central Directory. " ++
      s!"CD end: {stop}, EOCD start: {endRecord}"
  | directoryTooLarge size => s!"Central Directory too large: {size} bytes"
  | outputDirectoryTooLarge size => s!"Output Central Directory too large: {size} bytes"
  | tooManyEntries count => s!"Too many entries for a non-ZIP64 archive: {count}"
  | outputTooLarge offset => s!"Output too large: offset {offset} needs ZIP64"
  | signingBlockTooSmall size => s!"APK Signing Block too small: {size} bytes"
  | pairLengthCutOff => "Insufficient data to read size of APK Signing Block entry"
  | pairLengthOutOfRange length => s!"APK Signing Block entry length out of range: {length}"
  | recordHeaderTooShort available =>
    s!"Input too short. Need at least: 46 bytes, available: {available} bytes"
  | notDirectoryRecord signature =>
    s!"Not a Central Directory record. Signature: 0x{hexWord signature}"
  | recordTooShort needed available =>
    s!"Input too short. Need: {needed} bytes, available: {available} bytes"
  | duplicateName name => s!"Multiple ZIP entries with the same name: {name}"
  | unusedDirectorySpace size => s!"Unused space at the end of ZIP Central Directory: {size} bytes"
  | nameTooLong name => s!"Entry name too long: {name}"
  | entryTooLarge name => s!"Entry {name} too large"
  | localHeaderPastDirectory name stop directory =>
    s!"Local File Header of {name} extends beyond start of Central Directory. " ++
      s!"LFH end: {stop}, CD start: {directory}"
  | notLocalHeader name signature =>
    s!"Not a Local File Header record for entry {name}. Signature: 0x{hexWord signature}"
  | descriptorMismatch name inLocal inDirectory =>
    "Data Descriptor presence mismatch between Local File Header and Central Directory for " ++
      s!"entry {name}. LFH: {inLocal}, CD: {inDirectory}"
  | checksumMismatch name inLocal inDirectory =>
    "CRC-32 mismatch between Local File Header and Central Directory for " ++
      s!"entry {name}. LFH: {inLocal}, CD: {inDirectory}"
  | compressedSizeMismatch name inLocal inDirectory =>
    "Compressed size mismatch between Local File Header and Central Directory for " ++
      s!"entry {name}. LFH: {inLocal}, CD: {inDirectory}"
  | uncompressedSizeMismatch name inLocal inDirectory =>
    "Uncompressed size mismatch between Local File Header and Central Directory for " ++
      s!"entry {name}. LFH: {inLocal}, CD: {inDirectory}"
  | nameLengthMismatch name inLocal inDirectory =>
    s!"Name mismatch between Local File Header and Central Directory for entry {name}. " ++
      s!"LFH: {inLocal} bytes, CD: {inDirectory} bytes"
  | nameMismatch inLocal inDirectory =>
    "Name mismatch between Local File Header and Central Directory. " ++
      s!"LFH: \"{inLocal}\", CD: \"{inDirectory}\""
  | dataOverlap name start stop directory =>
    s!"Local File Header data of {name} overlaps with Central Directory. " ++
      s!"LFH data start: {start}, LFH data end: {stop}, CD start: {directory}"
  | descriptorOverlap name stop directory =>
    s!"Data Descriptor of {name} overlaps with Central Directory. " ++
      s!"Data Descriptor end: {stop}, CD start: {directory}"
  | extraTooLarge name size => s!"Extra field of {name} too large: {size} bytes"
  | corruptStream name => s!"Data of entry {name} malformed: corrupt deflate stream"
  | trailingBytes name =>
    s!"Data of entry {name} malformed: trailing bytes after DEFLATE stream"
  | inflatedSizeMismatch name expected actual =>
    s!"Unexpected size of uncompressed data of {name}. " ++
      s!"Expected: {expected} bytes, actual: {actual} bytes"

end Fault

/-- Where in an archive a fault was found: the number of the directory record, counted from one,
and the offset in the file, as far as they are known. -/
structure Location where
  record : Option Nat := none
  offset : Option Nat := none
  deriving DecidableEq, Repr

/-- Empty for an unknown place; otherwise it begins with a blank. -/
def Location.message : Location → String
  | ⟨some record, some offset⟩ => s!" (record #{record} at offset {offset})"
  | ⟨some record, none⟩ => s!" (record #{record})"
  | ⟨none, some offset⟩ => s!" (at offset {offset})"
  | ⟨none, none⟩ => ""

/-- What the place that holds bytes, or takes them, can refuse. -/
inductive StorageFault
  /-- The store has no byte at this offset, though its size says so. -/
  | endedEarly (offset : Nat)
  /-- A sink takes no more bytes; it says why. -/
  | refused (reason : String)
  /-- A signing run was given a sink that holds bytes already. -/
  | outputNotEmpty
  | notFound
  | notDirectory
  | isDirectory
  | nameTooLong
  /-- A file is to take a place that a path does not name, such as that of the root. -/
  | busy
  /-- Something that is not a file is to be mapped into memory. -/
  | notMappable
  deriving DecidableEq, Repr

def StorageFault.message : StorageFault → String
  | endedEarly offset => s!"backing store ended early at offset {offset}"
  | refused reason => reason
  | outputNotEmpty => "output sink is not empty"
  | notFound => "No such file or directory (os error 2)"
  | notDirectory => "Not a directory (os error 20)"
  | isDirectory => "Is a directory (os error 21)"
  | nameTooLong => "File name too long (os error 36)"
  | busy => "Device or resource busy (os error 16)"
  | notMappable => "No such device (os error 19)"

/-- What went wrong as text: an error and its causes, outermost first. A signing engine reports a
failure, and so does the program in the end. -/
structure Failure where
  error : String
  causes : List String := []
  deriving DecidableEq, Repr

namespace Failure

/-- The error and its causes in one line. -/
def message (failure : Failure) : String := ": ".intercalate (failure.error :: failure.causes)

/-- The failure as the cause of another error. -/
def within (failure : Failure) (error : String) : Failure :=
  ⟨error, failure.error :: failure.causes⟩

end Failure

/-- Why an operation did not succeed. -/
inductive Error
  /-- The archive is malformed, or the one to be written would be. -/
  | format (fault : Fault) (location : Location)
  /-- A byte range does not fit into its source. -/
  | range (offset size sourceSize : Nat)
  /-- The data of an entry is neither stored nor deflated. -/
  | unsupportedCompression (name : String) (method : UInt16)
  /-- The size of the output could not be made a multiple of the one asked for. -/
  | convergence (attempts : Nat)
  /-- The signing engine failed. -/
  | engine (failure : Failure)
  /-- The storage failed. -/
  | storage (fault : StorageFault)
  deriving DecidableEq, Repr

namespace Error

/-- A fault at an unknown place. -/
abbrev fault (fault : Fault) : Error := .format fault {}

/-- A fault at an offset of the file. -/
abbrev faultAt (offset : Nat) (fault : Fault) : Error := .format fault { offset }

/-- Names the directory record to blame, unless one is named already. -/
def withRecord (record : Nat) : Error → Error
  | .format fault ⟨none, offset⟩ => .format fault ⟨some record, offset⟩
  | error => error

def message : Error → String
  | format fault location => s!"Malformed ZIP: {fault.message}{location.message}"
  | range offset size sourceSize =>
    s!"Byte range out of bounds: offset {offset}, size {size}, source size {sourceSize}"
  | unsupportedCompression name method =>
    s!"Unsupported compression method {method} for entry {name}"
  | convergence attempts => s!"Output size alignment did not converge after {attempts} attempts"
  | engine failure => s!"Signing engine error: {failure.message}"
  | storage fault => s!"IO error: {fault.message}"

/-- The causes behind an error, outermost first. -/
def causes : Error → List String
  | engine failure => failure.error :: failure.causes
  | storage fault => [fault.message]
  | _ => []

def failure (error : Error) : Failure := ⟨error.message, error.causes⟩

end Error
end ApkArchive
