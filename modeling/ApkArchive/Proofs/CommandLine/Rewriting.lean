import ApkArchive.Proofs.CommandLine.Host
import ApkArchive.Proofs.CommandLine.Leaves
import ApkArchive.Proofs.Signing.Outcome
import ApkArchive.Proofs.Zip.Archive

/-!
# What rewriting does to files

A run that is to rewrite an archive makes a temporary file beside the output, writes the aligned
archive to it and moves it to the output. It can fail at each of these steps, because of the archive
or because the host refuses an operation, and removes the temporary file then. So a run ends in one
of two ways:

    code 0: the output is the aligned archive, the temporary file is gone, the rest is as it was
    code 1: all is as it was, except that the temporary file may be gone

The temporary file lies beside the output and is never the output, but it can be the input. An input
that is read and not mapped is empty then, which is no archive, so the run fails; and the input is
removed with the temporary file. Of a mapped input that is cut nothing is said.
-/

namespace ApkArchive.CommandLine

open Signing

/-- The archive that the program makes of the contents of its input, if it can. -/
def aligned? (options : Options) (contents : ByteArray) : Option ByteArray :=
  let engine := PassThrough.engine options.stripSignatures
  let apk : View :=
    .ofStore { Store.ofFile contents.size contents with contiguous := !options.noMmap }
  match (sign engine options.config apk).run { engine := false } with
  | .ok _ session => some session.output.contents
  | .error .. => none

namespace Program

variable {tree : FileTree} {options : Options} {refusals : FileTree.Refusals}
variable {input : OpenFile (StateM FileTree)} {temporary output : String}

/-! ### The temporary file -/

/-- What a successful run works with: the input, the temporary file and the archive. -/
structure Conversion (options : Options) (temporary : String) (tree : FileTree)
    (source hidden : Location) (contents archive : ByteArray) : Prop where
  lookup : tree.lookup options.input = .ok (source, contents)
  aligned : aligned? options contents = some archive
  place : tree.place temporary = .ok hidden
  /-- The temporary file is not the input. -/
  apart : source ≠ hidden

/-- What a run that has written the output has done: the output is the aligned archive, there is no
temporary file, and all other files are what they were. -/
structure Rewritten (options : Options) (output : String) (tree after : FileTree)
    (source target hidden : Location) (contents archive : ByteArray) : Prop
    extends Conversion options (temporaryFor output) tree source hidden contents archive where
  aim : tree.place output = .ok target
  beside : hidden = target.sibling
  /-- An output that is there already is replaced only if that was asked for. -/
  permitted : options.force = true ∨ tree.file? target = none
  files : ∀ location, after.file? location =
    if location = target then some archive
    else if location = hidden then none else tree.file? location

end Program

open Program

end ApkArchive.CommandLine
