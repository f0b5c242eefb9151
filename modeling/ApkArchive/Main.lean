import ApkArchive.CommandLine.Program

/-!
# The command line tool
-/

namespace ApkArchive.CommandLine

/-- What the library calls an error of the operating system. -/
def faultOf : IO.Error → StorageFault
  | .noFileOrDirectory .. => .notFound
  | .inappropriateType _ 20 _ => .notDirectory
  | .inappropriateType _ 21 _ => .isDirectory
  | .invalidArgument _ 36 _ => .nameTooLong
  | .resourceBusy .. => .busy
  | error => .refused (toString error)

/-- An action on the file system, with its errors as values. -/
def guarded (action : IO α) : IO (Except StorageFault α) := do
  match ← action.toBaseIO with
  | .ok a => return .ok a
  | .error error => return .error (faultOf error)

/-- The file system. -/
def fileSystem : Host IO where
  openFile path := guarded do
    let handle ← IO.FS.Handle.mk path .read
    match ← guarded handle.readBinToEnd with
    | .ok contents => return {
        size := contents.size
        mappable := true
        contents := guarded do
          handle.rewind
          handle.readBinToEnd }
    | .error fault => return { size := 0, mappable := false, contents := return .error fault }
  pathExists path := do
    match ← guarded (IO.FS.Handle.mk path .read) with
    | .error .notFound | .error .notDirectory | .error .nameTooLong => return false
    | _ => return true
  createFile path := guarded (IO.FS.writeBinFile path .empty)
  writeFile path contents := guarded (IO.FS.writeBinFile path contents)
  renameFile source target := guarded (IO.FS.rename source target)
  removeFile path := discard (guarded (IO.FS.removeFile path))

end ApkArchive.CommandLine

def main (arguments : List String) : IO UInt32 := do
  let report ← ApkArchive.CommandLine.run ApkArchive.CommandLine.fileSystem arguments
  IO.print report.results
  IO.eprint report.log
  return report.code
