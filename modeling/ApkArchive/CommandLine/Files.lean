import ApkArchive.Error

/-!
# Paths and files

A path is a sequence of segments with slashes between them. Empty segments and dots say nothing,
except as the first segment: there an empty one makes the path absolute. A path names a file by its
last segment, unless that is `..`.

    join (segments path) = path

A `Host` is what the program needs of a file system: a handful of operations on files, whatever
they live in. A file that has been opened keeps the size that it had then, but shows the contents
that it has when they are read. A directory can be opened, too, but it has no contents that can be
read.
-/

namespace ApkArchive.CommandLine

namespace Path

/-- A part of a path between slashes. -/
abbrev Segment := List Char

/-- The segments of a path. -/
def segments : List Char → List Segment
  | [] => [[]]
  | c :: path =>
    if c = '/' then [] :: segments path
    else
      match segments path with
      | [] => [[c]]
      | segment :: rest => (c :: segment) :: rest

/-- The path with the given segments. -/
def join (segments : List Segment) : List Char := ['/'].intercalate segments

theorem segments_ne_nil (path : List Char) : segments path ≠ [] := by
  cases path with
  | nil => simp [segments]
  | cons c path =>
    unfold segments
    split
    · simp
    · split <;> simp

theorem join_cons {segment : Segment} {rest : List Segment} (h : rest ≠ []) :
    join (segment :: rest) = segment ++ '/' :: join rest := by
  cases rest with
  | nil => exact absurd rfl h
  | cons next rest => simp [join, List.intercalate]

theorem join_segments (path : List Char) : join (segments path) = path := by
  induction path with
  | nil => rfl
  | cons c path ih =>
    unfold segments
    split
    · next slash => rw [join_cons (segments_ne_nil path), ih, slash, List.nil_append]
    · split
      · next none => exact absurd none (segments_ne_nil path)
      · next segment rest some =>
        rw [some] at ih
        rw [← ih]
        cases rest with
        | nil => simp [join, List.intercalate]
        | cons next rest => simp [join, List.intercalate]

/-- Whether a segment leaves a path where it is. -/
def isIdle (segment : Segment) : Bool := segment.isEmpty || segment = ['.']

/-- The segment that leads to the directory above. -/
def up : Segment := ['.', '.']

/-- Whether a segment is the name of something in a directory. -/
def isName (segment : Segment) : Bool := !isIdle segment && segment ≠ up

/-- Drops what says nothing from the end of a path, whose segments are given last one first; the
first segment of the path stays. -/
def trimEnd : List Segment → List Segment
  | [] => []
  | [first] => [first]
  | segment :: rest => if isIdle segment then trimEnd rest else segment :: rest

/-- The name of the file that a path names, and the segments before it, last one first. -/
def split? (path : List Char) : Option (Segment × List Segment) :=
  match trimEnd (segments path).reverse with
  | [] => none
  | name :: rest => if isName name then some (name, rest) else none

/-- The path of a directory, whose segments are given last one first. -/
def directory (segments : List Segment) : List Char :=
  match trimEnd segments with
  | [[]] => ['/']
  | segments => join segments.reverse

/-- The path of a file in a directory. -/
def within (directory : List Char) (name : Segment) : List Char :=
  match directory.getLast? with
  | none => name
  | some '/' => directory ++ name
  | some _ => directory ++ '/' :: name

/-- The name of the temporary file for a file with a given name. -/
def hidden (name : Segment) : Segment := '.' :: name ++ ".tmp".toList

/-- The path of the temporary file that stands in for the file with a given path until that is
complete: for a file `name`, the file `.name.tmp` in the same directory. -/
def temporary (path : List Char) : List Char :=
  match split? path with
  | some (name, rest) => within (directory rest) (hidden name)
  | none => within path (hidden [])

example : String.ofList (temporary "a//out.apk/.".toList) = "a/.out.apk.tmp" := by decide

example : String.ofList (temporary "/out.apk".toList) = "/.out.apk.tmp" := by decide

example : String.ofList (temporary "..".toList) = "../..tmp" := by decide

end Path

/-! ### Operations on files -/

/-- A file that has been opened for reading. -/
structure OpenFile (m : Type → Type) where
  /-- The size that the file had when it was opened. -/
  size : Nat
  /-- Whether the file can be mapped into memory. -/
  mappable : Bool
  /-- The contents that the file has now. -/
  contents : m (Except StorageFault ByteArray)

/-- Operations on files, which are named by paths. -/
structure Host (m : Type → Type) where
  openFile : (path : String) → m (Except StorageFault (OpenFile m))
  /-- Whether there is anything at a path. -/
  pathExists : (path : String) → m Bool
  /-- Makes an empty file, or empties the one that is there. -/
  createFile : (path : String) → m (Except StorageFault Unit)
  /-- Gives a file that is there its contents. -/
  writeFile : (path : String) → (contents : ByteArray) → m (Except StorageFault Unit)
  /-- Moves a file to another path and replaces a file that is there. -/
  renameFile : (source target : String) → m (Except StorageFault Unit)
  /-- Removes a file, if it is there. -/
  removeFile : (path : String) → m Unit

end ApkArchive.CommandLine
