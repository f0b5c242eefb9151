import ApkArchive.CommandLine.Files

/-!
# File trees

A file tree is a finite set of files. The directories of a tree are those that its files lie in, and
those that are there in any case: the working directory, all that are above it, and the root. The
names of the directories above the working directory are not known, so that no path leads from them
or from the root back down to it.

`FileTree.host` is the host whose files are the files of a tree. Like any file system it may refuse
an operation for reasons of its own, for instance because the device is full.
-/

namespace ApkArchive.CommandLine

/-- A directory that is there in any case. -/
inductive Anchor
  /-- The directory so many levels above the working directory, which is itself at level zero. -/
  | above (levels : Nat)
  | root
  deriving DecidableEq, Repr

/-- The directory above. The root is above itself. -/
def Anchor.up : Anchor → Anchor
  | above levels => above (levels + 1)
  | root => root

/-- Where a file or a directory is. -/
structure Location where
  anchor : Anchor
  /-- The names that lead there from the anchor, innermost first. -/
  names : List Path.Segment
  deriving DecidableEq, Repr

namespace Location

/-- The location that names lead to from the working directory, innermost first. -/
def below (names : List Path.Segment) : Location := ⟨.above 0, names⟩

/-- The directory above. -/
def up : Location → Location
  | ⟨anchor, []⟩ => ⟨anchor.up, []⟩
  | ⟨anchor, _ :: names⟩ => ⟨anchor, names⟩

/-- How many bytes a name can have. -/
def nameLimit : Nat := 255

/-- What has a name in a directory. -/
def child (location : Location) (name : Path.Segment) : Except StorageFault Location :=
  if nameLimit < (String.ofList name).utf8ByteSize then .error .nameTooLong
  else .ok ⟨location.anchor, name :: location.names⟩

end Location

/-- Files, each with its location and contents. -/
structure FileTree where
  files : List (Location × ByteArray)

namespace FileTree

/-- The contents of the file at a location. -/
def file? (tree : FileTree) (location : Location) : Option ByteArray := tree.files.lookup location

/-- Whether a location is a directory. -/
def isDirectory (tree : FileTree) (location : Location) : Bool :=
  location.names.isEmpty ||
    tree.files.any fun (file, _) =>
      file.anchor = location.anchor && location.names.isSuffixOf file.names && file ≠ location

/-- The tree without the file at a location. -/
def erase (tree : FileTree) (location : Location) : FileTree :=
  ⟨tree.files.filter (·.1 ≠ location)⟩

/-- The tree with a file at a location. -/
def insert (tree : FileTree) (location : Location) (contents : ByteArray) : FileTree :=
  ⟨(location, contents) :: (tree.erase location).files⟩

theorem lookup_cons (location other : Location) (contents : ByteArray)
    (files : List (Location × ByteArray)) :
    ((location, contents) :: files).lookup other =
      if other = location then some contents else files.lookup other := by
  rw [List.lookup_cons]
  by_cases h : other = location
  · simp only [h, BEq.rfl, if_true]
  · simp only [beq_eq_false_iff_ne.2 h, h, if_false]

theorem lookup_filter_ne (files : List (Location × ByteArray)) (location other : Location) :
    (files.filter (·.1 ≠ location)).lookup other =
      if other = location then none else files.lookup other := by
  induction files with
  | nil => simp
  | cons file files ih =>
    obtain ⟨here, contents⟩ := file
    by_cases same : here = location
    · rw [List.filter_cons_of_neg (by simp [same]), ih, lookup_cons, same]
      split <;> rfl
    · rw [List.filter_cons_of_pos (by simp [same]), lookup_cons, lookup_cons, ih]
      by_cases found : other = here
      · simp [found, same]
      · simp [found]

@[simp] theorem file?_erase (tree : FileTree) (location other : Location) :
    (tree.erase location).file? other = if other = location then none else tree.file? other :=
  lookup_filter_ne ..

@[simp] theorem file?_insert (tree : FileTree) (location other : Location) (contents : ByteArray) :
    (tree.insert location contents).file? other =
      if other = location then some contents else tree.file? other := by
  rw [file?, insert, lookup_cons]
  by_cases h : other = location
  · simp [h]
  · simp only [h, if_false]
    exact (tree.file?_erase location other).trans (if_neg h)

/-- The directory to which a segment leads from a directory. -/
def step (tree : FileTree) (here : Location) (segment : Path.Segment) :
    Except StorageFault Location :=
  if Path.isIdle segment then .ok here
  else if segment = Path.up then .ok here.up
  else do
    let next ← here.child segment
    if tree.isDirectory next then return next
    else throw (if (tree.file? next).isSome then .notDirectory else .notFound)

/-- Walks through segments from a directory to a directory. -/
def walk (tree : FileTree) (start : Location) (segments : List Path.Segment) :
    Except StorageFault Location :=
  segments.foldlM tree.step start

/-- How many bytes a path can have. -/
def pathLimit : Nat := 4095

/-- The directory in which a path starts. -/
def start (path : String) : Except StorageFault Location :=
  if pathLimit < path.utf8ByteSize then .error .nameTooLong
  else .ok ⟨if path.toList.head? = some '/' then .root else .above 0, []⟩

/-- The location that a path leads to. If the path ends with a name, there need not be anything. -/
def resolve (tree : FileTree) (path : String) : Except StorageFault Location := do
  let start ← start path
  match (Path.segments path.toList).reverse with
  | [] => return start
  | last :: before =>
    if Path.isName last then (← tree.walk start before.reverse).child last
    else tree.walk start (last :: before).reverse

/-- The location and the contents of the file that a path leads to. -/
def lookup (tree : FileTree) (path : String) : Except StorageFault (Location × ByteArray) := do
  let location ← tree.resolve path
  match tree.file? location with
  | some contents => return (location, contents)
  | none => throw (if tree.isDirectory location then .isDirectory else .notFound)

/-- Where a file with the given path can be made. -/
def place (tree : FileTree) (path : String) : Except StorageFault Location := do
  let location ← tree.resolve path
  if tree.isDirectory location then throw .isDirectory
  return location

/-- Where a file can be moved to. The path has to give it a name, and must not ask for a directory
with a slash at its end. -/
def destination (tree : FileTree) (path : String) : Except StorageFault Location := do
  let start ← start path
  match (Path.segments path.toList).reverse.dropWhile (·.isEmpty) with
  | [] => throw .busy
  | last :: before =>
    let directory ← tree.walk start before.reverse
    if !Path.isName last then throw .busy
    let location ← directory.child last
    if path.toList.getLast? = some '/' then throw .notDirectory
    if tree.isDirectory location then throw .isDirectory
    return location

/-- Moves a file. -/
def rename (tree : FileTree) (source target : String) : Except StorageFault FileTree := do
  let (location, contents) ← tree.lookup source
  return (tree.erase location).insert (← tree.destination target) contents

/-- Whether a path leads to a file or a directory. -/
def leadsSomewhere (tree : FileTree) (path : String) : Bool :=
  match tree.resolve path with
  | .ok location => (tree.file? location).isSome || tree.isDirectory location
  | .error _ => false

/-- The tree without the file that a path leads to, if there is one. -/
def remove (tree : FileTree) (path : String) : FileTree :=
  match tree.lookup path with
  | .ok (location, _) => tree.erase location
  | .error _ => tree

/-- The contents of the file at a location. -/
def read (tree : FileTree) (location : Location) : Except StorageFault ByteArray :=
  (tree.file? location).elim (.error .notFound) .ok

/-- Changes a tree, if that succeeds. -/
def change (action : FileTree → Except StorageFault FileTree) :
    StateM FileTree (Except StorageFault Unit) := do
  match action (← get) with
  | .ok tree =>
    set tree
    return .ok ()
  | .error fault => return .error fault

/-- What the host refuses, whatever files there are. It never refuses to remove a file. -/
structure Refusals where
  opening : Option StorageFault := none
  reading : Option StorageFault := none
  creating : Option StorageFault := none
  /-- The fault of a write, and the contents that the file has by then. -/
  writing : Option (StorageFault × ByteArray) := none
  moving : Option StorageFault := none

/-- Performs an operation, unless it is refused. -/
def unlessRefused (refusal : Option StorageFault)
    (operation : StateM FileTree (Except StorageFault α)) :
    StateM FileTree (Except StorageFault α) :=
  match refusal with
  | some fault => return .error fault
  | none => operation

/-- Gives the file at a path its contents. -/
def overwrite (path : String) (contents : ByteArray) (tree : FileTree) :
    Except StorageFault FileTree := do
  return tree.insert (← tree.lookup path).1 contents

/-- The host whose files are those of a tree. -/
def host (refusals : Refusals := {}) : Host (StateM FileTree) where
  openFile path := unlessRefused refusals.opening do
    return match (← get).lookup path with
      | .ok (location, contents) => .ok {
          size := contents.size
          mappable := true
          contents := unlessRefused refusals.reading do return (← get).read location }
      | .error .isDirectory =>
        .ok { size := 0, mappable := false, contents := return .error .isDirectory }
      | .error fault => .error fault
  pathExists path := return (← get).leadsSomewhere path
  createFile path := unlessRefused refusals.creating <|
    change fun tree => do return tree.insert (← tree.place path) .empty
  writeFile path contents :=
    match refusals.writing with
    | some (fault, part) => do
      let _ ← change (overwrite path part)
      return .error fault
    | none => change (overwrite path contents)
  renameFile source target := unlessRefused refusals.moving <|
    change (·.rename source target)
  removeFile path := modify (·.remove path)

end FileTree
end ApkArchive.CommandLine
