import ApkArchive.CommandLine.FileTree
import ApkArchive.Proofs.CommandLine.Path
import ApkArchive.Proofs.Zip.LocalRecord

/-!
# Where paths lead in a file tree

A path leads through directories, so where it leads to depends only on which locations are
directories. A new file can be made only in a directory that is there, and so it makes no new
directories:

    place path = ok location → (insert location contents).isDirectory = isDirectory

So the paths of a program lead to the same locations before and after it has made a file. `Overlaid`
is the relation between a tree and what it has become by one file.
-/

namespace ApkArchive.CommandLine

theorem guard_eq_ok_iff {c : Prop} [Decidable c] {fault : ε} {rest : Except ε α} {a : α} :
    (do
      if c then throw fault
      rest) = .ok a ↔ ¬ c ∧ rest = .ok a := by
  by_cases refused : c
  · simp [refused, throw, throwThe, MonadExceptOf.throw, bind, Except.bind]
  · simp [refused]

/-! ### Files below directories -/

/-- A file lies in a directory, or in one below it. -/
structure Location.LiesIn (file directory : Location) : Prop where
  anchor : file.anchor = directory.anchor
  names : directory.names <:+ file.names
  deeper : directory.names.length < file.names.length

theorem Location.LiesIn.of_suffix {file directory above : Location} (lies : file.LiesIn directory)
    (anchor : directory.anchor = above.anchor) (names : above.names <:+ directory.names) :
    file.LiesIn above where
  anchor := lies.anchor.trans anchor
  names := names.trans lies.names
  deeper := Nat.lt_of_le_of_lt names.length_le lies.deeper

theorem Location.child_eq_ok_iff {directory location : Location} {name : Path.Segment} :
    directory.child name = .ok location ↔
      (String.ofList name).utf8ByteSize ≤ nameLimit ∧
        location = ⟨directory.anchor, name :: directory.names⟩ := by
  unfold child
  split
  · next long => simp [Nat.not_le_of_lt long]
  · next fits => simp [Nat.le_of_not_lt fits, eq_comm]

/-- The location beside a file that has the hidden name for it. -/
def Location.sibling : Location → Location
  | ⟨anchor, name :: names⟩ => ⟨anchor, Path.hidden name :: names⟩
  | ⟨anchor, []⟩ => ⟨anchor, []⟩

namespace FileTree

variable {tree tree' : FileTree} {location : Location} {contents : ByteArray} {path : String}

theorem isSome_file?_iff :
    (tree.file? location).isSome ↔ ∃ contents, (location, contents) ∈ tree.files := by
  rw [file?, List.lookup_isSome_iff]
  constructor
  · rintro ⟨⟨file, contents⟩, mem, same⟩
    exact ⟨contents, beq_iff_eq.1 same ▸ mem⟩
  · rintro ⟨contents, mem⟩
    exact ⟨_, mem, BEq.rfl⟩

/-- A directory is one of those that are there in any case, or a file lies in it. -/
theorem isDirectory_iff :
    tree.isDirectory location ↔
      location.names = [] ∨ ∃ file, (tree.file? file).isSome ∧ file.LiesIn location := by
  simp only [isDirectory, Bool.or_eq_true, List.isEmpty_iff, List.any_eq_true, isSome_file?_iff]
  refine or_congr_right ⟨?_, ?_⟩
  · rintro ⟨⟨file, contents⟩, mem, lies⟩
    simp only [Bool.and_eq_true, decide_eq_true_eq, List.isSuffixOf_iff_suffix] at lies
    obtain ⟨⟨anchor, names⟩, other⟩ := lies
    refine ⟨file, ⟨contents, mem⟩, anchor, names, Nat.lt_of_le_of_ne names.length_le ?_⟩
    intro length
    have same := names.eq_of_length length
    exact other (by cases file; cases location; simp_all)
  · rintro ⟨file, ⟨contents, mem⟩, lies⟩
    refine ⟨(file, contents), mem, ?_⟩
    have other : file ≠ location := by
      rintro rfl
      exact Nat.lt_irrefl _ lies.deeper
    simp [lies.anchor, lies.names, other]

/-! ### Walking -/

theorem isDirectory_up (directory : tree.isDirectory location) : tree.isDirectory location.up := by
  obtain ⟨anchor, names⟩ := location
  cases names with
  | nil => exact isDirectory_iff.2 (.inl rfl)
  | cons name names =>
    rcases isDirectory_iff.1 directory with none | ⟨file, isSome, lies⟩
    · cases none
    · exact isDirectory_iff.2 (.inr ⟨file, isSome, lies.of_suffix rfl (List.suffix_cons ..)⟩)

theorem isDirectory_step {segment : Path.Segment} {here : Location}
    (directory : tree.isDirectory here) (step : tree.step here segment = .ok location) :
    tree.isDirectory location := by
  unfold FileTree.step at step
  split at step
  · cases step
    exact directory
  split at step
  · cases step
    exact isDirectory_up directory
  obtain ⟨next, -, rest⟩ := bind_eq_ok_iff.1 step
  split at rest
  · next found =>
    cases rest
    exact found
  · cases rest

/-- A walk from a directory ends in a directory. -/
theorem isDirectory_walk {segments : List Path.Segment} {start : Location}
    (directory : tree.isDirectory start) (walk : tree.walk start segments = .ok location) :
    tree.isDirectory location := by
  induction segments generalizing start with
  | nil =>
    cases walk
    exact directory
  | cons segment segments ih =>
    obtain ⟨next, step, rest⟩ := bind_eq_ok_iff.1 walk
    exact ih (isDirectory_step directory step) rest

/-- Two trees have the same directories. -/
def SameDirectories (tree tree' : FileTree) : Prop :=
  ∀ location, tree.isDirectory location = tree'.isDirectory location

theorem step_of_same {segment : Path.Segment} {here : Location}
    (same : tree.SameDirectories tree') (step : tree.step here segment = .ok location) :
    tree'.step here segment = .ok location := by
  unfold FileTree.step at step ⊢
  split at step
  · next idle =>
    rw [if_pos idle]
    exact step
  next awake =>
  rw [if_neg awake]
  split at step
  · next up =>
    rw [if_pos up]
    exact step
  next down =>
  rw [if_neg down]
  obtain ⟨next, child, rest⟩ := bind_eq_ok_iff.1 step
  refine bind_eq_ok_iff.2 ⟨next, child, ?_⟩
  split at rest
  · next directory =>
    rw [if_pos ((same next).symm.trans directory)]
    exact rest
  · cases rest

theorem walk_of_same {segments : List Path.Segment} {start : Location}
    (same : tree.SameDirectories tree') (walk : tree.walk start segments = .ok location) :
    tree'.walk start segments = .ok location := by
  induction segments generalizing start with
  | nil => exact walk
  | cons segment segments ih =>
    obtain ⟨next, step, rest⟩ := bind_eq_ok_iff.1 walk
    exact bind_eq_ok_iff.2 ⟨next, step_of_same same step, ih rest⟩

/-! ### Where files can be made -/

theorem isDirectory_of_start (begins : start path = .ok location) : tree.isDirectory location := by
  unfold start at begins
  split at begins
  · cases begins
  · cases begins
    exact isDirectory_iff.2 (.inl rfl)

/-- A path that ends in a name leads to what has that name, whether there is anything or not. -/
theorem resolve_of_name {last : Path.Segment} {before : List Path.Segment}
    (ends : (Path.segments path.toList).reverse = last :: before)
    (named : Path.isName last = true) :
    tree.resolve path = .ok location ↔
      ∃ origin directory, start path = .ok origin ∧
        tree.walk origin before.reverse = .ok directory ∧ directory.child last = .ok location := by
  rw [resolve, bind_eq_ok_iff, ends]
  simp only [named, if_true, bind_eq_ok_iff, exists_and_left]

/-- A file can be made at a path if the path ends in a name that no directory has. -/
theorem place_eq_ok_iff :
    tree.place path = .ok location ↔
      tree.isDirectory location = false ∧
        ∃ last before origin directory,
          (Path.segments path.toList).reverse = last :: before ∧ Path.isName last = true ∧
          start path = .ok origin ∧ tree.walk origin before.reverse = .ok directory ∧
          directory.child last = .ok location := by
  have place : tree.place path = .ok location ↔
      tree.resolve path = .ok location ∧ tree.isDirectory location = false := by
    rw [FileTree.place, bind_eq_ok_iff]
    constructor
    · rintro ⟨here, resolve, rest⟩
      split at rest
      · cases rest
      · next free =>
        cases rest
        exact ⟨resolve, eq_false_of_ne_true free⟩
    · rintro ⟨resolve, free⟩
      exact ⟨location, resolve, by simp [free]; rfl⟩
  rw [place]
  constructor
  · rintro ⟨resolve, free⟩
    refine ⟨free, ?_⟩
    cases ends : (Path.segments path.toList).reverse with
    | nil => exact absurd (List.reverse_eq_nil_iff.1 ends) (Path.segments_ne_nil _)
    | cons last before =>
      by_cases named : Path.isName last = true
      · obtain ⟨origin, directory, found⟩ := (resolve_of_name ends named).1 resolve
        exact ⟨last, before, origin, directory, rfl, named, found⟩
      · -- A path that ends in no name leads to a directory.
        rw [FileTree.resolve, bind_eq_ok_iff, ends] at resolve
        obtain ⟨origin, begins, walk⟩ := resolve
        simp only [named] at walk
        have directory := isDirectory_walk (isDirectory_of_start begins) walk
        rw [free] at directory
        cases directory
  · rintro ⟨free, last, before, origin, directory, ends, named, found⟩
    exact ⟨(resolve_of_name ends named).2 ⟨origin, directory, found⟩, free⟩

theorem place_of_same (same : tree.SameDirectories tree') (place : tree.place path = .ok location) :
    tree'.place path = .ok location := by
  obtain ⟨free, last, before, origin, directory, ends, named, begins, walk, child⟩ :=
    place_eq_ok_iff.1 place
  exact place_eq_ok_iff.2 ⟨(same location).symm.trans free, last, before, origin, directory, ends,
    named, begins, walk_of_same same walk, child⟩

theorem resolve_of_place (place : tree.place path = .ok location) :
    tree.resolve path = .ok location := by
  obtain ⟨-, last, before, origin, directory, ends, named, found⟩ := place_eq_ok_iff.1 place
  exact (resolve_of_name ends named).2 ⟨origin, directory, found⟩

theorem lookup_eq_ok_iff :
    tree.lookup path = .ok (location, contents) ↔
      tree.resolve path = .ok location ∧ tree.file? location = some contents := by
  rw [lookup, bind_eq_ok_iff]
  constructor
  · rintro ⟨here, resolve, rest⟩
    split at rest
    · next some =>
      cases rest
      exact ⟨resolve, some⟩
    · cases rest
  · rintro ⟨resolve, some⟩
    refine ⟨location, resolve, ?_⟩
    rw [some]
    rfl

/-- Where a file can be moved to it could also be made. -/
theorem place_of_destination (destination : tree.destination path = .ok location) :
    tree.place path = .ok location := by
  unfold FileTree.destination at destination
  obtain ⟨origin, begins, rest⟩ := bind_eq_ok_iff.1 destination
  split at rest
  · cases rest
  next last before ends =>
  obtain ⟨directory, walk, rest⟩ := bind_eq_ok_iff.1 rest
  obtain ⟨named, rest⟩ := guard_eq_ok_iff.1 rest
  obtain ⟨here, child, rest⟩ := bind_eq_ok_iff.1 rest
  obtain ⟨no_slash, rest⟩ := guard_eq_ok_iff.1 rest
  obtain ⟨free, rest⟩ := guard_eq_ok_iff.1 rest
  cases rest
  -- Only slashes are dropped at the end of a path, and there are none.
  have whole : (Path.segments path.toList).reverse = last :: before := by
    cases reversed : (Path.segments path.toList).reverse with
    | nil => exact absurd (List.reverse_eq_nil_iff.1 reversed) (Path.segments_ne_nil _)
    | cons final front =>
      rw [reversed] at ends
      have nonempty : path.toList ≠ [] := by
        intro empty
        rw [empty] at reversed
        cases reversed
        cases ends
      have filled := Path.ne_nil_of_no_slash (List.reverse_eq_cons_iff.1 reversed) nonempty no_slash
      rwa [List.dropWhile_cons_of_neg (by simpa using filled)] at ends
  exact place_eq_ok_iff.2 ⟨eq_false_of_ne_true free, last, before, origin, directory, whole,
    by simpa using named, begins, walk, child⟩

/-! ### The temporary file -/

/-- The second tree is the first one with a file at a location, in place of any that is there. -/
def Overlaid (tree : FileTree) (location : Location) (contents : ByteArray) (after : FileTree) :
    Prop :=
  ∀ other, after.file? other = if other = location then some contents else tree.file? other

/-- A file that is laid over another one is all that is seen of the two. -/
theorem Overlaid.insert {after : FileTree} (laid : tree.Overlaid location contents after)
    (last : ByteArray) : tree.Overlaid location last (after.insert location last) := by
  intro other
  rw [file?_insert]
  split
  · rfl
  · next elsewhere => rw [laid other, if_neg elsewhere]

/-- A file that is made makes no directories. -/
theorem Overlaid.sameDirectories {after : FileTree} (laid : tree.Overlaid location contents after)
    (place : tree.place path = .ok location) : tree.SameDirectories after := by
  obtain ⟨-, last, before, origin, directory, -, -, begins, walk, child⟩ := place_eq_ok_iff.1 place
  have parent := isDirectory_walk (isDirectory_of_start begins) walk
  obtain ⟨-, rfl⟩ := Location.child_eq_ok_iff.1 child
  intro other
  rw [Bool.eq_iff_iff, isDirectory_iff, isDirectory_iff]
  constructor
  · rintro (anyway | ⟨file, isSome, lies⟩)
    · exact .inl anyway
    · refine .inr ⟨file, ?_, lies⟩
      rw [laid file]
      split
      · rfl
      · exact isSome
  · rintro (anyway | ⟨file, isSome, lies⟩)
    · exact .inl anyway
    rw [laid file] at isSome
    split at isSome
    · -- What the new file lies in is its own directory or lies above that.
      next made =>
      subst made
      have above : other.names <:+ directory.names := by
        rcases List.suffix_cons_iff.1 lies.names with same | above
        · have deeper := lies.deeper
          rw [same] at deeper
          exact absurd deeper (Nat.lt_irrefl _)
        · exact above
      rcases isDirectory_iff.1 parent with top | ⟨old, isSome, lies_in⟩
      · rw [top] at above
        exact .inl (List.suffix_nil.1 above)
      · exact .inr ⟨old, isSome, lies_in.of_suffix lies.anchor above⟩
    · exact .inr ⟨file, isSome, lies⟩

/-- The path of a file that has been made leads to it. -/
theorem Overlaid.lookup {after : FileTree} (laid : tree.Overlaid location contents after)
    (place : tree.place path = .ok location) : after.lookup path = .ok (location, contents) := by
  refine lookup_eq_ok_iff.2 ⟨?_, by rw [laid location, if_pos rfl]⟩
  exact resolve_of_place (place_of_same (laid.sameDirectories place) place)

/-- A file that has been made is moved to where the target is in the tree without it. -/
theorem Overlaid.rename {mid after : FileTree} {target : String}
    (laid : tree.Overlaid location contents mid) (place : tree.place path = .ok location)
    (rename : mid.rename path target = .ok after) :
    ∃ aim, tree.place target = .ok aim ∧
      ∀ other, after.file? other =
        if other = aim then some contents
        else if other = location then none else tree.file? other := by
  have same := laid.sameDirectories place
  unfold FileTree.rename at rename
  obtain ⟨found, lookup, rest⟩ := bind_eq_ok_iff.1 rename
  cases (laid.lookup place).symm.trans lookup
  obtain ⟨aim, destination, rest⟩ := bind_eq_ok_iff.1 rest
  cases rest
  refine ⟨aim, place_of_same (fun other => (same other).symm) (place_of_destination destination),
    fun other => ?_⟩
  rw [file?_insert, file?_erase, laid other]
  split
  · rfl
  · split
    · rfl
    · rfl

end FileTree
end ApkArchive.CommandLine
