import ApkArchive.Proofs.CommandLine.FileTree

/-!
# What the operations of the host do

An operation of the host that changes files does it or fails, and leaves no trace if it fails. The
exception is a write, which may leave part of what was to be written. Of a file that the program has
made, all operations are described by what the tree was before it was made:

    tree.Overlaid location contents mid: mid is the tree with a file laid over it

so writing it, moving it and removing it change the tree in that file only, and in the one that it
is moved to.
-/

namespace ApkArchive.CommandLine.FileTree

variable {tree : FileTree} {location : Location} {contents : ByteArray} {path : String}

/-! ### Changes and refusals -/

variable {refusals : Refusals} {fault : StorageFault} {mid after : FileTree} {u : Unit}

theorem Overlaid.removeFile (laid : tree.Overlaid location contents mid)
    (place : tree.place path = .ok location) (other : Location) :
    (((host refusals).removeFile path).run mid).2.file? other =
      if other = location then none else tree.file? other := by
  show (mid.remove path).file? other = _
  rw [remove, laid.lookup place]
  show (mid.erase location).file? other = _
  rw [file?_erase, laid other]
  split
  · rfl
  · rfl

theorem read_eq_ok_iff :
    tree.read location = .ok contents ↔ tree.file? location = some contents := by
  unfold read
  cases tree.file? location with
  | none => simp
  | some held => simp

end ApkArchive.CommandLine.FileTree
