import ApkArchive.Proofs.Zip.Sections

/-!
# Which signing block is found

What stands before a directory is read as a signing block exactly if it ends in one. Anything else
before the directory, malformed as it may be, is no block and no error.

    a block is found before back in front ++ back ↔ EndsInBlock front
-/

namespace ApkArchive

namespace SigningBlock

/-- A byte string that ends in what is read as a signing block. -/
def EndsInBlock (bytes : Bytes) : Prop := ∃ front block, bytes = front ++ block ∧ IsBlock block

/-- Frame and size of the block that ends at a place of an archive. -/
structure Framed (apk : View) (place size : Nat) : Prop where
  bounds : footerSize ≤ size ∧ size ≤ View.maxBufferSize - 8
  inside : size + 8 ≤ place
  header : LittleEndian.decode (apk.bytes (place - (size + 8)) 8) = size
  footer : LittleEndian.decode ((apk.bytes (place - footerSize) footerSize).take 8) = size
  ends : (apk.bytes (place - footerSize) footerSize).drop 8 = magic

variable {apk : View} {front back : Bytes}

theorem framed_of_find {place : Nat} {found : SigningBlock}
    (search : find apk place = .ok (.found found)) :
    ∃ size, Framed apk place size ∧ found.offset = place - (size + 8) ∧
      apk.slice found.offset (size + 8) = .ok found.contents := by
  unfold find at search
  split at search
  · cases search
  obtain ⟨footer, readFooter, search⟩ := bind_eq_ok_iff.1 search
  obtain ⟨-, -, -, rfl⟩ := View.read_eq_ok_iff.1 readFooter
  split at search
  · cases search
  next magical =>
  dsimp only at search
  split at search
  · cases search
  next sized =>
  split at search
  · cases search
  next fits =>
  obtain ⟨header, readHeader, search⟩ := bind_eq_ok_iff.1 search
  obtain ⟨-, -, -, rfl⟩ := View.read_eq_ok_iff.1 readHeader
  split at search
  · cases search
  next same =>
  obtain ⟨whole, slice, search⟩ := bind_eq_ok_iff.1 search
  obtain rfl : ⟨_, whole⟩ = found := Search.found.inj (Except.ok.inj search)
  refine ⟨_, ⟨?_, Nat.le_of_not_lt fits, Decidable.not_not.1 same, rfl,
    Decidable.not_not.1 magical⟩, rfl, slice⟩
  rw [Bool.or_eq_true, decide_eq_true_eq, decide_eq_true_eq, not_or] at sized
  exact ⟨Nat.le_of_not_lt sized.1, Nat.le_of_not_lt sized.2⟩

/-- What is framed is a block that ends where the directory begins. -/
theorem Framed.isBlock {size : Nat} (framed : Framed apk front.length size)
    (shows : apk.Shows (front ++ back)) : IsBlock (front.drop (front.length - (size + 8))) := by
  have part (k n : Nat) (inside : k + n ≤ front.length) :
      apk.bytes k n = (front.drop k).take n := by
    have := shows.has_front.part k n inside
    rwa [Nat.zero_add] at this
  have bounds : 24 ≤ size ∧ size ≤ 0x7FFFFFFF - 8 := framed.bounds
  have inside := framed.inside
  have length : (front.drop (front.length - (size + 8))).length = size + 8 := by
    rw [List.length_drop]
    omega
  have ending (n : Nat) (le : n ≤ size + 8) :
      (front.drop (front.length - (size + 8))).drop (size + 8 - n) =
        front.drop (front.length - n) := by
    rw [List.drop_drop]
    congr 1
    omega
  have footer : apk.bytes (front.length - footerSize) footerSize =
      front.drop (front.length - footerSize) := by
    rw [part _ _ (by simp only [footerSize]; omega)]
    exact List.take_of_length_le (by simp only [List.length_drop, footerSize]; omega)
  constructor
  · rw [length]
    simp only [frameSize]
    omega
  · rw [length]
    simp only [View.maxBufferSize]
    omega
  · rw [length, Nat.add_sub_cancel, ← part _ _ (by omega)]
    exact framed.header
  · rw [length, Nat.add_sub_cancel, ending _ (by simp only [footerSize]; omega), ← footer]
    exact framed.footer
  · rw [length, ending _ (by omega), ← framed.ends, footer, List.drop_drop]
    congr 1
    simp only [footerSize]
    omega

/-- A block is found exactly if what stands before the directory ends in one. -/
theorem exists_found_iff (shows : apk.Shows (front ++ back)) {before : Search}
    (search : find apk front.length = .ok before) :
    (∃ found, before = .found found) ↔ EndsInBlock front := by
  constructor
  · rintro ⟨found, rfl⟩
    obtain ⟨size, framed, -⟩ := framed_of_find search
    exact ⟨_, _, (List.take_append_drop _ _).symm, framed.isBlock shows⟩
  · rintro ⟨rest, block, rfl, isBlock⟩
    rw [List.append_assoc] at shows
    obtain ⟨found, other, -⟩ := find_of_isBlock shows isBlock
    rw [List.length_append, other, Except.ok.injEq] at search
    exact ⟨found, search.symm⟩

end SigningBlock

theorem Sections.signingBlock?_eq_none_iff {sections : Sections} :
    sections.signingBlock? = none ↔ ¬ ∃ found, sections.beforeDirectory = .found found := by
  unfold signingBlock?
  split
  · next block found =>
    constructor
    · intro h; cases h
    · intro h; exact absurd ⟨block, found⟩ h
  · next other =>
    constructor
    · rintro - ⟨found, same⟩
      exact other found same
    · intro _; rfl

end ApkArchive
