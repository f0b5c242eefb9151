import ApkArchive.Proofs.Zip.Sections

/-!
# Which end record is found

Of all places where a consistent record reaches to the end of the archive, the last one counts.
The search looks at the last 22 bytes first and then at the last 65557; neither makes a
difference, as a record without a comment is as short as a record can be, and no consistent record
is longer.

    find apk = ok (some (record, offset)) ↔ IsLast apk's bytes record offset
-/

namespace ApkArchive.EndRecord

theorem ofSuffix?_eq_some_iff {bytes : Bytes} {record : EndRecord} :
    ofSuffix? bytes = some record ↔ bytes = record.encode ∧ record.isConsistent = true := by
  unfold ofSuffix?
  constructor
  · intro h
    split at h
    · next found parsed =>
      split at h
      · next consistent =>
        cases h
        exact ⟨parse_eq_ok_iff.1 parsed, consistent⟩
      · cases h
    · cases h
  · rintro ⟨rfl, consistent⟩
    rw [parse_eq_ok_iff.2 rfl]
    exact if_pos consistent

/-- The comment of a consistent record is as long as a word can say. -/
theorem length_of_ofSuffix? {bytes : Bytes} {record : EndRecord}
    (h : ofSuffix? bytes = some record) :
    fixedSize ≤ bytes.length ∧ bytes.length ≤ fixedSize + maxComment := by
  obtain ⟨rfl, consistent⟩ := ofSuffix?_eq_some_iff.1 h
  have same : record.commentLength.toNat = record.comment.length := of_decide_eq_true consistent
  have fits : record.commentLength.toNat < 65536 := record.commentLength.toNat_lt
  rw [length_encode]
  simp only [maxComment]
  omega

theorem ofSuffix?_of_short {bytes : Bytes} (short : bytes.length < fixedSize) :
    ofSuffix? bytes = none := by
  cases found : ofSuffix? bytes with
  | none => rfl
  | some record => exact absurd (length_of_ofSuffix? found).1 (Nat.not_le.2 short)

/-- A consistent record stands at the offset, and none after it. -/
structure IsLast (bytes : Bytes) (record : EndRecord) (offset : Nat) : Prop where
  here : ofSuffix? (bytes.drop offset) = some record
  later : ∀ place, offset < place → ofSuffix? (bytes.drop place) = none

namespace IsLast

variable {bytes : Bytes} {record : EndRecord} {offset : Nat}

/-- The record reaches from the offset to the end. -/
theorem encode_eq (h : IsLast bytes record offset) : record.encode = bytes.drop offset :=
  (ofSuffix?_eq_some_iff.1 h.here).1.symm

theorem place (h : IsLast bytes record offset) :
    offset + fixedSize ≤ bytes.length ∧ bytes.length ≤ offset + fixedSize + maxComment := by
  have size := length_of_ofSuffix? h.here
  rw [List.length_drop] at size
  simp only [fixedSize] at size ⊢
  omega

theorem of_cons {byte : UInt8} (h : IsLast (byte :: bytes) record (offset + 1)) :
    IsLast bytes record offset where
  here := h.here
  later place less := h.later (place + 1) (Nat.succ_lt_succ less)

theorem of_drop {start : Nat} (h : IsLast bytes record offset) (le : start ≤ offset) :
    IsLast (bytes.drop start) record (offset - start) where
  here := by rw [List.drop_drop, Nat.add_sub_of_le le]; exact h.here
  later place less := by
    rw [List.drop_drop]
    exact h.later _ (by omega)

theorem of_append {front : Bytes} (h : IsLast bytes record offset) :
    IsLast (front ++ bytes) record (front.length + offset) where
  here := by rw [← List.drop_drop, List.drop_left]; exact h.here
  later place less := by
    obtain ⟨rest, rfl⟩ := Nat.exists_eq_add_of_lt less
    rw [Nat.add_assoc, Nat.add_assoc, ← List.drop_drop, List.drop_left]
    exact h.later _ (by omega)

end IsLast

/-- If a consistent record stands anywhere, there is a last one. The induction is on how many bytes
follow. -/
theorem exists_isLast {bytes : Bytes} {record : EndRecord} {offset : Nat}
    (h : ofSuffix? (bytes.drop offset) = some record) :
    ∃ last place, IsLast bytes last place ∧ offset ≤ place := by
  induction left : bytes.length - offset using Nat.strongRecOn generalizing record offset with
  | _ left ih =>
    by_cases later : ∃ place next, offset < place ∧ ofSuffix? (bytes.drop place) = some next
    · obtain ⟨place, next, less, found⟩ := later
      have inside := (length_of_ofSuffix? found).1
      rw [List.length_drop] at inside
      simp only [fixedSize] at inside
      obtain ⟨last, place', isLast, le⟩ := ih (bytes.length - place) (by omega) found rfl
      exact ⟨last, place', isLast, by omega⟩
    · refine ⟨record, offset, ⟨h, ?_⟩, Nat.le_refl _⟩
      intro place less
      exact Option.eq_none_iff_forall_ne_some.2 fun next found => later ⟨place, next, less, found⟩

/-! ### The search -/

theorem lastConsistent_of_none {bytes : Bytes}
    (nowhere : ∀ place, ofSuffix? (bytes.drop place) = none) (best : Option (EndRecord × Nat))
    (start : Nat) : lastConsistent best start bytes = best := by
  induction bytes generalizing start with
  | nil => rfl
  | cons byte rest ih =>
    have here : ofSuffix? (byte :: rest) = none := nowhere 0
    rw [lastConsistent, here]
    exact ih (fun place => nowhere (place + 1)) (start + 1)

theorem lastConsistent_of_isLast {bytes : Bytes} {record : EndRecord} {offset : Nat}
    (last : IsLast bytes record offset) (best : Option (EndRecord × Nat)) (start : Nat) :
    lastConsistent best start bytes = some (record, start + offset) := by
  induction bytes generalizing best start offset with
  | nil =>
    have here := last.here
    rw [List.drop_nil, ofSuffix?_of_short (by decide)] at here
    cases here
  | cons byte rest ih =>
    cases offset with
    | zero =>
      have here : ofSuffix? (byte :: rest) = some record := last.here
      rw [lastConsistent, here]
      exact lastConsistent_of_none (fun place => last.later (place + 1) (Nat.succ_pos _)) _ _
    | succ offset =>
      rw [lastConsistent, ih last.of_cons, Nat.add_assoc, Nat.add_comm 1]

variable {apk : View} {bytes : Bytes}

/-- A search looks at the last bytes of the archive, as many as a record with the longest comment
has. -/
theorem search_eq (shows : apk.Shows bytes) (enough : fixedSize ≤ bytes.length) {limit : Nat}
    (small : limit ≤ maxComment) :
    search apk limit = .ok (lastConsistent none (bytes.length - fixedSize - limit)
      (bytes.drop (bytes.length - fixedSize - limit))) := by
  have size := shows.size
  have start : bytes.length - fixedSize - min limit (bytes.length - fixedSize) =
      bytes.length - fixedSize - limit := by omega
  have read := shows.read (bytes.length - fixedSize - limit)
    (fixedSize + min limit (bytes.length - fixedSize)) (by omega)
    (by simp only [maxComment, fixedSize, View.maxBufferSize] at *; omega)
  rw [shows.bytes_eq (by omega),
    List.take_of_length_le (by rw [List.length_drop]; omega)] at read
  unfold search
  dsimp only
  rw [size, start]
  exact bind_eq_ok_iff.2 ⟨_, read, rfl⟩

theorem search_of_isLast (shows : apk.Shows bytes) {record : EndRecord} {offset limit : Nat}
    (last : IsLast bytes record offset) (small : limit ≤ maxComment)
    (reached : bytes.length - fixedSize - limit ≤ offset) :
    search apk limit = .ok (some (record, offset)) := by
  have := last.place
  rw [search_eq shows (by omega) small, lastConsistent_of_isLast (last.of_drop reached),
    Nat.add_sub_of_le reached]

theorem search_of_none (shows : apk.Shows bytes) (enough : fixedSize ≤ bytes.length) {limit : Nat}
    (small : limit ≤ maxComment)
    (nowhere : ∀ place, bytes.length - fixedSize - limit ≤ place →
      ofSuffix? (bytes.drop place) = none) :
    search apk limit = .ok none := by
  rw [search_eq shows enough small, lastConsistent_of_none]
  intro place
  rw [List.drop_drop]
  exact nowhere _ (Nat.le_add_right ..)

theorem find_of_isLast (shows : apk.Shows bytes) {record : EndRecord} {offset : Nat}
    (last : IsLast bytes record offset) : find apk = .ok (some (record, offset)) := by
  obtain ⟨inside, long⟩ := last.place
  have enough : fixedSize ≤ bytes.length := Nat.le_trans (Nat.le_add_left ..) inside
  unfold find
  rw [if_neg (by rw [shows.size]; exact Nat.not_lt.2 enough)]
  -- The first search finds the record if it has no comment, and nothing otherwise.
  by_cases plain : bytes.length - fixedSize ≤ offset
  · exact bind_eq_ok_iff.2 ⟨_, search_of_isLast shows last (Nat.zero_le _) plain, rfl⟩
  · refine bind_eq_ok_iff.2 ⟨none, search_of_none shows enough (Nat.zero_le _) ?_, ?_⟩
    · intro place le
      exact last.later place (by omega)
    · exact search_of_isLast shows last (Nat.le_refl _) (by omega)

theorem find_of_none (shows : apk.Shows bytes)
    (nowhere : ∀ place, ofSuffix? (bytes.drop place) = none) : find apk = .ok none := by
  unfold find
  split
  · rfl
  next enough =>
  rw [shows.size] at enough
  have enough : fixedSize ≤ bytes.length := Nat.le_of_not_lt enough
  refine bind_eq_ok_iff.2 ⟨none, ?_, ?_⟩
  · exact search_of_none shows enough (Nat.zero_le _) fun _ _ => nowhere _
  · exact search_of_none shows enough (Nat.le_refl _) fun _ _ => nowhere _

/-- What is found is the last consistent record that reaches to the end of the archive. -/
theorem find_eq_ok_some_iff (shows : apk.Shows bytes) {record : EndRecord} {offset : Nat} :
    find apk = .ok (some (record, offset)) ↔ IsLast bytes record offset := by
  constructor
  · intro found
    by_cases somewhere : ∃ place other, ofSuffix? (bytes.drop place) = some other
    · obtain ⟨place, other, here⟩ := somewhere
      obtain ⟨last, place', isLast, -⟩ := exists_isLast here
      rw [find_of_isLast shows isLast] at found
      cases found
      exact isLast
    · have nowhere (place : Nat) : ofSuffix? (bytes.drop place) = none :=
        Option.eq_none_iff_forall_ne_some.2 fun other here => somewhere ⟨place, other, here⟩
      rw [find_of_none shows nowhere] at found
      cases found
  · exact find_of_isLast shows

/-! ### What is found is consistent

Here nothing is assumed about the archive: part of it may be unreadable. -/

theorem isConsistent_of_lastConsistent {best : Option (EndRecord × Nat)} {start offset : Nat}
    {record : EndRecord} (before : ∀ found ∈ best, found.1.isConsistent = true)
    (h : lastConsistent best start bytes = some (record, offset)) :
    record.isConsistent = true := by
  induction bytes generalizing best start with
  | nil => exact before _ h
  | cons byte rest ih =>
    unfold lastConsistent at h
    refine ih ?_ h
    split
    · next found here =>
      rintro _ ⟨⟩
      exact (ofSuffix?_eq_some_iff.1 here).2
    · exact before

theorem isConsistent_of_search {limit offset : Nat} {record : EndRecord}
    (h : search apk limit = .ok (some (record, offset))) : record.isConsistent = true := by
  obtain ⟨_, _, found⟩ := bind_eq_ok_iff.1 h
  exact isConsistent_of_lastConsistent (by rintro _ ⟨⟩) (Except.ok.inj found)

theorem isConsistent_of_find {offset : Nat} {record : EndRecord}
    (h : find apk = .ok (some (record, offset))) : record.isConsistent = true := by
  unfold find at h
  split at h
  · cases h
  obtain ⟨first, searched, h⟩ := bind_eq_ok_iff.1 h
  split at h
  · cases h
    exact isConsistent_of_search searched
  · exact isConsistent_of_search h

end ApkArchive.EndRecord
