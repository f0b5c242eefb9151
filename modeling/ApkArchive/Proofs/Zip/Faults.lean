import ApkArchive.Alignment.Check
import ApkArchive.Zip.Sections

/-!
# What is never the fault of the input

Two errors come from making the size of the output a multiple of something: the comment does not
take more bytes, or it was tried too often. Nothing that reads an archive fails in one of these
ways; so a run that does has come as far as that.
-/

namespace ApkArchive

/-- The fault is that the comment does not take more bytes. -/
def Fault.isFromPadding : Fault → Bool
  | commentTooLong _ => true
  | _ => false

/-- The size of the output could not be made a multiple. -/
def Error.isFromPadding : Error → Bool
  | format fault _ => fault.isFromPadding
  | convergence _ => true
  | _ => false

@[simp] theorem Error.isFromPadding_withRecord (record : Nat) (error : Error) :
    (error.withRecord record).isFromPadding = error.isFromPadding := by
  unfold withRecord
  split <;> rfl

/-- No error of the computation is like this. -/
def Excludes (p : ε → Bool) (x : Except ε α) : Prop := ∀ e, x = .error e → p e = false

namespace Excludes

variable {p : ε → Bool}

theorem ok (a : α) : Excludes p (.ok a : Except ε α) := nofun

theorem pure (a : α) : Excludes p (pure a : Except ε α) := nofun

theorem error {e : ε} (other : p e = false) : Excludes p (.error e : Except ε α) := by
  rintro _ ⟨⟩
  exact other

theorem throw {e : ε} (other : p e = false) : Excludes p (throw e : Except ε α) := error other

theorem bind {x : Except ε α} {f : α → Except ε β} (first : Excludes p x)
    (rest : ∀ a, Excludes p (f a)) : Excludes p (x >>= f) := by
  cases x with
  | ok a => exact rest a
  | error e => exact error (first e rfl)

theorem mapError {x : Except ε α} {q : ε' → Bool} {f : ε → ε'} (h : Excludes p x)
    (same : ∀ e, q (f e) = p e) : Excludes q (x.mapError f) := by
  cases x with
  | ok a => exact ok a
  | error e => exact error ((same e).trans (h e rfl))

theorem ite {c : Prop} [Decidable c] {x y : Except ε α} (first : Excludes p x)
    (second : Excludes p y) : Excludes p (if c then x else y) := by
  split
  · exact first
  · exact second

/-- A check before the rest. -/
theorem check {c : Prop} [Decidable c] {x : Except ε α} {y : Except ε β} (first : Excludes p x)
    (rest : Excludes p y) : Excludes p (if c then (do let _ ← x; y) else y) :=
  ite (first.bind fun _ => rest) rest

/-- A guard that fails in another way. -/
theorem guard {c : Prop} [Decidable c] {e : ε} {x : Except ε α} (other : p e = false)
    (rest : Excludes p x) : Excludes p (if c then (do MonadExcept.throw e; x) else x) :=
  check (throw other) rest

end Excludes

/-! ### Reading -/

open Excludes

theorem Store.excludes_readOnto (store : Store) (front : Array UInt8) (offset n : Nat) :
    Excludes Error.isFromPadding (store.readOnto front offset n) := by
  fun_induction readOnto store front offset n with
  | case1 => exact ok _
  | case2 => exact error rfl
  | case3 _ _ _ _ _ _ ih => exact ih

namespace View

variable (view : View) (offset size : Nat)

theorem excludes_checkRange : Excludes Error.isFromPadding (view.checkRange offset size) :=
  ite (ok ()) (error rfl)

theorem excludes_slice : Excludes Error.isFromPadding (view.slice offset size) := by
  unfold slice
  split
  · exact ok _
  · exact error rfl

theorem excludes_copy : Excludes Error.isFromPadding (view.copy offset size) :=
  (view.excludes_checkRange _ _).bind fun _ => view.store.excludes_readOnto _ _ _

theorem excludes_read : Excludes Error.isFromPadding (view.read offset size) :=
  (view.excludes_checkRange _ _).bind fun _ =>
    guard rfl (view.store.excludes_readOnto _ _ _)

end View

theorem EndRecord.excludes_find (apk : View) : Excludes Error.isFromPadding (find apk) := by
  have searched (limit : Nat) : Excludes Error.isFromPadding (search apk limit) :=
    (apk.excludes_read _ _).bind fun _ => pure _
  unfold find
  refine ite (pure _) ((searched 0).bind fun found => ?_)
  split
  · exact pure _
  · exact searched _

theorem SigningBlock.excludes_find (apk : View) (directoryOffset : Nat) :
    Excludes Error.isFromPadding (find apk directoryOffset) := by
  unfold find
  refine ite (pure _) ((apk.excludes_read _ _).bind fun _ => ite (pure _) ?_)
  refine ite (pure _) (ite (pure _) ((apk.excludes_read _ _).bind fun _ => ite (pure _) ?_))
  exact (apk.excludes_slice _ _).bind fun _ => pure _

namespace Sections

theorem excludes_locate (apk : View) : Excludes Error.isFromPadding (locate apk) := by
  unfold locate
  refine (EndRecord.excludes_find apk).bind fun found => ?_
  split
  · refine guard rfl (guard rfl (guard rfl ?_))
    exact (SigningBlock.excludes_find _ _).bind fun _ => pure _
  · exact throw rfl

theorem excludes_readDirectory (sections : Sections) (apk : View) :
    Excludes Error.isFromPadding (sections.readDirectory apk) :=
  guard rfl (apk.excludes_read _ _)

end Sections

/-! ### Records -/

theorem DirectoryRecord.excludes_parse (bytes : Bytes) :
    Excludes Fault.isFromPadding (parse bytes) := by
  unfold parse
  split
  · exact error rfl
  · refine ite (error rfl) ?_
    split
    · exact error rfl
    · exact ok _

theorem DirectoryRecord.excludes_newDeflated (name : String) (modified : Timestamp)
    (crc32 compressedSize uncompressedSize localOffset : UInt32) :
    Excludes Error.isFromPadding
      (newDeflated name modified crc32 compressedSize uncompressedSize localOffset) := by
  unfold newDeflated
  dsimp only
  split
  · exact ok _
  · exact error rfl

/-- The induction is on the count of records. -/
theorem Directory.excludes_parse (count offset : Nat) (bytes : Bytes) :
    Excludes Error.isFromPadding (parse count offset bytes) := by
  have onto (found : List DirectoryRecord) (names : Std.TreeSet String) (number : Nat) :
      Excludes Error.isFromPadding (parseOnto found names number offset count bytes) := by
    induction count generalizing found names number offset bytes with
    | zero => exact ite (ok _) (error rfl)
    | succ count ih =>
      unfold parseOnto
      split
      · next fault failed =>
        exact error (DirectoryRecord.excludes_parse bytes fault failed)
      · exact ite (error rfl) (ih _ _ _ _ _)
  exact onto [] ∅ 1

namespace LocalRecord

theorem excludes_checkHeader (record : DirectoryRecord) (header : LocalHeader) :
    Excludes Fault.isFromPadding (checkHeader record header) := by
  unfold checkHeader
  refine guard rfl (guard rfl (ite ?_ (pure ())))
  exact guard rfl (guard rfl (ite (throw rfl) (pure ())))

theorem excludes_checkName (record : DirectoryRecord) (nameSize : Nat) (bytes : Bytes) :
    Excludes Fault.isFromPadding (checkName record nameSize bytes) :=
  guard rfl (ite (throw rfl) (pure ()))

/-- Where a data descriptor would end is read first, and then blamed on the record. -/
theorem excludes_descriptorStop (entries : View) (name : String) (dataStop directory start : Nat) :
    Excludes Error.isFromPadding (do
      let stop ← descriptorStop entries name dataStop directory
      stop.mapError (Error.faultAt start)) := by
  have overlap (stop : Nat) : Excludes Error.isFromPadding
      ((Except.error (.descriptorOverlap name stop directory) : Except Fault Nat).mapError
        (Error.faultAt start)) := error rfl
  unfold descriptorStop
  dsimp only
  split
  · exact overlap _
  · rw [bind_assoc]
    refine (entries.excludes_copy _ _).bind fun sign => ?_
    split
    · exact ok _
    · split
      · exact overlap _
      · exact ok _

theorem excludes_locate (entries : View) (record : DirectoryRecord) (directory : Nat) :
    Excludes Error.isFromPadding (locate entries record directory) := by
  have blamed {α : Type} {x : Except Fault α} (h : Excludes Fault.isFromPadding x) :
      Excludes Error.isFromPadding (x.mapError (Error.faultAt record.localOffset.toNat)) :=
    h.mapError fun _ => rfl
  unfold locate
  dsimp only
  refine check (blamed (throw rfl)) ((entries.excludes_read _ _).bind fun bytes => ?_)
  split
  · next header nameBytes _ =>
    refine (blamed (excludes_checkHeader record header)).bind fun _ => ?_
    refine (blamed (excludes_checkName record _ nameBytes)).bind fun _ => ?_
    refine check (blamed (throw rfl)) ?_
    -- With an extra field or without one, what is left is to find the end of the record.
    refine ite ((pure _).bind fun extra => ?_) ((entries.excludes_read _ _).bind fun extra => ?_)
    all_goals
      split
      · rw [← bind_assoc]
        exact (excludes_descriptorStop entries record.name _ directory _).bind fun _ => pure _
      · exact (pure _).bind fun _ => pure _
  · exact (blamed (throw rfl))

end LocalRecord

end ApkArchive
