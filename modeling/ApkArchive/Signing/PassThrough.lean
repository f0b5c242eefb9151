import ApkArchive.Signing.Sign

/-!
# Runs that sign nothing

The engine of such a run keeps every entry, looks at none, adds none and asks for no signing block,
so the run does nothing but align. If the engine strips signatures it drops the files of a JAR
signature: the manifest and what stands directly in `META-INF/` with one of four endings.
-/

namespace ApkArchive.Signing.PassThrough

/-- Whether an entry belongs to a JAR signature, by its name. -/
def isSignatureEntry (name : String) : Bool :=
  match name.toList.drop 9 with
  | file =>
    "META-INF/".toList.isPrefixOf name.toList && !file.contains '/' &&
      (file = "MANIFEST.MF".toList ||
        [".SF", ".RSA", ".DSA", ".EC"].any fun ending => ending.toList.isSuffixOf file)

/-- The engine. Its state says whether the input has a signing block. -/
def engine (stripSignatures : Bool) : Engine Bool where
  inputBlock block := set block.isSome
  inputEntry name :=
    if stripSignatures && isSignatureEntry name then
      pure { disposition := .skip, remark := some (.signatureStripped name) }
    else pure { disposition := .keep }
  outputEntry _ := pure none
  inspected _ _ _ := pure ()
  newEntries := pure none
  newEntriesWritten := pure ()
  signingBlock _ := pure none
  blockWritten := pure ()
  finished := pure ()

/-- Whether an entry is kept, by its name. -/
def keeps (strip : Bool) (name : String) : Bool := !(strip && isSignatureEntry name)

theorem inputEntry_of_keeps {strip : Bool} {name : String} (stays : keeps strip name = true) :
    (engine strip).inputEntry name = pure { disposition := .keep } := by
  rw [keeps, Bool.not_eq_true'] at stays
  unfold engine
  dsimp only
  rw [stays]
  rfl

theorem inputEntry_of_not_keeps {strip : Bool} {name : String} (drops : keeps strip name = false) :
    (engine strip).inputEntry name =
      pure { disposition := .skip, remark := some (.signatureStripped name) } := by
  rw [keeps, Bool.not_eq_false'] at drops
  unfold engine
  dsimp only
  rw [drops]
  rfl

/-- The run on an archive with an output in memory. -/
def rewrite (strip : Bool) (config : Config) (input : Bytes) :
    EStateM.Result Error (Session Bool) Summary :=
  (sign (engine strip) config (View.ofBytes input)).run { engine := false }

end ApkArchive.Signing.PassThrough
