/-!
# Text without terminal control

A log may be shown on a terminal, which takes some characters as commands: control characters, and
the sequences that an escape begins. Names of entries can hold such characters, so `plain` leaves
them out.

    plain text = text  ↔  every character of the text is visible

A sequence ends with the character that its kind asks for. If the text ends first, the rest of the
text belongs to the sequence.
-/

namespace ApkArchive.Terminal

/-! ### Characters -/

/-- The characters that lay a text out. -/
def isLayout (c : Char) : Bool := c = '\t' || c = '\n' || c = '\x0C' || c = '\r'

/-- The characters that belong to a text, whatever shows it. -/
def isVisible (c : Char) : Bool := isLayout c || (' ' ≤ c && c ≠ '\x7F')

/-- The characters that modify what the end of a sequence means. -/
def isIntermediate (c : Char) : Bool := ' ' ≤ c && c ≤ '/'

/-- The characters that parameters of a sequence consist of. -/
def isParameter (c : Char) : Bool := '0' ≤ c && c ≤ '?'

/-- The parameter characters that can only come first. -/
def isPrivate (c : Char) : Bool := '<' ≤ c && c ≤ '?'

/-- The characters that end a sequence with parameters. -/
def isFinal (c : Char) : Bool := '@' ≤ c && c ≤ '~'

/-- Whether the one-byte string terminator is among the bytes of a character. -/
def holdsTerminator (c : Char) : Bool := (String.utf8EncodeChar c).contains 0x9C

/-! ### Sequences -/

/-- The part of a sequence that a character can belong to. -/
inductive Part
  /-- Outside every sequence. -/
  | ground
  /-- After an escape. -/
  | escape
  /-- After an escape and an intermediate character. -/
  | escapeIntermediate
  /-- In a control sequence, which an escape and `[` begin. -/
  | control
  /-- In an operating system command, which an escape and `]` begin. -/
  | command
  /-- At the start of a device control string, which an escape and `P` begin. -/
  | deviceStart
  /-- Among the parameters of a device control string. -/
  | deviceParameters
  /-- Among the intermediate characters of a device control string. -/
  | deviceIntermediate
  /-- In what a device control string has for the device. -/
  | deviceData
  /-- In a string for an application, which an escape and one of `X`, `^` and `_` begin. -/
  | message
  deriving DecidableEq, Repr

namespace Part

/-- The part that a character leads to. Cancel, substitute and escape end every sequence. -/
def next (part : Part) (c : Char) : Part :=
  if c = '\x18' || c = '\x1A' then ground
  else if c = '\x1B' then escape
  else
    match part with
    | ground => ground
    | escape =>
      if c = '[' then control
      else if c = ']' then command
      else if c = 'P' then deviceStart
      else if c = 'X' || c = '^' || c = '_' then message
      else if isIntermediate c then escapeIntermediate
      else if isParameter c || isFinal c then ground
      else escape
    | escapeIntermediate => if isParameter c || isFinal c then ground else escapeIntermediate
    | control => if isFinal c then ground else control
    | command => if c = '\x07' then ground else command
    | deviceStart =>
      if isIntermediate c then deviceIntermediate
      else if isParameter c then deviceParameters
      else if isFinal c then deviceData
      else deviceStart
    | deviceParameters =>
      if isIntermediate c then deviceIntermediate
      else if isPrivate c || isFinal c then deviceData
      else deviceParameters
    | deviceIntermediate => if isParameter c || isFinal c then deviceData else deviceIntermediate
    | deviceData => if holdsTerminator c then ground else deviceData
    | message => if holdsTerminator c then ground else message

/-- Whether a character is shown. Layout is carried out inside a sequence, except inside a
string. -/
def shows (part : Part) (c : Char) : Bool :=
  match part with
  | ground => isVisible c
  | escape | escapeIntermediate | control => isLayout c
  | _ => false

end Part

/-! ### Texts -/

/-- How far the reading of a text has come. -/
structure State where
  part : Part := .ground
  /-- Whether the last character was shown. -/
  shown : Bool := false
  deriving DecidableEq, Repr

/-- Reads a character. Visible characters after a shown one are shown; a sequence that layout
interrupts waits until they end, unless one of them takes more than a byte. -/
def State.next (state : State) (c : Char) : State :=
  if state.shown && isVisible c then ⟨if c.utf8Size = 1 then state.part else .ground, true⟩
  else ⟨state.part.next c, state.part.shows c⟩

/-- The characters that are shown from a state on. -/
def shownFrom (state : State) : List Char → List Char
  | [] => []
  | c :: rest =>
    if (state.next c).shown then c :: shownFrom (state.next c) rest
    else shownFrom (state.next c) rest

/-- The text without control characters and sequences. -/
def plain (text : String) : String := String.ofList (shownFrom {} text.toList)

/-! ### What is left is visible, and what is visible is left -/

theorem isVisible_of_shows {part : Part} {c : Char} (h : part.shows c) : isVisible c := by
  cases part <;> simp_all [Part.shows, isVisible]

theorem isVisible_of_shown {state : State} {c : Char} (h : (state.next c).shown) :
    isVisible c := by
  unfold State.next at h
  split at h
  · next visible => exact (Bool.and_eq_true_iff.1 visible).2
  · exact isVisible_of_shows h

theorem isVisible_of_mem_shownFrom {state : State} {text : List Char} {c : Char}
    (h : c ∈ shownFrom state text) : isVisible c := by
  induction text generalizing state with
  | nil => simp [shownFrom] at h
  | cons d rest ih =>
    unfold shownFrom at h
    split at h
    · next shown =>
      rcases List.mem_cons.1 h with rfl | h
      · exact isVisible_of_shown shown
      · exact ih h
    · exact ih h

theorem ground_next_of_isVisible {c : Char} (h : isVisible c) : Part.ground.next c = .ground := by
  unfold Part.next
  split
  · rfl
  · split
    · next escape => subst escape; exact absurd h (by decide)
    · rfl

theorem next_of_isVisible {c : Char} (shown : Bool) (h : isVisible c) :
    State.next ⟨.ground, shown⟩ c = ⟨.ground, true⟩ := by
  unfold State.next
  split
  · simp
  · simp [ground_next_of_isVisible h, Part.shows, h]

theorem shownFrom_of_isVisible {text : List Char} (shown : Bool)
    (h : ∀ c ∈ text, isVisible c) : shownFrom ⟨.ground, shown⟩ text = text := by
  induction text generalizing shown with
  | nil => rfl
  | cons c rest ih =>
    rw [shownFrom, next_of_isVisible shown (h c (by simp)), if_pos rfl,
      ih true fun d inRest => h d (by simp [inRest])]

theorem plain_eq_self_iff {text : String} :
    plain text = text ↔ ∀ c ∈ text.toList, isVisible c := by
  constructor
  · intro same c inText
    rw [← same, plain, String.toList_ofList] at inText
    exact isVisible_of_mem_shownFrom inText
  · intro visible
    rw [plain, shownFrom_of_isVisible false visible, String.ofList_toList]

@[simp] theorem plain_plain (text : String) : plain (plain text) = plain text :=
  plain_eq_self_iff.2 fun _ inPlain =>
    isVisible_of_mem_shownFrom (by rwa [plain, String.toList_ofList] at inPlain)

example : plain "\x1B[31mred\x1B[0m.txt\n" = "red.txt\n" := by decide

example : plain "\x1B]0;title\x07after\n" = "after\n" := by decide

example : plain "a\x1B[12\n  34mb" = "a\n  34mb" := by decide

end ApkArchive.Terminal

namespace ApkArchive.Column

/-! ### Columns

Texts of a fixed width. A text that is too long for its column is not cut. -/

/-- As many blanks as `text` lacks to be `width` characters long. -/
def padding (width : Nat) (text : String) : String :=
  String.ofList (List.replicate (width - text.length) ' ')

/-- A text at the left of its column. -/
def left (width : Nat) (text : String) : String := text ++ padding width text

/-- A text at the right of its column. -/
def right (width : Nat) (text : String) : String := padding width text ++ text

end ApkArchive.Column
