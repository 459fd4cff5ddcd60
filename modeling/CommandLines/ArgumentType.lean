/-
Types of arguments: how an argument is read from the line.

An argument type reads a value at a cursor, and a cursor from which a value was read
only ever moves forward.  The types here read numbers between bounds, booleans, texts of
three kinds, and words out of a fixed choice; a host may add types of its own.
-/
import CommandLines.Completion.Completer
import CommandLines.Cursor.Reading

namespace CommandLines

/-- A way to read arguments. -/
structure ArgumentType where
  /-- The type of the values. -/
  valueType : ValueType
  /-- Read a value; after a failure the cursor is where the reading stopped or went back to. -/
  read : Cursor → Read valueType.Carrier
  /-- Texts that read well, used to find out which arguments can be mistaken for each other. -/
  examples : List String := []
  /-- The completions of what is typed. -/
  complete : Completer → Except Fault Completions := fun _ => .ok .none
  /-- Reading a value moves forward. -/
  reaches : ∀ (c after : Cursor) (x : valueType.Carrier), read c = (.ok x, after) →
    c.Reaches after

namespace ArgumentType

/-- Texts that every type of whole numbers reads, or every type of numbers with a fraction. -/
def numberExamples : NumberType → List String
  | .int | .long => ["0", "123", "-123"]
  | .float | .double => ["0", "1.2", ".5", "-1", "-.5", "-1234.56"]

/-- Read a number and check it against the bounds; a number outside is left unread. -/
def readBounded (t : NumberType) (minimum maximum : t.Carrier) (c : Cursor) : Read t.Carrier :=
  match c.readNumber t with
  | (.error f, after) => (.error f, after)
  | (.ok found, after) =>
    if t.less found minimum then (.error (c.fault (.tooLow t found minimum)), c)
    else if t.less maximum found then (.error (c.fault (.tooHigh t found maximum)), c)
    else (.ok found, after)

theorem reaches_readBounded (t : NumberType) (minimum maximum : t.Carrier) (c : Cursor) :
    c.Reaches (readBounded t minimum maximum c).2 := by
  have h := Cursor.reaches_readNumber t c
  unfold readBounded
  split
  · next heq => rwa [heq] at h
  · next heq =>
    rw [heq] at h
    split
    · exact .refl c
    · split
      · exact .refl c
      · exact h

/-- Numbers of a width between two bounds, both included. -/
def number (t : NumberType) (minimum : t.Carrier := t.lowest) (maximum : t.Carrier := t.highest) :
    ArgumentType where
  valueType := .number t
  read := readBounded t minimum maximum
  examples := numberExamples t
  reaches c _ _ h := by simpa [h] using reaches_readBounded t minimum maximum c

/-- The words for booleans that start with what is typed. -/
def completeBool (b : Completer) : Except Fault Completions :=
  .ok (["true", "false"].foldl
    (fun b word => if Text.startsWith word b.typedLower then b.suggest word else b) b).finish

/-- Booleans. -/
def bool : ArgumentType where
  valueType := .bool
  read := Cursor.readBool
  examples := ["true", "false"]
  complete := completeBool
  reaches c _ _ h := by simpa [h] using Cursor.reaches_readBool c

/-- How much of the line a text argument takes. -/
inductive TextKind where
  /-- One word. -/
  | word
  /-- One word, or a text in quotes. -/
  | phrase
  /-- The rest of the line. -/
  | rest
deriving DecidableEq, Repr

/-- Read a text. -/
def readText : TextKind → Cursor → Read String
  | .word, c => (.ok c.readWord.1, c.readWord.2)
  | .phrase, c => c.readString
  | .rest, c => (.ok c.rest, c.finish)

/-- Texts that a kind of text argument takes. -/
def textExamples : TextKind → List String
  | .word => ["word", "words_with_underscores"]
  | .phrase => ["\"quoted phrase\"", "word", "\"\""]
  | .rest => ["word", "words with spaces", "\"and symbols\""]

theorem reaches_readText (kind : TextKind) (c : Cursor) : c.Reaches (readText kind c).2 := by
  cases kind with
  | word => exact Cursor.reaches_readWord c
  | phrase => exact Cursor.reaches_readString c
  | rest => exact Cursor.reaches_finish c

/-- Texts. -/
def text (kind : TextKind) : ArgumentType where
  valueType := .text
  read := readText kind
  examples := textExamples kind
  reaches c _ _ h := by simpa [h] using reaches_readText kind c

/-- Read one of the words given; any other word is left unread. -/
def readChoice (options : List String) (c : Cursor) : Read String :=
  let (word, after) := c.readWord
  if options.contains word then (.ok word, after)
  else (.error (c.fault (.parseFailure ("unknown choice '" ++ word ++ "'"))), c)

theorem reaches_readChoice (options : List String) (c : Cursor) :
    c.Reaches (readChoice options c).2 := by
  have h := Cursor.reaches_readWord c
  unfold readChoice
  simp only
  split
  · exact h
  · exact .refl c

/-- One of a fixed set of words, which are not given away as examples or completions. -/
def choice (options : List String) : ArgumentType where
  valueType := .text
  read := readChoice options
  reaches c _ _ h := by simpa [h] using reaches_readChoice options c

/-- Read a value together with its type. -/
def readValue (a : ArgumentType) (c : Cursor) : Read Value :=
  match a.read c with
  | (.error f, after) => (.error f, after)
  | (.ok x, after) => (.ok ⟨a.valueType, x⟩, after)

theorem reaches_readValue {a : ArgumentType} {c after : Cursor} {v : Value}
    (h : a.readValue c = (.ok v, after)) : c.Reaches after := by
  unfold readValue at h
  split at h
  · simp at h
  · next x place heq =>
    simp only [Prod.mk.injEq, Except.ok.injEq] at h
    obtain ⟨-, rfl⟩ := h
    exact a.reaches _ _ _ heq

end ArgumentType

end CommandLines
