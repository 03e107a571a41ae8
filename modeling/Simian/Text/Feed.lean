import Simian.IoError

/-!
# Text that is decoded on demand

A feed hands out one character after another, each with its byte offset, and
keeps a copy of the text it has handed out. At an error it hands out nothing and
notes the error. It can still be asked again, and goes on behind the error.

The offset is counted in a word of 32 bits, which begins again at zero behind its
largest number.
-/

namespace Simian.Text

/-- A text of which a part has been handed out. -/
structure Feed where
  /-- The characters and errors still to come. -/
  items : List (Except IoError Char)
  /-- The characters handed out so far. -/
  copy : String
  /-- The number of their bytes. -/
  offset : UInt32
  /-- The error met last. -/
  fault : Option IoError

namespace Feed

/-- A feed of which nothing has been handed out. -/
def ofItems (items : List (Except IoError Char)) : Feed :=
  ⟨items, "", 0, none⟩

/-- The feed of a text that is there already. -/
def ofChars (chars : List Char) : Feed :=
  ofItems (chars.map .ok)

/-- Asks for the next character and its offset. -/
def poll (feed : Feed) : Option (UInt32 × Char) × Feed :=
  match feed.items with
  | [] => (none, feed)
  | .ok c :: items =>
    (some (feed.offset, c),
      { feed with items, copy := feed.copy.push c, offset := feed.offset + .ofNat c.utf8Size })
  | .error error :: items => (none, { feed with items, fault := some error })

/-- The text handed out, if no error was met. -/
def outcome (feed : Feed) : Except IoError String :=
  match feed.fault with
  | some error => .error error
  | none => .ok feed.copy

end Feed

/-- The error that is noted last at an error with the given items behind it. The feed
is asked once more there, and a second error takes the place of the first. -/
def told (error : IoError) : List (Except IoError Char) → IoError
  | .error next :: _ => next
  | _ => error

/-- The characters, when there is no error among them, or else the error that is told. -/
def allChars : List (Except IoError Char) → Except IoError (List Char)
  | [] => .ok []
  | .ok c :: items => (c :: ·) <$> allChars items
  | .error error :: items => .error (told error items)

/-- Items without an error are their characters. -/
@[simp] theorem allChars_map_ok (chars : List Char) : allChars (chars.map .ok) = .ok chars := by
  induction chars with
  | nil => rfl
  | cons c chars ih =>
    simp only [List.map_cons, allChars, ih]
    rfl

end Simian.Text
