import Simian.IoError

/-!
# Decoding UTF-8

Bytes are decoded from left to right into characters and errors. A lead byte
tells how many continuation bytes have to follow; only when they are all there is
the code point looked at, which must be a character and must not have a shorter
encoding. A byte that should continue a character and does not is an error of
that character, and begins the next one.

This is the decoder that files are read with. Reading itself works with any
other, and relies on little of what a decoder does with bytes that are no text.
-/

namespace Simian.Text

/-- A character of which some continuation bytes are still missing. -/
structure Pending where
  missing : Nat
  value : Nat
  /-- The least code point whose encoding is this long. -/
  least : Nat

/-- What the first byte of a character tells. -/
def lead? (b : Nat) : Option Pending :=
  if b < 0x80 then some ⟨0, b, 0⟩
  else if 0xc0 ≤ b ∧ b < 0xe0 then some ⟨1, b % 0x20, 0x80⟩
  else if 0xe0 ≤ b ∧ b < 0xf0 then some ⟨2, b % 0x10, 0x800⟩
  else if 0xf0 ≤ b ∧ b < 0xf8 then some ⟨3, b % 0x08, 0x10000⟩
  else none

/-- Adds a continuation byte. -/
def Pending.push? (p : Pending) (b : Nat) : Option Pending :=
  if 0x80 ≤ b ∧ b < 0xc0 then
    some ⟨p.missing - 1, p.value * 0x40 + b % 0x40, p.least⟩
  else none

/-- The character that has been read, when none of its bytes is missing. -/
def Pending.char? (p : Pending) : Except IoError Char :=
  if p.least ≤ p.value ∧ p.value.isValidChar then .ok (Char.ofNat p.value)
  else .error .invalidData

/-- What a byte completes, and the character that goes on after it. -/
structure Progress where
  complete : List (Except IoError Char)
  pending : Option Pending

/-- Hands a character out when it has all its bytes. -/
def Pending.settle (p : Pending) : Progress :=
  if p.missing = 0 then ⟨[p.char?], none⟩ else ⟨[], some p⟩

/-- Takes the first byte of a character. -/
def Progress.start (b : Nat) : Progress :=
  match lead? b with
  | none => ⟨[.error .invalidData], none⟩
  | some p => p.settle

/-- Takes a byte after those of a pending character. -/
def Progress.advance (pending : Option Pending) (b : Nat) : Progress :=
  match pending with
  | none => start b
  | some p =>
    match p.push? b with
    | some p => p.settle
    | none => let next := start b; ⟨.error .invalidData :: next.complete, next.pending⟩

/-- The characters and the errors in the bytes that follow those of a pending
character. Bytes that end within a character are too few, not wrong. -/
def decodeFrom (pending : Option Pending) : List UInt8 → List (Except IoError Char)
  | [] => if pending.isSome then [.error .unexpectedEof] else []
  | b :: bytes =>
    let p := Progress.advance pending b.toNat
    p.complete ++ decodeFrom p.pending bytes

/-- The characters and the errors in some bytes. -/
def decodeUtf8 (bytes : List UInt8) : List (Except IoError Char) :=
  decodeFrom none bytes

end Simian.Text
