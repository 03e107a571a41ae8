/-!
# Spans

A span is a half-open range of byte offsets into a source text.

Offsets are numbers here, and so they are in cursors, trees and errors. A scanner
counts them in words of 32 bits, and the spans that it finds are those of a cursor
put into words (`Span.inWords`). As long as a text has less than `2 ^ 32 - 1` bytes,
no offset in it or behind it is too large for a word, and the two are the same.
-/

namespace Simian

/-- The bytes from `start` up to, but not including, `stop`. -/
structure Span where
  start : Nat
  stop : Nat
deriving DecidableEq, Inhabited

namespace Span

/-- The empty span at one offset. -/
def point (offset : Nat) : Span := ⟨offset, offset⟩

/-- The smallest span that covers both. -/
def merge (a b : Span) : Span :=
  ⟨min a.start b.start, max a.stop b.stop⟩

/-- The written form, `start..stop`. -/
def render (s : Span) : String :=
  toString s.start ++ ".." ++ toString s.stop

/-- The span with its offsets put into words of 32 bits. -/
def inWords (s : Span) : Span :=
  ⟨(UInt32.ofNat s.start).toNat, (UInt32.ofNat s.stop).toNat⟩

theorem inWords_eq_self {s : Span} (hstart : s.start < UInt32.size) (hstop : s.stop < UInt32.size) :
    s.inWords = s := by
  rw [inWords, UInt32.toNat_ofNat_of_lt' hstart, UInt32.toNat_ofNat_of_lt' hstop]

end Span

end Simian
