/-!
# ShapeFit.Diagnostic.Span

Byte ranges into the text of a signature literal.

Offsets are held in 32 bits: `Span.ofOffsets` saturates larger ones. A span may
run backwards, and is empty then.
-/

namespace ShapeFit

/-- A byte range. -/
structure Span where
  start : Nat
  stop : Nat
deriving DecidableEq

namespace Span

/-- The largest offset that a span can hold. -/
def limit : Nat := UInt32.size - 1

/-- The span between two offsets, each of them cut at `limit`. -/
def ofOffsets (start stop : Nat) : Span := ⟨min start limit, min stop limit⟩

/-- The empty span at the start of a text. -/
def zero : Span := ⟨0, 0⟩

/-- The number of bytes covered. -/
def length (s : Span) : Nat := s.stop - s.start

/-- Whether no byte is covered. -/
def isEmpty (s : Span) : Bool := s.length == 0

/-- The smallest span that covers two spans. -/
def merge (s t : Span) : Span := ⟨min s.start t.start, max s.stop t.stop⟩

/-- The two offsets with dots between them. -/
def text (s : Span) : String := toString s.start ++ ".." ++ toString s.stop

end Span

end ShapeFit
