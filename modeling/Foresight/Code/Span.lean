/-!
# Spans

Half-open ranges of byte offsets into a text.
-/

namespace Foresight

structure Span where
  start : Nat
  stop : Nat
  deriving DecidableEq, Inhabited

namespace Span

/-- The span without text at an offset. -/
def point (offset : Nat) : Span := ⟨offset, offset⟩

def length (s : Span) : Nat := s.stop - s.start

def isEmpty (s : Span) : Bool := s.length == 0

def contains (s : Span) (offset : Nat) : Bool :=
  s.start ≤ offset && offset < s.stop

end Span

end Foresight
