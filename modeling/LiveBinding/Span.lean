import LiveBinding.Text.Slice

namespace LiveBinding

/-- Bytes `start` up to but not including `stop` of an attribute's text. -/
structure Span where
  start : Nat
  stop : Nat
deriving DecidableEq, Inhabited

namespace Span

/-- Offsets are stored in 32 bits and stay at the largest one when they would pass it. -/
def maxOffset : Nat := 4294967295

def ofRange (start stop : Nat) : Span := ⟨min start maxOffset, min stop maxOffset⟩

def length (s : Span) : Nat := s.stop - s.start

def isEmpty (s : Span) : Bool := s.stop ≤ s.start

/-- The smallest span that covers both. -/
def merge (s t : Span) : Span := ⟨min s.start t.start, max s.stop t.stop⟩

def shift (s : Span) (delta : Nat) : Span :=
  ⟨min (s.start + delta) maxOffset, min (s.stop + delta) maxOffset⟩

def slice? (s : Span) (text : String) : Option String := Text.slice? text s.start s.stop

def render (s : Span) : String := toString s.start ++ ".." ++ toString s.stop

end Span

end LiveBinding
