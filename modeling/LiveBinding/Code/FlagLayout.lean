import LiveBinding.Code.Op

namespace LiveBinding

/-- How a binding keeps its flags: in one word, or in as many words as they need. -/
inductive FlagLayout where
  | word (bits : Nat)
  | words (bits count : Nat)
deriving DecidableEq

namespace FlagLayout

def wordSize : Nat := 64

/-- One word for up to `capacity` flags, which is at least one and at most the size of a word. -/
def choose (bits capacity : Nat) : FlagLayout :=
  if bits ≤ min (max capacity 1) wordSize then .word bits
  else .words bits ((bits + wordSize - 1) / wordSize)

def bits : FlagLayout → Nat
  | word n | words n _ => n

/-- How many words are kept. -/
def storage : FlagLayout → Nat
  | word n => if n = 0 then 0 else 1
  | words _ count => count

def mask (bit : Nat) : UInt64 := 1 <<< UInt64.ofNat bit

def test (layout : FlagLayout) (bit : Nat) : Op :=
  match layout with
  | word _ => .flagTest (mask bit)
  | words .. => .bitTest bit

def assign (layout : FlagLayout) (bit : Nat) (value : Bool) : Op :=
  match layout with
  | word _ => .flagAssign (mask bit) value
  | words .. => .bitAssign bit value

def render : FlagLayout → String
  | word n => Op.braced "Word" [("bits", toString n)]
  | words n count => Op.braced "Bits" [("bits", toString n), ("words", toString count)]

end FlagLayout

end LiveBinding
