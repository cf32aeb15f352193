import LiveBinding.Tree.Scope

namespace LiveBinding

/-- The slots of a dynamic binding that were handed out while it is compiled. -/
structure Storage where
  /-- What each capture slot loads. -/
  captured : List Loadable := []
  scratch : Nat := 0
  flags : Nat := 0
  counters : Nat := 0

namespace Storage

def empty : Storage := {}

def captures (s : Storage) : Nat := s.captured.length

/-- The slot of a loadable, which it shares with every loadable of the same id. -/
def capture (l : Loadable) : StateM Storage Nat := fun s ↦
  match s.captured.findIdx? (·.id == l.id) with
  | some slot => (slot, s)
  | none => (s.captures, { s with captured := s.captured ++ [l] })

def newScratch : StateM Storage Nat := fun s ↦ (s.scratch, { s with scratch := s.scratch + 1 })

def newFlag : StateM Storage Nat := fun s ↦ (s.flags, { s with flags := s.flags + 1 })

def newCounter : StateM Storage Nat := fun s ↦ (s.counters, { s with counters := s.counters + 1 })

/-- The layout for all flags, known once the last one is handed out. -/
def layout (s : Storage) (capacity : Nat) : FlagLayout := .choose s.flags capacity

/-- Loads every captured value into its slot, from slot `n` on. -/
def loads : Nat → List Loadable → Fragment
  | _, [] => .empty
  | n, l :: rest => l.load ++ .op (.storeCapture n) ++ loads (n + 1) rest

def init (s : Storage) : Fragment := loads 0 s.captured

end Storage

end LiveBinding
