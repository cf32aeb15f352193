import LiveBinding.Render.Container
import LiveBinding.Render.Storage
import LiveBinding.Render.Strategy

namespace LiveBinding

/-- A tree that is being rendered so that it can resume at every observable property it reads. The
stack is empty where it resumes. -/
structure Resumable where
  storage : Storage := {}
  /-- Step 0 evaluates from the start. -/
  nextStep : Nat := 1
  nextContainer : Nat := 1
  /-- The counters of the branches around, innermost first. -/
  enclosing : List Nat := []
  /-- The points and the children of the innermost container so far. -/
  points : List SavePoint := []
  children : List Container := []

namespace Resumable

def start : Resumable := {}

def withStorage {α : Type} (f : StateM Storage α) : StateM Resumable α := fun s ↦
  let (a, storage) := f s.storage
  (a, { s with storage })

def newPoint : StateM Resumable SavePoint := fun s ↦
  let (handle, storage) := Storage.newScratch s.storage
  let point : SavePoint := ⟨s.nextStep, handle, s.enclosing⟩
  (point, { s with storage, nextStep := s.nextStep + 1, points := s.points ++ [point] })

def newSlots : Nat → StateM Resumable (List Nat)
  | 0 => return []
  | n + 1 => do
    let slot ← withStorage Storage.newScratch
    let slots ← newSlots n
    return slot :: slots

/-- How many operands have to be set aside: all up to the last one that can resume, unless that is
the first. -/
def spilled (operands : List Operand) : Nat :=
  let n := (operands.reverse.dropWhile (!·.monitored)).length
  if n ≤ 1 then 0 else n

/-- Operands before a point where the update resumes are kept in scratch slots and loaded again
after the last such point. -/
def spill (operands : List Operand) (slots : List Nat) : Fragment :=
  .concat (((operands.zip slots).map fun (o, slot) ↦ o.code ++ .op (.storeScratch slot)) ++
    slots.map (fun slot ↦ .op (.loadScratch slot)) ++
    (operands.drop slots.length).map Operand.code)

/-- Renders a right operand in a container of its own. -/
def inContainer (flag counter : Nat) (right : StateM Resumable Fragment) :
    StateM Resumable (Fragment × Container) := fun s ↦
  let inner : Resumable :=
    { s with nextContainer := s.nextContainer + 1, enclosing := counter :: s.enclosing
             points := [], children := [] }
  let (code, t) := right inner
  let child : Container :=
    .mk s.nextContainer (some flag) s.nextStep t.nextStep t.points t.children
  ((code, child),
    { t with enclosing := s.enclosing, points := s.points, children := s.children ++ [child] })

/-- The outermost container, once everything is rendered. -/
def root (s : Resumable) : Container := .mk 0 none 0 s.nextStep s.points s.children

def steps (s : Resumable) : List Nat := List.range s.nextStep

end Resumable

/-- Listens to everything that it reads and resumes at what has changed. -/
def Strategy.resumable : Strategy Resumable where
  loadScope l := do
    let slot ← Resumable.withStorage (Storage.capture l)
    return .op (.loadCapture slot)
  observe property := do
    let point ← Resumable.newPoint
    return .observe property point
  operands list := do
    let slots ← Resumable.newSlots (Resumable.spilled list)
    return Resumable.spill list slots
  shortCircuit op left right monitored := do
    if monitored then
      let flag ← Resumable.withStorage Storage.newFlag
      let counter ← Resumable.withStorage Storage.newCounter
      let (right, child) ← Resumable.inContainer flag counter right
      return .branch op left right flag counter child.allPoints
    else
      let right ← right
      return .shortCircuit op left right

end LiveBinding
