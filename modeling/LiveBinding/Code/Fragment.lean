import LiveBinding.Code.FlagLayout
import LiveBinding.Code.Routine

namespace LiveBinding

/-- A point where an update can resume: its step, the scratch slot that holds the cell it listens
to, and the counters of the branches around it. -/
structure SavePoint where
  step : Nat
  handle : Nat
  counters : List Nat
deriving DecidableEq

/-- Code whose labels and flag instructions are not fixed yet. -/
inductive Fragment where
  | ops (ops : List Op)
  | append (first second : Fragment)
  /-- `convert` for a value on top that is not null, and `default` in its place for null. -/
  | nullGuard (convert default : Fragment)
  /-- The right operand of `&&` or `||` runs only if the left one does not decide. -/
  | shortCircuit (op : BinaryOp) (left right : Fragment)
  | flagTest (flag : Nat)
  | flagAssign (flag : Nat) (value : Bool)
  /-- Listens to a property of the object on top and reads it. The update can resume here. -/
  | observe (property : String) (point : SavePoint)
  /-- `&&` or `||` whose right operand listens to cells. The flag tells whether the right operand
  ran last, and when it is skipped the listeners at its points are taken off. -/
  | branch (op : BinaryOp) (left right : Fragment) (flag counter : Nat) (points : List SavePoint)

namespace Fragment

def empty : Fragment := ops []

def op (o : Op) : Fragment := ops [o]

instance : Append Fragment := ⟨append⟩

def concat (fragments : List Fragment) : Fragment := fragments.foldr (· ++ ·) empty

/-- The jump that skips the right operand. It takes the tested value off the stack. -/
def skipJump (op : BinaryOp) (target : Label) : Op :=
  if op = .and then .jumpIfFalse target else .jumpIfTrue target

def adjust (counters : List Nat) (delta : Int32) : List Op :=
  counters.map (.counterAdd · delta)

/-- The layout of the flags once it is fixed, and until then the one that `flag` needs. -/
def layoutFor (layout : Option FlagLayout) (flag : Nat) : FlagLayout :=
  layout.getD (.choose (flag + 1) FlagLayout.wordSize)

def emitObserve (property : String) (p : SavePoint) (a : Assembler) : Assembler :=
  let (keep, a) := a.newLabel
  let (noDetach, a) := a.newLabel
  let (attach, a) := a.newLabel
  let a := a.emitAll
    [.getObservable property, .dup, .loadScratch p.handle, .jumpIfSame keep,
      .loadScratch p.handle, .dup, .jumpIfNull noDetach, .unsubscribe p.step]
  let a := a.emitAll (adjust p.counters (-1))
  let a := ((a.emit (.jump attach)).place noDetach).emit .pop
  let a := (a.place attach).emitAll
    [.storeScratch p.handle, .loadScratch p.handle, .subscribe p.step]
  let a := a.emitAll (adjust p.counters 1)
  let (resume, a) := a.keyedLabel (.step p.step)
  let a := ((a.emit (.jump resume)).place keep).emit .pop
  (a.placeKey (.step p.step)).emitAll [.loadScratch p.handle, .observableValue]

/-- Takes the listener of a point off its cell, if it has one. -/
def emitDetach (a : Assembler) (p : SavePoint) : Assembler :=
  let (skip, a) := a.newLabel
  let (next, a) := a.newLabel
  let a := a.emitAll
    [.loadScratch p.handle, .dup, .jumpIfNull skip, .unsubscribe p.step, .pushNull,
      .storeScratch p.handle]
  let a := a.emitAll (adjust p.counters (-1))
  (((a.emit (.jump next)).place skip).emit .pop).place next

def emit (layout : Option FlagLayout) : Fragment → Assembler → Assembler
  | ops list, a => a.emitAll list
  | append first second, a => second.emit layout (first.emit layout a)
  | nullGuard convert default, a =>
    let (isNull, a) := a.newLabel
    let (done, a) := a.newLabel
    let a := convert.emit layout (a.emitAll [.dup, .jumpIfNull isNull])
    let a := ((a.emit (.jump done)).place isNull).emit .pop
    (default.emit layout a).place done
  | shortCircuit op left right, a =>
    let (done, a) := a.newLabel
    let a := (left.emit layout a).emitAll [.dup, skipJump op done, .pop]
    (right.emit layout a).place done
  | flagTest flag, a => a.emit ((layoutFor layout flag).test flag)
  | flagAssign flag value, a => a.emit ((layoutFor layout flag).assign flag value)
  | observe property point, a => emitObserve property point a
  | branch op left right flag counter points, a =>
    let (skip, a) := a.newLabel
    let (done, a) := a.newLabel
    let a := (left.emit layout a).emitAll [.dup, skipJump op skip, .pop]
    let a := right.emit layout (a.emit ((layoutFor layout flag).assign flag true))
    let a := (a.emit (.jump done)).place skip
    let a := a.emit ((layoutFor layout flag).assign flag false)
    let a := a.emitAll [.counterLoad counter, .jumpIfZero done]
    (points.foldl emitDetach a).place done

/-- The routine of a fragment alone. -/
def assemble (layout : Option FlagLayout) (f : Fragment) : Except AssemblyError Routine :=
  (f.emit layout .empty).finish

end Fragment

end LiveBinding
