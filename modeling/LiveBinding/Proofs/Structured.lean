import LiveBinding.Proofs.Assembly
import LiveBinding.Proofs.Instruction

namespace LiveBinding

/-- A call of a host method and what came back. -/
structure Call where
  method : MethodId
  args : List Value
  answer : Except Stop Value

/-- What running a stretch of code comes to: the calls it made, how it ended, and where. -/
structure Outcome where
  calls : List Call := []
  result : Except Stop Unit
  machine : Machine

abbrev Block := Machine → Outcome

namespace Block

def andThen (first second : Block) : Block := fun m ↦
  let o := first m
  match o.result with
  | .ok _ =>
    let o' := second o.machine
    ⟨o.calls ++ o'.calls, o'.result, o'.machine⟩
  | .error _ => o

def skip : Block := fun m ↦ ⟨[], .ok (), m⟩

theorem andThen_assoc (a b c : Block) : (a.andThen b).andThen c = a.andThen (b.andThen c) := by
  funext m
  simp only [andThen]
  rcases a m with ⟨calls, _ | _, m'⟩
  · rfl
  · dsimp only
    rcases b m' with ⟨calls', _ | _, m''⟩
    · rfl
    · simp

end Block

namespace Exec

variable (r : Registry) (update : Updater) (fuel : Nat) (frame : Frame)

/-- The call that an instruction makes. -/
def callsOf (op : Op) (m : Machine) : List Call :=
  let ask (id : MethodId) (args stack : List Value) : Call :=
    ⟨id, args, (lift (invokeMethod r update fuel id args) { m with stack }).1⟩
  match op with
  | .invoke id argc =>
    match m.stack.drop argc with
    | receiver :: rest =>
      if receiver.isNull then [] else [ask id (receiver :: (m.stack.take argc).reverse) rest]
    | [] => []
  | .invokeStatic id argc | .construct id argc =>
    if m.stack.length < argc then []
    else [ask id (m.stack.take argc).reverse (m.stack.drop argc)]
  | _ => []

/-- The calls of host methods that a routine makes, in order. It follows `execute`. -/
def history (routine : Routine) : Nat → Machine → List Call
  | 0, _ => []
  | steps + 1, m =>
    match routine.ops[m.pc]? with
    | none | some .return => []
    | some op =>
      callsOf r update fuel op m ++
        match step r update fuel frame routine op { m with pc := m.pc + 1 } with
        | (.ok _, m') => history routine steps m'
        | (.error _, _) => []

def runOp (op : Op) : Block := fun m ↦
  let (result, m') := step r update fuel frame default op m
  ⟨callsOf r update fuel op m, result, m'⟩

def runOps : List Op → Block
  | [] => .skip
  | op :: ops => (runOp r update fuel frame op).andThen (runOps ops)

/-- Whether a conditional jump is taken. -/
def condition : Op → Exec Bool
  | .jumpIfFalse _ => do
    let b ← ofExcept (← pop).toBool
    return !b
  | .jumpIfTrue _ => do
    let b ← ofExcept (← pop).toBool
    return b
  | .jumpIfNull _ => do
    let v ← pop
    return v.isNull
  | .jumpIfSame _ => do
    let b ← pop
    let a ← pop
    return a.same b
  | .jumpIfZero _ => do
    let n ← popInt
    return n == 0
  | _ => return false

/-- Goes one of two ways by a conditional jump. -/
def branchOn (jump : Label → Op) (taken untaken : Block) : Block := fun m ↦
  match condition (jump default) m with
  | (.ok true, m') => taken m'
  | (.ok false, m') => untaken m'
  | (.error e, m') => ⟨[], .error e, m'⟩

end Exec

namespace Fragment

open Exec

variable (r : Registry) (update : Updater) (fuel : Nat) (frame : Frame)

/-- Moves the listener of a point to the cell on top, which is taken off the stack. -/
def attach (p : SavePoint) : Block :=
  (runOps r update fuel frame [.dup, .loadScratch p.handle]).andThen <|
  branchOn .jumpIfSame (runOps r update fuel frame [.pop]) <|
  ((runOps r update fuel frame [.loadScratch p.handle, .dup]).andThen <|
    branchOn .jumpIfNull (runOps r update fuel frame [.pop])
      (runOps r update fuel frame (.unsubscribe p.step :: adjust p.counters (-1)))).andThen <|
  runOps r update fuel frame
    (([.storeScratch p.handle, .loadScratch p.handle, .subscribe p.step] : List Op) ++ adjust p.counters 1)

/-- Reads the cell that a point listens to. -/
def reread (p : SavePoint) : Block :=
  runOps r update fuel frame [.loadScratch p.handle, .observableValue]

def detach (p : SavePoint) : Block :=
  (runOps r update fuel frame [.loadScratch p.handle, .dup]).andThen <|
  branchOn .jumpIfNull (runOps r update fuel frame [.pop]) <|
  runOps r update fuel frame
    (([.unsubscribe p.step, .pushNull, .storeScratch p.handle] : List Op) ++ adjust p.counters (-1))

def detachAll : List SavePoint → Block
  | [] => .skip
  | p :: ps => (detach r update fuel frame p).andThen (detachAll ps)

variable (layout : Option FlagLayout)

def assignFlag (flag : Nat) (value : Bool) : Block :=
  runOps r update fuel frame [(layoutFor layout flag).assign flag value]

/-- Tests the left operand of `&&` or `||`, which is the result if it decides. -/
def decide (op : BinaryOp) (decided undecided : Block) : Block :=
  (runOps r update fuel frame [.dup]).andThen <|
  branchOn (skipJump op) decided ((runOps r update fuel frame [.pop]).andThen undecided)

/-- Skips a right operand that listens to cells. -/
def skipBranch (flag counter : Nat) (points : List SavePoint) : Block :=
  (assignFlag r update fuel frame layout flag false).andThen <|
  (runOps r update fuel frame [.counterLoad counter]).andThen <|
  branchOn .jumpIfZero .skip (detachAll r update fuel frame points)

/-- Runs the code of a fragment, without labels. -/
def run : Fragment → Block
  | ops list => runOps r update fuel frame list
  | append first second => (run first).andThen (run second)
  | nullGuard convert default =>
    (runOps r update fuel frame [.dup]).andThen <|
    branchOn .jumpIfNull ((runOps r update fuel frame [.pop]).andThen (run default)) (run convert)
  | shortCircuit op left right => (run left).andThen (decide r update fuel frame op .skip (run right))
  | flagTest flag => runOps r update fuel frame [(layoutFor layout flag).test flag]
  | flagAssign flag value => assignFlag r update fuel frame layout flag value
  | observe property p =>
    (runOps r update fuel frame [.getObservable property]).andThen <|
    (attach r update fuel frame p).andThen (reread r update fuel frame p)
  | branch op left right flag counter points =>
    (run left).andThen <| decide r update fuel frame op
      (skipBranch r update fuel frame layout flag counter points)
      ((assignFlag r update fuel frame layout flag true).andThen (run right))

/-- The points of a fragment, in the order of its code. -/
def points : Fragment → List SavePoint
  | ops _ | flagTest _ | flagAssign .. => []
  | append f g | nullGuard f g | shortCircuit _ f g | branch _ f g .. => points f ++ points g
  | observe _ p => [p]

def steps (f : Fragment) : List Nat := f.points.map SavePoint.step

@[simp] theorem steps_append (f g : Fragment) : (append f g).steps = f.steps ++ g.steps := by
  simp [steps, points]

@[simp] theorem steps_nullGuard (f g : Fragment) : (nullGuard f g).steps = f.steps ++ g.steps := by
  simp [steps, points]

@[simp] theorem steps_shortCircuit (op : BinaryOp) (f g : Fragment) :
    (shortCircuit op f g).steps = f.steps ++ g.steps := by
  simp [steps, points]

@[simp] theorem steps_branch (op : BinaryOp) (f g : Fragment) (flag counter : Nat)
    (ps : List SavePoint) : (branch op f g flag counter ps).steps = f.steps ++ g.steps := by
  simp [steps, points]

/-- Runs what is left of a fragment from the point of a step on. -/
def resume (k : Nat) : Fragment → Block
  | ops _ | flagTest _ | flagAssign .. => .skip
  | append first second =>
    if k ∈ first.steps then (resume k first).andThen (second.run r update fuel frame layout)
    else resume k second
  | nullGuard convert default => if k ∈ convert.steps then resume k convert else resume k default
  | shortCircuit op left right =>
    if k ∈ left.steps then
      (resume k left).andThen
        (decide r update fuel frame op .skip (right.run r update fuel frame layout))
    else resume k right
  | observe _ p => reread r update fuel frame p
  | branch op left right flag counter points =>
    if k ∈ left.steps then
      (resume k left).andThen <| decide r update fuel frame op
        (skipBranch r update fuel frame layout flag counter points)
        ((assignFlag r update fuel frame layout flag true).andThen
          (right.run r update fuel frame layout))
    else resume k right

/-- The instructions of a fragment that are given as such do not jump. -/
def isStraight : Fragment → Bool
  | ops list => list.all Op.isStraight
  | append f g | nullGuard f g | shortCircuit _ f g | branch _ f g .. => f.isStraight && g.isStraight
  | flagTest _ | flagAssign .. | observe .. => true

end Fragment

end LiveBinding
