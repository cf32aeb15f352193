import LiveBinding.Host.Run

namespace LiveBinding

/-- A routine being run: the world around it, its stack with the top in front, the instruction to
run next, and how many locks of the result it holds. -/
structure Machine where
  world : World
  stack : List Value := []
  pc : Nat := 0
  locks : LockDepth := 0

/-- What a routine is run with: its locals, the binding whose storage it uses, and a step. -/
structure Frame where
  locals : List Value := []
  binding : Option InstanceId := none
  step : Nat := 0

abbrev Exec := ExceptT Stop (StateM Machine)

namespace Exec

/-- Runs something on the world while the operands stay on the stack. -/
def lift {α : Type} (run : Run α) : Exec α := fun m ↦
  let (result, w) := run.holding m.stack m.world
  (result, { m with world := w })

def fail {α : Type} (e : RuntimeError) : Exec α := throw (.error e)

def ofExcept {α : Type} : Except RuntimeError α → Exec α
  | .ok a => pure a
  | .error e => fail e

def push (v : Value) : Exec Unit := modify fun m ↦ { m with stack := v :: m.stack }

def pop : Exec Value := do
  match (← get).stack with
  | v :: rest =>
    modify fun m ↦ { m with stack := rest }
    return v
  | [] => fail .underflow

def popInt : Exec Int32 := do
  ofExcept (← pop).toInt

/-- Takes the last `n` values off the stack, in the order in which they were pushed. -/
def popArgs (n : Nat) : Exec (List Value) := do
  let stack := (← get).stack
  if stack.length < n then fail .underflow
  else
    modify fun m ↦ { m with stack := stack.drop n }
    return (stack.take n).reverse

def popText (operation : String) : Exec String := do
  match ← pop with
  | .str s => return s
  | .null => fail (.nullReference operation)
  | v => ofExcept (v.mismatch "String")

def goto (pc : Nat) : Exec Unit := modify fun m ↦ { m with pc }

def jumpIf (routine : Routine) (condition : Bool) (l : Label) : Exec Unit :=
  if condition then goto (routine.target l) else pure ()

/-- The object on top, of which a property is to be read. -/
def popReceiver (property : String) : Exec ObjectId := do
  match ← pop with
  | .object o => return o
  | .null => fail (.nullReference ("read of " ++ Problem.tick property))
  | v => ofExcept (v.mismatch "object")

def binding (frame : Frame) : Exec InstanceId :=
  match frame.binding with
  | some i => return i
  | none => fail .missingInstance

def state (frame : Frame) : Exec Instance := do
  let i ← binding frame
  match (← get).world.instance? i with
  | some s => return s
  | none => fail .missingInstance

def setState (frame : Frame) (s : Instance) : Exec Unit := do
  let i ← binding frame
  lift (Run.change (·.modifyInstance i fun _ ↦ s))

def require {α : Type} (message : String) : Option α → Exec α
  | some a => return a
  | none => fail (.fault message)

def readCell (c : CellId) : Exec Value := do
  return (← get).world.cellValue c

def setFlag (frame : Frame) (word : Nat) (mask : UInt64) (value : Bool) : Exec Unit := do
  let s ← state frame
  let bits ← require "flag word out of range" s.flags[word]?
  let bits := if value then bits ||| mask else bits &&& (~~~mask)
  setState frame { s with flags := s.flags.setIfInBounds word bits }

def testFlag (frame : Frame) (word : Nat) (mask : UInt64) : Exec Unit := do
  let s ← state frame
  let bits ← require "flag word out of range" s.flags[word]?
  push (.bool (bits &&& mask != 0))

def storeAt (message : String) (slots : Array Value) (slot : Nat) (v : Value) :
    Exec (Array Value) :=
  if slot < slots.size then return slots.setIfInBounds slot v else fail (.fault message)

def textOf (r : Registry) (v : Value) : Exec String := do
  return (← get).world.text r v

section

variable (r : Registry) (update : Updater) (fuel : Nat)

def call (m : MethodId) (args : List Value) : Exec Unit := do
  push (← lift (invokeMethod r update fuel m args))

/-- Runs one instruction other than a return. -/
def step (frame : Frame) (routine : Routine) : Op → Exec Unit
  | .pushNull => push .null
  | .pushBool b => push (.bool b)
  | .pushInt n => push (.int n)
  | .pushLong n => push (.long n)
  | .pushFloat x => push (.float x)
  | .pushDouble x => push (.double x)
  | .pushChar c => push (.char c)
  | .pushStr s => push (.str s)
  | .loadLocal slot => do
    push (← require "local slot out of range" frame.locals[slot]?)
  | .loadCapture slot => do
    let s ← state frame
    push (← require "capture slot out of range" s.captures[slot]?)
  | .storeCapture slot => do
    let v ← pop
    let s ← state frame
    let captures ← storeAt "capture slot out of range" s.captures slot v
    setState frame { s with captures }
  | .loadScratch slot => do
    let s ← state frame
    push (← require "scratch slot out of range" s.scratch[slot]?)
  | .storeScratch slot => do
    let v ← pop
    let s ← state frame
    let scratch ← storeAt "scratch slot out of range" s.scratch slot v
    setState frame { s with scratch }
  | .loadStep => push (.int (Builtin.countInt frame.step))
  | .dup => do
    let v ← pop
    push v
    push v
  | .pop => do
    let _ ← pop
  | .swap => do
    let b ← pop
    let a ← pop
    push b
    push a
  | .getProperty property => do
    let o ← popReceiver property
    match (← get).world.get? o property with
    | some v => push v
    | none => fail (.noSuchMember property)
  | .getObservable property => do
    let o ← popReceiver property
    match (← get).world.observable? o property with
    | some c => push (.cell c)
    | none => fail (.noSuchMember property)
  | .observableValue => do
    match ← pop with
    | .cell c => push (← readCell c)
    | .null => fail (.nullReference "observable read")
    | v => ofExcept (v.mismatch "observable")
  | .getStatic f => do
    push (← ofExcept (r.staticValue f))
  | .invoke m argc => do
    let args ← popArgs argc
    let receiver ← pop
    if receiver.isNull then
      fail (.nullReference ("call of " ++ Problem.tick (r.methodName m)))
    else call r update fuel m (receiver :: args)
  | .invokeStatic m argc | .construct m argc => do
    let args ← popArgs argc
    call r update fuel m args
  | .charAt => do
    let index ← popInt
    let text ← popText "string index"
    push (.str (String.singleton (← ofExcept (Builtin.charAt text index))))
  | .arith op kind => do
    let b ← pop
    let a ← pop
    push (← ofExcept (a.arith op kind b))
  | .neg kind => do
    let a ← pop
    push (← ofExcept (a.negate kind))
  | .cmp op kind => do
    let b ← pop
    let a ← pop
    push (.bool (← ofExcept (a.compare op kind b)))
  | .refEq => do
    let b ← pop
    let a ← pop
    push (.bool (a.same b))
  | .not => do
    let a ← ofExcept (← pop).toBool
    push (.bool !a)
  | .concat => do
    let b ← pop
    let a ← pop
    push (.str ((← textOf r a) ++ (← textOf r b)))
  | .convert _ target => do
    let a ← pop
    push (← ofExcept (a.convert target))
  | .box _ => pure ()
  | .unbox kind => do
    if ((← get).stack.head?.map Value.isNull).getD false then
      fail (.nullReference ("unboxing to " ++ kind.name))
  | .parseNumber kind => do
    let text ← popText "number parse"
    push (← ofExcept (Value.parse text kind))
  | .parseBool => do
    let text ← popText "boolean parse"
    push (.bool (Literal.equalsIgnoringCase text "true"))
  | .parseChar => do
    let text ← popText "char parse"
    match text.toList with
    | [c] => push (.char c)
    | _ => fail (.numberFormat text Prim.char.name)
  | .toStr => do
    let a ← pop
    push (.str (← textOf r a))
  | .enumValueOf c => do
    let text ← popText "enum lookup"
    push (← ofExcept (r.enumValueOf c text))
  | .jump l => goto (routine.target l)
  | .jumpIfFalse l => do
    let b ← ofExcept (← pop).toBool
    jumpIf routine (!b) l
  | .jumpIfTrue l => do
    let b ← ofExcept (← pop).toBool
    jumpIf routine b l
  | .jumpIfNull l => do
    let v ← pop
    jumpIf routine v.isNull l
  | .jumpIfNonNull l => do
    let v ← pop
    jumpIf routine (!v.isNull) l
  | .jumpIfSame l => do
    let b ← pop
    let a ← pop
    jumpIf routine (a.same b) l
  | .jumpIfZero l => do
    let n ← popInt
    jumpIf routine (n == 0) l
  | .tableSwitch low targets otherwise => do
    let i := (← popInt).toInt - low
    let target := if 0 ≤ i then targets.getD i.toNat otherwise else otherwise
    goto (routine.target target)
  | .flagTest mask => testFlag frame 0 mask
  | .flagAssign mask value => setFlag frame 0 mask value
  | .bitTest bit => testFlag frame (bit / FlagLayout.wordSize) (FlagLayout.mask bit)
  | .bitAssign bit value => setFlag frame (bit / FlagLayout.wordSize) (FlagLayout.mask bit) value
  | .counterLoad counter => do
    let s ← state frame
    push (.int (← require "counter out of range" s.counters[counter]?))
  | .counterAdd counter delta => do
    let s ← state frame
    let n ← require "counter out of range" s.counters[counter]?
    setState frame { s with counters := s.counters.setIfInBounds counter (n + delta) }
  | .subscribe step => do
    match ← pop with
    | .cell c =>
      let i ← binding frame
      lift (Run.change (·.modifyCell c (·.addListener (.binding i step))))
    | _ => pure ()
  | .unsubscribe step => do
    match ← pop with
    | .cell c =>
      let i ← binding frame
      lift (Run.change (·.modifyCell c (·.removeListener i step)))
    | _ => pure ()
  | .publish => do
    let v ← pop
    let s ← state frame
    lift (writeCell r update fuel s.result v)
  | .lockAcquire => do
    let s ← state frame
    lift (Run.change (·.modifyCell s.result Cell.lock))
    modify fun m ↦ { m with locks := m.locks + 1 }
  | .lockRelease => do
    let s ← state frame
    modify fun m ↦ { m with locks := m.locks.pred }
    lift (unlockCell r update fuel s.result)
  | .fault message => fail (.fault message)
  | .return => pure ()

/-- Runs instructions until a return or the end of the routine, and gives the value on top. -/
def execute (frame : Frame) (routine : Routine) : Nat → Exec (Option Value)
  | 0 => throw .exhausted
  | steps + 1 => do
    let m ← get
    match routine.ops[m.pc]? with
    | none | some .return => return m.stack.head?
    | some op =>
      goto (m.pc + 1)
      step r update fuel frame routine op
      execute frame routine steps

end

end Exec

section

variable (r : Registry) (update : Updater)

/-- Gives back locks; what listeners that are told then fail with is passed over. -/
def releaseLocks (fuel : Nat) (c : CellId) : Nat → Run Unit
  | 0 => pure ()
  | n + 1 => do
    Run.ignoreError (unlockCell r update fuel c)
    releaseLocks fuel c n

def releaseHeld (fuel : Nat) (frame : Frame) (locks : LockDepth) : Run Unit := do
  match frame.binding with
  | none => pure ()
  | some i =>
    match ← Run.view (·.instance? i) with
    | some s => releaseLocks r update fuel s.result locks.toNat
    | none => pure ()

/-- Runs a routine. One that fails gives back the locks it holds. -/
def runRoutine (fuel : Nat) (frame : Frame) (routine : Routine) : Run (Option Value) := fun w ↦
  match Exec.execute r update fuel frame routine fuel { world := w } with
  | (.ok v, m) => (.ok v, m.world)
  | (.error e, m) =>
    (Run.holding m.stack (releaseHeld r update fuel frame m.locks) *> throw e) m.world

end

end LiveBinding
