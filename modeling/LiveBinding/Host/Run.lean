import LiveBinding.Host.Arithmetic
import LiveBinding.Host.Builtin
import LiveBinding.Host.World

namespace LiveBinding

/-- Why a run ends early: with an error of the host, or because it was given too few steps. -/
inductive Stop where
  | error (e : RuntimeError)
  | exhausted
deriving DecidableEq

/-- A run changes the world also when it fails. -/
abbrev Run := ExceptT Stop (StateM World)

namespace Run

def fail {α : Type} (e : RuntimeError) : Run α := throw (.error e)

def exhausted {α : Type} : Run α := throw .exhausted

def ofExcept {α : Type} : Except RuntimeError α → Run α
  | .ok a => pure a
  | .error e => fail e

def view {α : Type} (f : World → α) : Run α := fun w ↦ (.ok (f w), w)

def change (f : World → World) : Run Unit := fun w ↦ (.ok (), f w)

/-- Runs with some values in its hands, and lets go of them in the end. -/
def holding {α : Type} (values : List Value) (r : Run α) : Run α := fun w ↦
  let (result, after) := r { w with held := values ++ w.held }
  (result, { after with held := w.held })

/-- Goes on after an error. -/
def ignoreError (r : Run Unit) : Run Unit := fun w ↦
  match r w with
  | (.error (.error _), w) => (.ok (), w)
  | other => other

end Run

/-- Runs the update of a binding at a step. -/
abbrev Updater := InstanceId → Nat → Run Unit

namespace World

/-- The host's text of a value. -/
def textWithin (r : Registry) (w : World) : Nat → Value → String
  | _, .null => "null"
  | _, .bool b => toString b
  | _, .char c => String.singleton c
  | _, .byte n => toString n.toInt
  | _, .short n => toString n.toInt
  | _, .int n => toString n.toInt
  | _, .long n => toString n.toInt
  | _, .float x => hostStyle.render x
  | _, .double x => hostStyle.render x
  | _, .str s => s
  | _, .enum _ name => name
  | _, .object o => ((w.object? o).map fun o ↦ r.className o.cls).getD ""
  | 0, .cell _ => ""
  | fuel + 1, .cell c => textWithin r w fuel (w.cellValue c)

def text (r : Registry) (w : World) (v : Value) : String := w.textWithin r (w.cells.size + 1) v

/-- Some objects and cells. -/
structure Region where
  objects : List ObjectId
  cells : List CellId

def Region.size (k : Region) : Nat := k.objects.length + k.cells.length

def objectsIn (vs : List Value) : List ObjectId := vs.filterMap fun
  | .object o => some o
  | _ => none

def cellsIn (vs : List Value) : List CellId := vs.filterMap fun
  | .cell c => some c
  | _ => none

/-- Values that the host itself keeps: named objects, its frame, what running code holds, static
fields and methods, and the storage of bindings. -/
def rootValues (r : Registry) (w : World) : List Value :=
  w.names.map (fun (_, o) ↦ .object o) ++ w.frame ++ w.held ++ r.fields.toList.map FieldDef.value ++
    r.methods.toList.flatMap MethodDef.held ++
    (w.instances.toList.filter Instance.alive).flatMap fun i ↦
      i.captures.toList ++ i.scratch.toList

/-- Keeps what the host or something in the region refers to. -/
def narrow (r : Registry) (w : World) (k : Region) : Region :=
  let slots := (k.objects.filterMap w.object?).flatMap fun o ↦ o.slots.map (·.2)
  let values := w.rootValues r ++ k.cells.map w.cellValue ++ slots.filterMap fun
    | .plain v => some v
    | .observable _ => none
  let cells := cellsIn values ++ (w.instances.toList.filter Instance.alive).map Instance.result ++
    slots.filterMap fun
      | .plain _ => none
      | .observable c => some c
  let objects := objectsIn values
  ⟨k.objects.filter objects.contains, k.cells.filter cells.contains⟩

/-- Narrows a region until all that is left is referred to, at most `n` times. -/
def narrowTimes (r : Registry) (w : World) : Nat → Region → Region
  | 0, k => k
  | n + 1, k =>
    let next := w.narrow r k
    if next.size = k.size then k else narrowTimes r w n next

/-- Something still refers to the object. Objects that only refer to each other stay. -/
def isLive (r : Registry) (w : World) (o : ObjectId) : Bool :=
  let all : Region :=
    ⟨(List.range w.objects.size).map ObjectId.mk, (List.range w.cells.size).map CellId.mk⟩
  (w.narrowTimes r (w.objects.size + w.cells.size) all).objects.contains o

end World

section

variable (r : Registry) (update : Updater)

/-- Makes an object and names it by how many were made. -/
def makeObject (cls : ClassId) (slots : List (String × Value × Bool)) : Run ObjectId := fun w ↦
  let n := w.made + 1
  let (o, w) := { w with made := n }.newObject cls ("#" ++ toString n) slots
  (.ok o, w)

mutual

/-- Performs host code. -/
def Action.perform {α : Type} : Nat → Action α → Run α
  | 0, _ => Run.exhausted
  | _ + 1, .done a => pure a
  | _ + 1, .fail e => Run.fail e
  | fuel + 1, .get o property next => do
    let v ← Run.view (·.get? o property)
    (next v).perform fuel
  | fuel + 1, .set o property v next => do
    writeProperty fuel o property v
    next.perform fuel
  | fuel + 1, .text v next => do
    let s ← Run.view (·.text r v)
    (next s).perform fuel
  | fuel + 1, .find name next => do
    let o ← Run.view (·.find? name)
    (next o).perform fuel
  | fuel + 1, .make cls slots next => do
    let o ← makeObject cls slots
    (next o).perform fuel
  | fuel + 1, .ifLive o live dead => do
    if ← Run.view (·.isLive r o) then Run.holding [.object o] (live.perform fuel)
    else dead.perform fuel
  | fuel + 1, .logCall method args next => do
    Run.change fun w ↦ w.logEvent (.call method (args.map w.display))
    next.perform fuel
  | fuel + 1, .logWatch tag v next => do
    Run.change fun w ↦ w.logEvent (.watch tag (w.display v))
    next.perform fuel

/-- Tells one listener after the other of a change, until one fails. -/
def notifyAll : Nat → CellId → List Listener → Run Unit
  | _, _, [] => pure ()
  | 0, _, _ => Run.exhausted
  | fuel + 1, c, listener :: rest => do
    match listener with
    | .binding i step =>
      if ← Run.view fun w ↦ ((w.instance? i).map Instance.alive).getD false then update i step
    | .callback action =>
      let v ← Run.view (·.cellValue c)
      Run.holding [v] ((action v).perform fuel)
    notifyAll fuel c rest

/-- Tells the listeners that a cell has when it changes, or leaves that to the last unlock. -/
def notify : Nat → CellId → Run Unit
  | 0, _ => Run.exhausted
  | fuel + 1, c => do
    match ← Run.view (·.cell? c) with
    | none => pure ()
    | some cell =>
      if cell.isLocked then Run.change (·.modifyCell c ({ · with pending := true }))
      else notifyAll fuel c cell.listeners

/-- Stores a value in a cell and tells its listeners if it is another one. -/
def writeCell : Nat → CellId → Value → Run Unit
  | 0, _, _ => Run.exhausted
  | fuel + 1, c, v => do
    if (← Run.view (·.cellValue c)).same v then pure ()
    else
      Run.change (·.modifyCell c ({ · with value := v }))
      notify fuel c

/-- Writes a property, which is added if the object does not have it. -/
def writeProperty : Nat → ObjectId → String → Value → Run Unit
  | 0, _, _, _ => Run.exhausted
  | fuel + 1, o, property, v => do
    match ← Run.view (·.slot? o property) with
    | some (.observable c) => writeCell fuel c v
    | _ => Run.change (·.setPlain o property v)

end

/-- Gives back one lock of a cell. -/
def unlockCell (fuel : Nat) (c : CellId) : Run Unit := do
  match ← Run.view (·.cell? c) with
  | none => pure ()
  | some cell =>
    let depth := cell.lockDepth.pred
    if depth == 0 && cell.pending then
      Run.change (·.modifyCell c ({ · with lockDepth := depth, pending := false }))
      notify r update fuel c
    else Run.change (·.modifyCell c ({ · with lockDepth := depth }))

def invokeMethod (fuel : Nat) (m : MethodId) (args : List Value) : Run Value := do
  let method ← Run.ofExcept (r.method? m)
  Run.holding args ((method.body args).perform r update fuel)

end

end LiveBinding
