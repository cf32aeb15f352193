import LiveBinding.Host.Machine

namespace LiveBinding

section

variable (r : Registry)

/-- Runs the steps that were asked for meanwhile: a single one by itself, several from the start. -/
def drainQueue (runStep : Nat → Run Unit) (i : InstanceId) : Nat → Run Unit
  | 0 => Run.exhausted
  | fuel + 1 => do
    let queued ← Run.view fun w ↦ ((w.instance? i).map Instance.queued).getD []
    Run.change (·.modifyInstance i ({ · with queued := [] }))
    match queued with
    | [] => pure ()
    | [step] =>
      runStep step
      drainQueue runStep i fuel
    | _ =>
      runStep 0
      drainQueue runStep i fuel

/-- Evaluates a binding again from a step on. While its result is locked the step has to wait. -/
def updateInstance : Nat → Updater
  | 0, _, _ => Run.exhausted
  | fuel + 1, i, step => do
    match ← Run.view (·.instance? i) with
    | none => pure ()
    | some s =>
      if ← Run.view fun w ↦ ((w.cell? s.result).map Cell.isLocked).getD false then
        Run.change (·.modifyInstance i fun s ↦ { s with queued := s.queued ++ [step] })
      else
        let runStep (step : Nat) : Run Unit := do
          let _ ← runRoutine r (updateInstance fuel) fuel { binding := some i, step }
            s.artifact.update
        runStep step
        drainQueue runStep i fuel

variable (fuel : Nat)

/-- Writes a property; bindings that listen to it are updated. -/
def setProperty (o : ObjectId) (property : String) (v : Value) : Run Unit :=
  writeProperty r (updateInstance r fuel) fuel o property v

def setCell (c : CellId) (v : Value) : Run Unit := writeCell r (updateInstance r fuel) fuel c v

def lockCell (c : CellId) : Run Unit := Run.change (·.modifyCell c Cell.lock)

def releaseCell (c : CellId) : Run Unit := unlockCell r (updateInstance r fuel) fuel c

/-- Runs a routine that uses no storage of a binding. -/
def evaluate (routine : Routine) : Run Value := do
  let frame ← Run.view World.frame
  let v ← runRoutine r (updateInstance r fuel) fuel { locals := frame } routine
  return v.getD .null

def runInit (i : InstanceId) (artifact : Artifact) : Run Unit := do
  let frame ← Run.view World.frame
  let _ ← runRoutine r (updateInstance r fuel) fuel { locals := frame, binding := some i }
    artifact.init
  updateInstance r fuel i 0

/-- Makes a binding: captures what it reads in the host frame and evaluates it from the start. One
that fails is dropped. -/
def createInstance (artifact : Artifact) : Run InstanceId := fun w ↦
  let i : InstanceId := ⟨w.instances.size⟩
  let (result, w) := w.newCell .null
  let w := { w with instances := w.instances.push (.new artifact result) }
  match runInit r fuel i artifact w with
  | (.ok _, w) => (.ok i, w)
  | (.error e, w) => (.error e, w.drop i)

/-- Copies the value of a cell to a property now, and from now on whenever it changes. -/
def bindProperty (o : ObjectId) (property : String) (source : CellId) : Run Unit := do
  let v ← Run.view (·.cellValue source)
  setProperty r fuel o property v
  let copy (v : Value) : Action Unit := .ifLive o (.set o property v (.done ())) (.done ())
  Run.change (·.modifyCell source (·.addListener (.callback copy)))

/-- Adds a listener that records every value, and fails after that if `failure` says so. -/
def watchCell (c : CellId) (tag : String) (failure : Option String) : Run Unit :=
  let action (v : Value) : Action Unit :=
    .logWatch tag v (match failure with
      | some message => .fail (.fault message)
      | none => .done ())
  Run.change (·.modifyCell c (·.addListener (.callback action)))

end

end LiveBinding
