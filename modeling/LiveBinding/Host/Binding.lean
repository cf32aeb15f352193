import LiveBinding.Compile
import LiveBinding.Host.Instance

namespace LiveBinding

section

variable (r : Registry) (fuel : Nat)

/-- Makes a binding and gives its first value. -/
def instantiate (artifact : Artifact) : Run Value := do
  let i ← createInstance r fuel artifact
  Run.view (·.valueOf i)

/-- Makes a binding that the host keeps by a name. A binding of that name is dropped once the new
one is made. -/
def createNamed (name : String) (artifact : Artifact) : Run InstanceId := do
  let i ← createInstance r fuel artifact
  Run.change (·.keep name i)
  return i

end

/-- The routine that computes the value of a binding, and the run that comes to it: a static one is
evaluated in the host frame, a dynamic one is made and evaluated from the start. A deferred binding
has no routine yet. -/
def CompiledBinding.evaluation? (r : Registry) (fuel : Nat) :
    CompiledBinding → Except CompileError (Option (Routine × Run Value))
  | static b => b.routine.map fun routine ↦ some (routine, evaluate r fuel routine)
  | dynamic b => .ok (some (b.artifact.update, instantiate r fuel b.artifact))
  | deferred _ => .ok none

end LiveBinding
