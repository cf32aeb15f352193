import LiveBinding.Code.Artifact
import LiveBinding.Expr.Parser
import LiveBinding.Render.Resumable
import LiveBinding.Tree.Build

namespace LiveBinding

/-- The property that a binding is assigned to. -/
structure BindingTarget where
  property : String
  ty : Ty
  /-- The markup element, for messages. -/
  element : Option String := none
  readOnly : Bool := false

structure CompileContext where
  model : TypeModel
  /-- Computes operators over literals while compiling. -/
  fold : Bool := true
  /-- How many flags share one word. -/
  flagCapacity : Nat := FlagLayout.wordSize

/-- Code that is run once in the host frame and leaves a value of type `ty` on the stack. -/
structure StaticBinding where
  ty : Ty
  code : Fragment

structure DynamicBinding where
  ty : Ty
  artifact : Artifact

inductive CompiledBinding where
  | static (binding : StaticBinding)
  | dynamic (binding : DynamicBinding)
  /-- Reads a name that has no value yet. -/
  | deferred (ty : Ty)

namespace AssemblyError

def toCompileError (e : AssemblyError) : CompileError := Problem.assembly e.message

end AssemblyError

def Assembler.assemble (a : Assembler) : Except CompileError Routine :=
  a.finish.mapError AssemblyError.toCompileError

def StaticBinding.routine (b : StaticBinding) : Except CompileError Routine :=
  ((b.code.emit none .empty).emit .return).assemble

namespace CompileContext

variable (cx : CompileContext)

def buildTree (scope : Scope) (parsed : ParsedExpr) : Except CompileError Tree :=
  Tree.build ⟨cx.model, scope, parsed, cx.fold⟩

/-- Renders a tree to be evaluated once. A string literal is converted to the target already here. -/
def renderStatic (tree : Tree) (target : Option Ty) : Except CompileError StaticBinding :=
  let body := tree.root.renderDirect
  match target with
  | none => .ok ⟨tree.ty, body⟩
  | some target =>
    match tree.root.literal? with
    | some (.string text) =>
      if cx.model.isAssignable .str target then
        (Coercion.require cx.model tree.ty target).map fun c ↦ ⟨target, body ++ c⟩
      else (Coercion.requireText cx.model text target).map fun c ↦ ⟨target, c⟩
    | _ => (Coercion.require cx.model tree.ty target).map fun c ↦ ⟨target, body ++ c⟩

/-- Assembles the update routine, which holds the lock of the result as long as it runs. -/
def updateRoutine (s : Resumable) (layout : FlagLayout) (body coercion : Fragment) : Assembler :=
  let a := s.root.emitDispatch layout (Assembler.empty.emit .lockAcquire)
  let a := coercion.emit layout (body.emit layout (a.placeKey (.step 0)))
  ((a.emit .publish).placeKey .exit).emitAll [.lockRelease, .return]

def requireWritable : Option BindingTarget → Except CompileError Unit
  | some t => if t.readOnly then .error (Problem.readOnlyTarget t.property) else .ok ()
  | none => .ok ()

def compileArtifact (tree : Tree) (target : Option BindingTarget) :
    Except CompileError DynamicBinding := do
  requireWritable target
  let ty := (target.map BindingTarget.ty).getD tree.ty
  let coercion ← match target with
    | some t => Coercion.require cx.model tree.ty t.ty
    | none => pure .empty
  let (body, s) := (tree.root.render .resumable).run .start
  let layout := s.storage.layout cx.flagCapacity
  let update ← (updateRoutine s layout body coercion).assemble
  let init ← ((s.storage.init.emit layout .empty).emit .return).assemble
  return ⟨ty, ⟨s.storage.captures, s.storage.scratch, layout, s.storage.counters, init, update,
    s.steps⟩⟩

def compilePlain (text : String) : Option BindingTarget → Except CompileError CompiledBinding
  | none => .ok (.static ⟨.str, .op (.pushStr text)⟩)
  | some target =>
    (Coercion.requireText cx.model text target.ty).map fun c ↦ .static ⟨target.ty, c⟩

def compileTree (tree : Tree) (target : Option BindingTarget) :
    Except CompileError CompiledBinding :=
  if !tree.root.info.evaluable then .ok (.deferred tree.ty)
  else if tree.isStatic then
    (cx.renderStatic tree (target.map BindingTarget.ty)).map .static
  else (cx.compileArtifact tree target).map .dynamic

/-- Compiles the text of an attribute. Errors name the element of the target. -/
def compileBinding (source : String) (scope : Scope) (target : Option BindingTarget) :
    Except CompileError CompiledBinding :=
  (do
    match ← parseAttribute source with
    | .literal text => cx.compilePlain text target
    | .expression parsed =>
      let tree ← cx.buildTree scope parsed
      cx.compileTree tree target : Except CompileError CompiledBinding).mapError fun e ↦
    match target.bind BindingTarget.element with
    | some element => e.withElement element
    | none => e

end CompileContext

end LiveBinding
