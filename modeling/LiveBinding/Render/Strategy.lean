import LiveBinding.Tree.Node

namespace LiveBinding

/-- The code of an operand, and whether it reads an observable property. -/
structure Operand where
  code : Fragment
  monitored : Bool

/-- An operand whose value is on the stack already. -/
def Operand.onStack : Operand := ⟨.empty, false⟩

/-- The parts of the code that depend on how a tree is evaluated, made while a state `σ` keeps what
was handed out so far. -/
structure Strategy (σ : Type) where
  loadScope : Loadable → StateM σ Fragment
  /-- Replaces the object on top of the stack by the value of an observable property. -/
  observe : String → StateM σ Fragment
  /-- Pushes the operands of one operation. -/
  operands : List Operand → StateM σ Fragment
  /-- `&&` or `||`. The right operand is rendered on demand. -/
  shortCircuit : BinaryOp → Fragment → StateM σ Fragment → Bool → StateM σ Fragment

namespace Literal

def push : Literal → Op
  | null => .pushNull
  | string text => .pushStr text
  | int n => .pushInt n
  | long n => .pushLong n
  | float x => .pushFloat x
  | double x => .pushDouble x
  | boolean b => .pushBool b

end Literal

namespace Plan

/-- The instructions of an operator whose operands are on the stack. -/
def ops (op : BinaryOp) : Plan → List Op
  | arithmetic kind => [.arith op kind]
  | compare kind => [.cmp op kind]
  | concat => [.concat]
  | refEquality => if op = .notEq then [.refEq, .not] else [.refEq]
  | shortCircuit => []

end Plan

def UnaryOp.op (kind : Prim) : UnaryOp → Op
  | .not => .not
  | .neg => .neg kind

namespace Node

variable {σ : Type} (s : Strategy σ)

mutual

/-- Code that leaves the value of a node on the stack. -/
def render : Node → StateM σ Fragment
  | literal _ value => return .op value.push
  | scopeRead _ (.bound loadable) => s.loadScope loadable
  | scopeRead info (.pending _) =>
    return .op (.fault ("`" ++ info.name ++ "` is not loadable yet"))
  | typeRef _ _ => return .empty
  | access _ receiver member => do
    let receiver ← render receiver
    let member ← renderMember member
    return receiver ++ member
  | construct _ method args => do
    let operands ← renderArgs args
    let code ← s.operands operands
    return code ++ .op (.construct method.id args.length)
  | binary _ op (.mk left leftCoercion) (.mk right rightCoercion) plan => do
    let first := (· ++ leftCoercion) <$> render left
    let second := (· ++ rightCoercion) <$> render right
    let monitored := 0 < right.monitoring
    if plan = .shortCircuit then
      let first ← first
      s.shortCircuit op first second monitored
    else
      let first ← first
      let second ← second
      let code ← s.operands [⟨first, 0 < left.monitoring⟩, ⟨second, monitored⟩]
      return code ++ .ops (plan.ops op)
  | unary _ op (.mk operand coercion) kind => do
    let code ← render operand
    return code ++ coercion ++ .op (op.op kind)

/-- Code that replaces the receiver on the stack by a member. -/
def renderMember : Member → StateM σ Fragment
  | .property p =>
    if p.flags.observable then s.observe p.name else return .op (.getProperty p.name)
  | .staticField f => return .op (.getStatic f.id)
  | .method method args => do
    let operands ← renderArgs args
    let code ← s.operands (.onStack :: operands)
    return code ++ .op (.invoke method.id args.length)
  | .staticCall method args => do
    let operands ← renderArgs args
    let code ← s.operands operands
    return code ++ .op (.invokeStatic method.id args.length)
  | .index (.mk node coercion) reading => do
    let index ← render node
    let code ← s.operands [.onStack, ⟨index ++ coercion, 0 < node.monitoring⟩]
    return code ++ .op (match reading with
      | .chars => .charAt
      | .method method => .invoke method.id 1)

def renderArgs : List Arg → StateM σ (List Operand)
  | [] => return []
  | .mk node coercion :: rest => do
    let code ← render node
    let operands ← renderArgs rest
    return ⟨code ++ coercion, 0 < node.monitoring⟩ :: operands

end

end Node

/-- Reads everything every time. -/
def Strategy.direct : Strategy Unit where
  loadScope l := return l.load
  observe property := return .op (.getProperty property)
  operands list := return .concat (list.map Operand.code)
  shortCircuit op left right _ := return .shortCircuit op left (← right)

/-- The code of a tree that is evaluated once. -/
def Node.renderDirect (n : Node) : Fragment := ((n.render .direct).run ()).1

end LiveBinding
