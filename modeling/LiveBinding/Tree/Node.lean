import LiveBinding.Span
import LiveBinding.Tree.Scope

namespace LiveBinding

/-- How an index reads its receiver: one character of a string, or a `get` method. -/
inductive IndexAccess where
  | chars
  | method (m : MethodInfo)

/-- What a binary operator computes, by the types of its operands. -/
inductive Plan where
  | arithmetic (kind : Prim)
  | concat
  | compare (kind : Prim)
  | refEquality
  | shortCircuit
deriving DecidableEq

def Plan.render : Plan → String
  | arithmetic k => Op.wrap "Arithmetic" k.title
  | concat => "Concat"
  | compare k => Op.wrap "Compare" k.title
  | refEquality => "RefEquality"
  | shortCircuit => "ShortCircuit"

/-- What is known of every node. -/
structure NodeInfo where
  id : Nat
  /-- The source text of the node. -/
  name : String
  /-- Where the node stands in the attribute. -/
  span : Span
  ty : Ty
  /-- How many observable properties are read in the node. -/
  monitoring : Nat
  /-- No pending name is read in the node. -/
  evaluable : Bool

mutual

/-- An expression with its names, types and members resolved. -/
inductive Node where
  | literal (info : NodeInfo) (value : Literal)
  | scopeRead (info : NodeInfo) (entry : ScopeEntry)
  /-- A type in front of one of its static members. -/
  | typeRef (info : NodeInfo) (owner : Ty)
  | access (info : NodeInfo) (receiver : Node) (member : Member)
  | construct (info : NodeInfo) (method : MethodInfo) (args : List Arg)
  | binary (info : NodeInfo) (op : BinaryOp) (left right : Arg) (plan : Plan)
  | unary (info : NodeInfo) (op : UnaryOp) (operand : Arg) (kind : Prim)

/-- What is read of a receiver. -/
inductive Member where
  | property (info : PropertyInfo)
  | staticField (info : FieldInfo)
  | method (method : MethodInfo) (args : List Arg)
  | staticCall (method : MethodInfo) (args : List Arg)
  | index (index : Arg) (access : IndexAccess)

/-- A node and the conversion of its value. -/
inductive Arg where
  | mk (node : Node) (coercion : Fragment)

end

namespace Arg

def node : Arg → Node
  | mk n _ => n

def coercion : Arg → Fragment
  | mk _ c => c

end Arg

namespace Node

def info : Node → NodeInfo
  | literal i _ | scopeRead i _ | typeRef i _ | access i _ _ | construct i _ _
  | binary i _ _ _ _ | unary i _ _ _ => i

def ty (n : Node) : Ty := n.info.ty

def monitoring (n : Node) : Nat := n.info.monitoring

def literal? : Node → Option Literal
  | literal _ value => some value
  | _ => none

/-- A member access has two ids, its own and before it that of the member. -/
def memberId (info : NodeInfo) : Nat := info.id - 1

/-- The ids of the receiver and the members of a chain of accesses, in order. -/
def elements : Node → List Nat
  | access info receiver _ => elements receiver ++ [memberId info]
  | other => [other.info.id]

/-- A node or a member on its own, with its id. -/
inductive Part where
  | node (n : Node)
  | member (info : NodeInfo) (m : Member)

def Part.id : Part → Nat
  | node n => n.info.id
  | member i _ => memberId i

mutual

/-- All parts of a node. The inner accesses of a chain are not parts of their own. -/
def parts (whole : Bool) : Node → List Part
  | literal i value => [.node (literal i value)]
  | scopeRead i entry => [.node (scopeRead i entry)]
  | typeRef i owner => [.node (typeRef i owner)]
  | access i receiver member =>
    parts false receiver ++ memberParts member ++ [.member i member] ++
      (if whole then [.node (access i receiver member)] else [])
  | construct i method args => argParts args ++ [.node (construct i method args)]
  | binary i op (.mk left lc) (.mk right rc) plan =>
    parts true left ++ parts true right ++ [.node (binary i op (.mk left lc) (.mk right rc) plan)]
  | unary i op (.mk operand c) kind =>
    parts true operand ++ [.node (unary i op (.mk operand c) kind)]

def memberParts : Member → List Part
  | .property _ | .staticField _ => []
  | .method _ args | .staticCall _ args => argParts args
  | .index (.mk node _) _ => parts true node

def argParts : List Arg → List Part
  | [] => []
  | .mk node _ :: rest => parts true node ++ argParts rest

end

end Node

/-- The resolved form of an expression. `size` counts the nodes that were made for it. -/
structure Tree where
  root : Node
  size : Nat

namespace Tree

def ty (t : Tree) : Ty := t.root.ty

/-- Nothing that the tree reads can change. -/
def isStatic (t : Tree) : Bool := t.root.monitoring == 0

/-- The parts of the tree by their ids. -/
def parts (t : Tree) : List Node.Part :=
  (t.root.parts true).mergeSort fun a b ↦ a.id ≤ b.id

end Tree

end LiveBinding
