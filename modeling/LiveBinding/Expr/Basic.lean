import LiveBinding.Literal
import LiveBinding.Operator
import LiveBinding.Span

namespace LiveBinding

/-- An expression as written. Every node carries its span in the source. -/
inductive Expr where
  | literal (span : Span) (value : Literal)
  | ident (span : Span) (name : String)
  | field (span : Span) (receiver : Expr) (name : String)
  | call (span : Span) (receiver : Expr) (name : String) (args : List Expr)
  | construct (span : Span) (typeName : String) (args : List Expr)
  | index (span : Span) (receiver index : Expr)
  | binary (span : Span) (op : BinaryOp) (left right : Expr)
  | unary (span : Span) (op : UnaryOp) (operand : Expr)
  | paren (span : Span) (inner : Expr)

namespace Expr

def span : Expr → Span
  | literal s _ | ident s _ | field s _ _ | call s _ _ _ | construct s _ _ | index s _ _
  | binary s _ _ _ | unary s _ _ | paren s _ => s

/-- A node with its children named by their position in a list of nodes. -/
inductive Shape where
  | literal (value : Literal)
  | ident (name : String)
  | field (receiver : Nat) (name : String)
  | call (receiver : Nat) (name : String) (args : List Nat)
  | construct (typeName : String) (args : List Nat)
  | index (receiver index : Nat)
  | binary (op : BinaryOp) (left right : Nat)
  | unary (op : UnaryOp) (operand : Nat)

structure Entry where
  shape : Shape
  span : Span

mutual

/-- Appends the nodes of an expression, children before their parent, which is then the last node.
A parenthesis repeats the node that it encloses, with its own span. -/
def flatten (out : Array Entry) : Expr → Array Entry
  | literal s value => out.push ⟨.literal value, s⟩
  | ident s name => out.push ⟨.ident name, s⟩
  | field s receiver name =>
    let out := flatten out receiver
    out.push ⟨.field (out.size - 1) name, s⟩
  | call s receiver name args =>
    let out := flatten out receiver
    let node := out.size - 1
    let (out, args) := flattenAll out args
    out.push ⟨.call node name args, s⟩
  | construct s typeName args =>
    let (out, args) := flattenAll out args
    out.push ⟨.construct typeName args, s⟩
  | index s receiver position =>
    let out := flatten out receiver
    let node := out.size - 1
    let out := flatten out position
    out.push ⟨.index node (out.size - 1), s⟩
  | binary s op left right =>
    let out := flatten out left
    let node := out.size - 1
    let out := flatten out right
    out.push ⟨.binary op node (out.size - 1), s⟩
  | unary s op operand =>
    let out := flatten out operand
    out.push ⟨.unary op (out.size - 1), s⟩
  | paren s inner =>
    let out := flatten out inner
    match out.back? with
    | some entry => out.push { entry with span := s }
    | none => out

def flattenAll (out : Array Entry) : List Expr → Array Entry × List Nat
  | [] => (out, [])
  | e :: rest =>
    let out := flatten out e
    let node := out.size - 1
    let (out, nodes) := flattenAll out rest
    (out, node :: nodes)

end

end Expr

/-- An expression with the text it was parsed from, which starts at byte `base` of the attribute. -/
structure ParsedExpr where
  source : String
  root : Expr
  base : Nat

namespace ParsedExpr

def text (p : ParsedExpr) (span : Span) : String := (span.slice? p.source).getD ""

def attributeSpan (p : ParsedExpr) (span : Span) : Span := span.shift p.base

def entries (p : ParsedExpr) : List Expr.Entry := (p.root.flatten #[]).toList

end ParsedExpr

end LiveBinding
