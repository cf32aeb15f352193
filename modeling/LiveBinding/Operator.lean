namespace LiveBinding

/-- How an operator treats its operands: `+ - * / %`, `< <= > >=`, `== !=`, or `&& ||`. -/
inductive OpCategory where
  | arithmetic
  | comparison
  | equality
  | shortCircuit
deriving DecidableEq

inductive BinaryOp where
  | add
  | sub
  | mul
  | div
  | rem
  | lt
  | ltEq
  | gt
  | gtEq
  | eq
  | notEq
  | and
  | or
deriving DecidableEq

namespace BinaryOp

def all : List BinaryOp :=
  [add, sub, mul, div, rem, lt, ltEq, gt, gtEq, eq, notEq, and, or]

def symbol : BinaryOp → String
  | add => "+"
  | sub => "-"
  | mul => "*"
  | div => "/"
  | rem => "%"
  | lt => "<"
  | ltEq => "<="
  | gt => ">"
  | gtEq => ">="
  | eq => "=="
  | notEq => "!="
  | and => "&&"
  | or => "||"

def category : BinaryOp → OpCategory
  | add | sub | mul | div | rem => .arithmetic
  | lt | ltEq | gt | gtEq => .comparison
  | eq | notEq => .equality
  | and | or => .shortCircuit

/-- A higher power binds tighter. -/
def power : BinaryOp → Nat
  | mul | div | rem => 5
  | add | sub => 4
  | lt | ltEq | gt | gtEq => 3
  | eq | notEq => 2
  | and => 1
  | or => 0

/-- The left operand that decides `&&` or `||` without the right one. -/
def decidedBy : BinaryOp → Option Bool
  | and => some false
  | or => some true
  | _ => none

end BinaryOp

inductive UnaryOp where
  | neg
  | not
deriving DecidableEq

def UnaryOp.symbol : UnaryOp → String
  | neg => "-"
  | not => "!"

end LiveBinding
