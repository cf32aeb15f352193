import LiveBinding.Code.Fragment

namespace LiveBinding

/-- The steps of the whole expression, or of a right operand of `&&` or `||` that listens to cells.
The steps from `offset` up to but not including `stop` belong to the container or to one of its
children, which lie inside one another as the operands do. -/
inductive Container where
  | mk (index : Nat) (flag : Option Nat) (offset stop : Nat) (points : List SavePoint)
    (children : List Container)

namespace Container

/-- Containers are numbered in the order in which they are opened; the whole expression is 0. -/
def index : Container → Nat
  | mk i _ _ _ _ _ => i

/-- The flag that tells whether the operand ran last; the whole expression has none. -/
def flag : Container → Option Nat
  | mk _ f _ _ _ _ => f

def offset : Container → Nat
  | mk _ _ o _ _ _ => o

def stop : Container → Nat
  | mk _ _ _ s _ _ => s

def points : Container → List SavePoint
  | mk _ _ _ _ p _ => p

def children : Container → List Container
  | mk _ _ _ _ _ c => c

def contains (c : Container) (step : Nat) : Bool := c.offset ≤ step && step < c.stop

mutual

/-- The container and everything inside, in the order of their numbers. -/
def all : Container → List Container
  | mk i f o s p c => mk i f o s p c :: allOf c

def allOf : List Container → List Container
  | [] => []
  | c :: rest => all c ++ allOf rest

end

/-- The points of the container and of everything inside, by their steps. -/
def allPoints (c : Container) : List SavePoint :=
  (c.all.flatMap points).mergeSort fun p q ↦ p.step ≤ q.step

/-- Where a step leads to: to its own resume point, to the table of a child, or nowhere. -/
inductive Entry where
  | resume (step : Nat)
  | child (index : Nat)
  | gap
deriving DecidableEq

/-- The entry for a step in the table of the container. -/
def entry (c : Container) (step : Nat) : Entry :=
  if (step == 0 && c.index == 0) || c.points.any (·.step == step) then .resume step
  else
    match c.children.find? (·.contains step) with
    | some child => .child child.index
    | none => .gap

def entries (c : Container) : List Entry :=
  (List.range' c.offset (c.stop - c.offset)).map c.entry

/-- The labels of the entries of a table. -/
def entryLabels (fault : Label) (tables : List Label) (a : Assembler) :
    List Entry → List Label × Assembler
  | [] => ([], a)
  | entry :: rest =>
    let (label, a) := match entry with
      | .resume step => a.keyedLabel (.step step)
      | .child i => (if i = 0 then fault else tables.getD (i - 1) fault, a)
      | .gap => (fault, a)
    let (labels, a) := entryLabels fault tables a rest
    (label :: labels, a)

/-- Jumps by the step. Inside an operand that did not run last there is nothing to resume, and the
update leaves. -/
def emitTable (layout : FlagLayout) (fault : Label) (tables : List Label) (a : Assembler)
    (c : Container) : Assembler :=
  let a := match c.flag with
    | none => a
    | some flag =>
      let a := (a.place (tables.getD (c.index - 1) fault)).emit (layout.test flag)
      let (exit, a) := a.keyedLabel .exit
      a.emit (.jumpIfFalse exit)
  let (targets, a) := entryLabels fault tables a c.entries
  a.emitAll [.loadStep, .tableSwitch c.offset targets fault]

def newLabels (a : Assembler) : Nat → List Label × Assembler
  | 0 => ([], a)
  | n + 1 =>
    let (label, a) := a.newLabel
    let (labels, a) := newLabels a n
    (label :: labels, a)

/-- Goes to the resume point of the requested step, by one table for each container. -/
def emitDispatch (root : Container) (layout : FlagLayout) (a : Assembler) : Assembler :=
  let (fault, a) := a.newLabel
  let (tables, a) := newLabels a (root.all.length - 1)
  let a := root.all.foldl (emitTable layout fault tables) a
  (a.place fault).emit (.fault "dispatch step out of range")

end Container

end LiveBinding
