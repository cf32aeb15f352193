import LiveBinding.Code.Op

namespace LiveBinding

/-- Instructions with the positions that their labels stand for. -/
structure Routine where
  ops : Array Op
  positions : Array Nat
deriving Inhabited

namespace Routine

def size (r : Routine) : Nat := r.ops.size

/-- Where a label leads to. The end of the routine is a position too. -/
def target (r : Routine) (l : Label) : Nat := r.positions.getD l.index r.ops.size

/-- The labels in front of each instruction, and in the end those behind the last one. -/
def marks (r : Routine) : Array (List Label) :=
  (List.range r.positions.size).foldr
    (fun i marks ↦ marks.modify (r.positions.getD i 0) (Label.mk i :: ·))
    (.replicate (r.size + 1) [])

def markLines (labels : List Label) : String :=
  String.join (labels.map fun l ↦ l.render ++ ":\n")

def padLeft (width : Nat) (s : String) : String := "".pushn ' ' (width - s.length) ++ s

def opLine (pc : Nat) (op : Op) : String :=
  "  " ++ padLeft 3 (toString pc) ++ "  " ++ op.render ++ "\n"

/-- One line for each label and each instruction. -/
def listing (r : Routine) : String :=
  let marks := r.marks
  String.join ((List.range r.size).map fun pc ↦
    markLines (marks.getD pc []) ++ ((r.ops[pc]?).map (opLine pc)).getD "") ++
    markLines (marks.getD r.size [])

end Routine

/-- Labels that code fragments share without passing them on: the point where a step resumes, and
the common exit. -/
inductive LabelKey where
  | step (n : Nat)
  | exit
deriving DecidableEq

inductive AssemblyError where
  | unplaced (label : Label)
  | placedTwice (label : Label)
deriving DecidableEq

def AssemblyError.name : AssemblyError → String
  | unplaced _ => "Unplaced"
  | placedTwice _ => "PlacedTwice"

def AssemblyError.message : AssemblyError → String
  | unplaced l => "label " ++ l.render ++ " is never placed"
  | placedTwice l => "label " ++ l.render ++ " is placed twice"

/-- A routine under construction. -/
structure Assembler where
  ops : Array Op := #[]
  /-- The position of each label once it is placed. -/
  positions : Array (Option Nat) := #[]
  keyed : List (LabelKey × Label) := []
  firstError : Option AssemblyError := none

namespace Assembler

def empty : Assembler := {}

def emit (a : Assembler) (op : Op) : Assembler := { a with ops := a.ops.push op }

def emitAll (a : Assembler) (ops : List Op) : Assembler := ops.foldl emit a

def newLabel (a : Assembler) : Label × Assembler :=
  (⟨a.positions.size⟩, { a with positions := a.positions.push none })

/-- The label of a key, made when it is first asked for. -/
def keyedLabel (a : Assembler) (key : LabelKey) : Label × Assembler :=
  match a.keyed.lookup key with
  | some label => (label, a)
  | none =>
    let (label, a) := a.newLabel
    (label, { a with keyed := (key, label) :: a.keyed })

/-- Puts a label in front of the next instruction. -/
def place (a : Assembler) (l : Label) : Assembler :=
  match a.positions[l.index]? with
  | some none => { a with positions := a.positions.setIfInBounds l.index (some a.ops.size) }
  | _ => { a with firstError := a.firstError.or (some (.placedTwice l)) }

def placeKey (a : Assembler) (key : LabelKey) : Assembler :=
  let (label, a) := a.keyedLabel key
  a.place label

/-- The routine, if every label was placed exactly once. -/
def finish (a : Assembler) : Except AssemblyError Routine :=
  match a.firstError with
  | some e => .error e
  | none =>
    match a.positions.findIdx? (·.isNone) with
    | some i => .error (.unplaced ⟨i⟩)
    | none => .ok ⟨a.ops, a.positions.map (·.getD 0)⟩

end Assembler

end LiveBinding
