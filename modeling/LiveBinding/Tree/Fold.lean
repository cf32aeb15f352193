import LiveBinding.Operator
import LiveBinding.Types.Ty

namespace LiveBinding.Fold

/-- A literal as an operand of an operation at `kind`. The text of a whole number becomes a `float`
by way of a `double`. -/
def operand? (kind : Prim) (literal : Literal) : Option Literal :=
  let fromText := match literal with
    | .string _ => true
    | _ => false
  literal.numericView?.bind fun view ↦
    match kind with
    | .boolean =>
      match view with
      | .boolean b => some (.boolean b)
      | _ => none
    | .int => (view.toInt64?.bind narrowLong?).map .int
    | .long => view.toInt64?.map .long
    | .float =>
      match view with
      | .float x => some (.float x)
      | _ => view.toInt64?.map fun n ↦
        .float (if fromText then (Floating.ofInt .double n.toInt).convert .single
          else Floating.ofInt .single n.toInt)
    | .double => view.toDouble?.map .double
    | .char | .byte | .short => none

def integral? {α : Type} [Add α] [Sub α] [Mul α] [Div α] [Mod α] [OfNat α 0] [DecidableEq α]
    (op : BinaryOp) (a b : α) : Option α :=
  match op with
  | .add => some (a + b)
  | .sub => some (a - b)
  | .mul => some (a * b)
  | .div => if b = 0 then none else some (a / b)
  | .rem => if b = 0 then none else some (a % b)
  | _ => none

def floating? {w : Width} (op : BinaryOp) (a b : Floating w) : Option (Floating w) :=
  match op with
  | .add => some (a.add b)
  | .sub => some (a.sub b)
  | .mul => some (a.mul b)
  | .div => some (a.div b)
  | .rem => some (a.rem b)
  | _ => none

/-- Arithmetic at `kind`. Whole numbers wrap around, and a division by zero is left to run. -/
def arithmetic? (op : BinaryOp) (kind : Prim) (left right : Literal) : Option Literal :=
  match operand? kind left, operand? kind right with
  | some (.int a), some (.int b) => (integral? op a b).map .int
  | some (.long a), some (.long b) => (integral? op a b).map .long
  | some (.float a), some (.float b) => (floating? op a b).map .float
  | some (.double a), some (.double b) => (floating? op a b).map .double
  | _, _ => none

/-- A comparison from the two orders it can ask for. -/
def ordered? (op : BinaryOp) (lt le gt ge eq : Bool) : Option Bool :=
  match op with
  | .lt => some lt
  | .ltEq => some le
  | .gt => some gt
  | .gtEq => some ge
  | .eq => some eq
  | .notEq => some !eq
  | _ => none

def orderedInt? (op : BinaryOp) (a b : Int) : Option Bool :=
  ordered? op (a < b) (a ≤ b) (b < a) (b ≤ a) (a == b)

def orderedFloat? {w : Width} (op : BinaryOp) (a b : Floating w) : Option Bool :=
  ordered? op (a.lt b) (a.le b) (b.lt a) (b.le a) (a.eq b)

def orderedBool? (op : BinaryOp) (a b : Bool) : Option Bool :=
  match op with
  | .eq => some (a == b)
  | .notEq => some (a != b)
  | _ => none

/-- Order and equality at `kind`. -/
def compare? (op : BinaryOp) (kind : Prim) (left right : Literal) : Option Literal :=
  (match operand? kind left, operand? kind right with
    | some (.boolean a), some (.boolean b) => orderedBool? op a b
    | some (.int a), some (.int b) => orderedInt? op a.toInt b.toInt
    | some (.long a), some (.long b) => orderedInt? op a.toInt b.toInt
    | some (.float a), some (.float b) => orderedFloat? op a b
    | some (.double a), some (.double b) => orderedFloat? op a b
    | _, _ => none).map .boolean

/-- Equality of strings and null. -/
def references? (op : BinaryOp) (left right : Literal) : Option Literal :=
  (match left, right with
    | .null, .null => some true
    | .string a, .string b => some (a == b)
    | .null, .string _ | .string _, .null => some false
    | _, _ => none).map fun equal ↦ .boolean (equal == decide (op = BinaryOp.eq))

def negate? (kind : Prim) (literal : Literal) : Option Literal :=
  match operand? kind literal with
  | some (.int n) => some (.int (-n))
  | some (.long n) => some (.long (-n))
  | some (.float x) => some (.float x.neg)
  | some (.double x) => some (.double x.neg)
  | _ => none

end LiveBinding.Fold
