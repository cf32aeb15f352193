import LiveBinding.Host.Value
import LiveBinding.Operator
import LiveBinding.Text.Letter
import LiveBinding.Tree.Fold

namespace LiveBinding.Value

/-- A number as an `int`. Whole numbers lose their high bits, others stay at the ends. -/
def narrowInt : Value → Except RuntimeError Int32
  | float x => .ok (Int32.ofInt (x.toInt minInt maxInt))
  | double x => .ok (Int32.ofInt (x.toInt minInt maxInt))
  | v => v.toInt64.map fun n ↦ Int32.ofInt n.toInt

def widenLong : Value → Except RuntimeError Int64
  | float x => .ok (Int64.ofInt (x.toInt minLong maxLong))
  | double x => .ok (Int64.ofInt (x.toInt minLong maxLong))
  | v => v.toInt64

def toSingle : Value → Except RuntimeError Single
  | float x => .ok x
  | double x => .ok (x.convert .single)
  | v => v.toInt64.map fun n ↦ .ofInt .single n.toInt

/-- Arithmetic on whole numbers wraps around, and division by zero fails. -/
def wholeArith {α : Type} [Add α] [Sub α] [Mul α] [Div α] [Mod α] [OfNat α 0] [DecidableEq α]
    (op : BinaryOp) (a b : α) : Except RuntimeError α :=
  match op with
  | .add => .ok (a + b)
  | .sub => .ok (a - b)
  | .mul => .ok (a * b)
  | .div => if b = 0 then .error .arithmeticFault else .ok (a / b)
  | .rem => if b = 0 then .error .arithmeticFault else .ok (a % b)
  | _ => .error (.typeMismatch "arithmetic operator" op.symbol)

def floatArith {w : Width} (op : BinaryOp) (a b : Floating w) :
    Except RuntimeError (Floating w) :=
  match op with
  | .add => .ok (a.add b)
  | .sub => .ok (a.sub b)
  | .mul => .ok (a.mul b)
  | .div => .ok (a.div b)
  | .rem => .ok (a.rem b)
  | _ => .error (.typeMismatch "arithmetic operator" op.symbol)

def arith (op : BinaryOp) (kind : Prim) (a b : Value) : Except RuntimeError Value :=
  match kind with
  | .long => do
    let x ← a.widenLong
    let y ← b.widenLong
    long <$> wholeArith op x y
  | .float => do
    let x ← a.toSingle
    let y ← b.toSingle
    float <$> floatArith op x y
  | .double => do
    let x ← a.toDouble
    let y ← b.toDouble
    double <$> floatArith op x y
  | .int | .char | .byte | .short => do
    let x ← a.narrowInt
    let y ← b.narrowInt
    int <$> wholeArith op x y
  | .boolean => .error (.typeMismatch "numeric operands" "boolean")

def negate (kind : Prim) (a : Value) : Except RuntimeError Value :=
  match kind with
  | .long => (fun n ↦ long (-n)) <$> a.widenLong
  | .float => (fun x ↦ float x.neg) <$> a.toSingle
  | .double => (fun x ↦ double x.neg) <$> a.toDouble
  | .int | .char | .byte | .short => (fun n ↦ int (-n)) <$> a.narrowInt
  | .boolean => .error (.typeMismatch "numeric operand" "boolean")

/-- Takes the answer of a comparison, which the operator has to be. -/
def comparison (op : BinaryOp) (answer : Option Bool) : Except RuntimeError Bool :=
  match answer with
  | some b => .ok b
  | none => .error (.typeMismatch "comparison operator" op.symbol)

def compare (op : BinaryOp) (kind : Prim) (a b : Value) : Except RuntimeError Bool :=
  match kind with
  | .boolean => do
    let x ← a.toBool
    let y ← b.toBool
    match Fold.orderedBool? op x y with
    | some answer => .ok answer
    | none => .error (.typeMismatch "numeric operands" "boolean")
  | .float => do
    let x ← a.toSingle
    let y ← b.toSingle
    comparison op (Fold.orderedFloat? op x y)
  | .double => do
    let x ← a.toDouble
    let y ← b.toDouble
    comparison op (Fold.orderedFloat? op x y)
  | .long => do
    let x ← a.widenLong
    let y ← b.widenLong
    comparison op (Fold.orderedInt? op x.toInt y.toInt)
  | .int | .char | .byte | .short => do
    let x ← a.narrowInt
    let y ← b.narrowInt
    comparison op (Fold.orderedInt? op x.toInt y.toInt)

/-- The character of a 16-bit code; a code that stands for none gives the replacement character. -/
def charOfCode (n : Nat) : Char := if n.isValidChar then Char.ofNat n else '\ufffd'

/-- A cast to a primitive kind. -/
def convert (a : Value) : Prim → Except RuntimeError Value
  | .boolean => bool <$> a.toBool
  | .int => int <$> a.narrowInt
  | .long => long <$> a.widenLong
  | .float => float <$> a.toSingle
  | .double => double <$> a.toDouble
  | .byte => (fun n ↦ byte (Int8.ofInt n.toInt)) <$> a.narrowInt
  | .short => (fun n ↦ short (Int16.ofInt n.toInt)) <$> a.narrowInt
  | .char => (fun n ↦ char (charOfCode (n.toInt % 65536).toNat)) <$> a.narrowInt

/-- Blanks around the number are allowed. Of names only three spellings of infinity and that of NaN
are read. -/
def parseFloating? (text : String) : Option Double :=
  let text := Text.trim text
  if text == "Infinity" || text == "+Infinity" then some (.infinite false)
  else if text == "-Infinity" then some (.infinite true)
  else if text == "NaN" then some (.quietNaN false)
  else if text.toList.any Text.isAlphabetic && !text.toList.any (fun c ↦ c == 'e' || c == 'E') then
    none
  else Floating.parse? .double text

/-- Reads text as a number of a primitive kind. Whole numbers allow no blanks around them. -/
def parse (text : String) (kind : Prim) : Except RuntimeError Value :=
  let value := match kind with
    | .int => (parseInt32? text).map int
    | .long => (parseInt64? text).map long
    | .short => (parseInt16? text).map short
    | .byte => (parseInt8? text).map byte
    | .double => (parseFloating? text).map double
    | .float => (parseFloating? text).map fun x ↦ float (x.convert .single)
    | .boolean | .char => none
  match value with
  | some v => .ok v
  | none => .error (.numberFormat text kind.name)

end LiveBinding.Value
