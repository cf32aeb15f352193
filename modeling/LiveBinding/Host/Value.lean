import LiveBinding.Host.Error
import LiveBinding.Types.Ty

namespace LiveBinding

structure ObjectId where
  index : Nat
deriving DecidableEq

structure CellId where
  index : Nat
deriving DecidableEq

/-- A value of the host. Boxed primitives are held like primitives. -/
inductive Value where
  | null
  | bool (value : Bool)
  | char (value : Char)
  | byte (value : Int8)
  | short (value : Int16)
  | int (value : Int32)
  | long (value : Int64)
  | float (value : Single)
  | double (value : Double)
  | str (text : String)
  | enum (cls : ClassId) (name : String)
  | object (id : ObjectId)
  /-- The cell of an observable property. -/
  | cell (id : CellId)
deriving DecidableEq, Inhabited

namespace Value

def ofLiteral : Literal → Value
  | .null => null
  | .string text => str text
  | .int n => int n
  | .long n => long n
  | .float x => float x
  | .double x => double x
  | .boolean b => bool b

def zero : Prim → Value
  | .boolean => bool false
  | .char => char '\x00'
  | .byte => byte 0
  | .short => short 0
  | .int => int 0
  | .long => long 0
  | .float => float (.zero false)
  | .double => double (.zero false)

def kindName : Value → String
  | null => "null"
  | bool _ => "boolean"
  | char _ => "char"
  | byte _ => "byte"
  | short _ => "short"
  | int _ => "int"
  | long _ => "long"
  | float _ => "float"
  | double _ => "double"
  | str _ => "String"
  | enum .. => "enum"
  | object _ => "object"
  | cell _ => "observable"

def isNull : Value → Bool
  | null => true
  | _ => false

/-- Strings by content, objects and cells by identity, numbers only within one kind. Both zeros are
the same, and so is a NaN and itself. -/
def same : Value → Value → Bool
  | float x, float y => x == y || x.eq y
  | double x, double y => x == y || x.eq y
  | a, b => a == b

def mismatch {α : Type} (expected : String) (v : Value) : Except RuntimeError α :=
  .error (.typeMismatch expected v.kindName)

def toBool : Value → Except RuntimeError Bool
  | bool b => .ok b
  | v => v.mismatch "boolean"

def toText : Value → Except RuntimeError String
  | str s => .ok s
  | v => v.mismatch "String"

def toInt : Value → Except RuntimeError Int32
  | int n => .ok n
  | v => v.mismatch "int"

/-- A whole number of any width; a character stands for its code point. -/
def toInt64 : Value → Except RuntimeError Int64
  | char c => .ok (Int64.ofInt c.toNat)
  | byte n => .ok (Int64.ofInt n.toInt)
  | short n => .ok (Int64.ofInt n.toInt)
  | int n => .ok (Int64.ofInt n.toInt)
  | long n => .ok n
  | v => v.mismatch "integral value"

def toDouble : Value → Except RuntimeError Double
  | float x => .ok (x.convert .double)
  | double x => .ok x
  | v => v.toInt64.map fun n ↦ .ofInt .double n.toInt

end Value

end LiveBinding
