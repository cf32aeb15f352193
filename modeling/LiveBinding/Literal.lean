import LiveBinding.Number.Style
import LiveBinding.Text.Blank

namespace LiveBinding

/-- The ranks along which operands of different kinds are promoted. -/
inductive Rank where
  | boolean
  | int
  | long
  | float
  | double
deriving DecidableEq

namespace Rank

def level : Rank → Nat
  | boolean => 0
  | int => 1
  | long => 2
  | float => 3
  | double => 4

def join (a b : Rank) : Rank := if a.level ≤ b.level then b else a

/-- The common rank of two operands, of which one or both may have none. -/
def promote : Option Rank → Option Rank → Rank
  | some a, some b => join a b
  | some a, none => a
  | none, some b => b
  | none, none => int

def isNumeric (r : Rank) : Bool := r != boolean

def isIntegral : Rank → Bool
  | int | long => true
  | _ => false

def name : Rank → String
  | boolean => "boolean"
  | int => "int"
  | long => "long"
  | float => "float"
  | double => "double"

end Rank

/-- A value known while compiling. -/
inductive Literal where
  | null
  | string (text : String)
  | int (value : Int32)
  | long (value : Int64)
  | float (value : Single)
  | double (value : Double)
  | boolean (value : Bool)
deriving DecidableEq

namespace Literal

def rank? : Literal → Option Rank
  | boolean _ => some .boolean
  | int _ => some .int
  | long _ => some .long
  | float _ => some .float
  | double _ => some .double
  | null | string _ => none

def kindName : Literal → String
  | null => "null"
  | string _ => "String"
  | int _ => "int"
  | long _ => "long"
  | float _ => "float"
  | double _ => "double"
  | boolean _ => "boolean"

/-- An `int` where the value fits and a `long` elsewhere. -/
def ofInt64 (n : Int64) : Literal :=
  match narrowLong? n with
  | some small => int small
  | none => long n

def isFloatingText (text : String) : Bool :=
  text.toList.any (fun c ↦ c == '.' || c == 'e' || c == 'E') ||
    text == "NaN" || text == "Infinity" || text == "-Infinity"

/-- Numeric text without blanks around it: a finite `double` if it has a point or an exponent, and
a whole number otherwise. -/
def parseNumeric? (text : String) : Option Literal :=
  if text.isEmpty || Text.trim text != text then none
  else if isFloatingText text then
    match Floating.parse? .double text with
    | some x => if x.isFinite then some (double x) else none
    | none => none
  else (parseInt64? text).map ofInt64

def equalsIgnoringCase (a b : String) : Bool :=
  a.toList.map Char.toLower == b.toList.map Char.toLower

def parseBoolean? (text : String) : Option Bool :=
  if equalsIgnoringCase text "true" then some true
  else if equalsIgnoringCase text "false" then some false
  else none

/-- A string read as the number or boolean it spells; other literals as they are. -/
def numericView? : Literal → Option Literal
  | string text => (parseNumeric? text).or ((parseBoolean? text).map boolean)
  | other => some other

def toInt64? : Literal → Option Int64
  | int n => some (Int64.ofInt n.toInt)
  | long n => some n
  | _ => none

def toDouble? : Literal → Option Double
  | int n => some (Floating.ofInt .double n.toInt)
  | long n => some (Floating.ofInt .double n.toInt)
  | float x => some (x.convert .double)
  | double x => some x
  | _ => none

def render : Literal → String
  | null => "null"
  | string text => text
  | int n => toString n.toInt
  | long n => toString n.toInt
  | float x => hostStyle.render x
  | double x => hostStyle.render x
  | boolean b => toString b

end Literal

end LiveBinding
