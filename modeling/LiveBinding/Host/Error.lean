import LiveBinding.Diagnostic
import LiveBinding.Text.Quoted

namespace LiveBinding

/-- Why a routine stops. -/
inductive RuntimeError where
  /-- A member of null was used, or null was unboxed. -/
  | nullReference (operation : String)
  /-- A whole number was divided by zero. -/
  | arithmeticFault
  | numberFormat (text target : String)
  | noSuchConstant (name enumName : String)
  | indexOutOfBounds (index : Int) (length : Nat)
  | typeMismatch (expected found : String)
  | noSuchMember (name : String)
  /-- Storage of a binding was used outside of one. -/
  | missingInstance
  | fault (message : String)
deriving DecidableEq

namespace RuntimeError

def name : RuntimeError → String
  | nullReference _ => "NullReference"
  | arithmeticFault => "ArithmeticFault"
  | numberFormat .. => "NumberFormat"
  | noSuchConstant .. => "NoSuchConstant"
  | indexOutOfBounds .. => "IndexOutOfBounds"
  | typeMismatch .. => "TypeMismatch"
  | noSuchMember _ => "NoSuchMember"
  | missingInstance => "MissingInstance"
  | fault _ => "Fault"

def message : RuntimeError → String
  | nullReference operation => "null reference in " ++ operation
  | arithmeticFault => "division by zero"
  | numberFormat text target => "cannot parse " ++ Text.quoted text ++ " as " ++ target
  | noSuchConstant name enumName =>
    "no constant " ++ Text.quoted name ++ " in enum " ++ enumName
  | indexOutOfBounds index length =>
    "index " ++ toString index ++ " out of bounds for length " ++ toString length
  | typeMismatch expected found => "expected " ++ expected ++ ", found " ++ found
  | noSuchMember name => "no such member " ++ Problem.tick name
  | missingInstance => "binding state accessed outside a binding instance"
  | fault message => "internal fault: " ++ message

def underflow : RuntimeError := fault "operand stack underflow"

end RuntimeError

end LiveBinding
