import LiveBinding.Literal
import LiveBinding.Text.Case

namespace LiveBinding

/-- `previous` and `c` stand on both sides of a word boundary inside a name. -/
def splitsWord (previous : Option Char) (c : Char) : Bool :=
  Text.isUppercase c && match previous with
    | some p => Text.isLowercase p || p.isDigit
    | none => false

def constantCaseAfter (previous : Option Char) : List Char → List Char
  | [] => []
  | c :: rest =>
    (if splitsWord previous c then ['_'] else []) ++ Text.upperChar c ++
      constantCaseAfter (some c) rest

/-- Turns `darkBlue` into `DARK_BLUE`. -/
def constantCase (name : String) : String := String.ofList (constantCaseAfter none name.toList)

/-- The constant that a text names: as written, then without regard to the case of ASCII letters,
then by its constant case. -/
def matchConstant? (constants : List String) (text : String) : Option String :=
  (constants.find? (· == text)).or <|
    (constants.find? (Literal.equalsIgnoringCase · text)).or <|
      constants.find? (· == constantCase text)

end LiveBinding
