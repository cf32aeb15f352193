import LiveBinding.Number.Floating
import LiveBinding.Number.Integer

namespace LiveBinding

def pow10 (n : Nat) : Nat := Nat.pow 10 n

/-- The number `digits · 10 ^ exponent`, up to its sign. -/
structure Decimal where
  negative : Bool
  digits : Nat
  exponent : Int
deriving DecidableEq

namespace Decimal

/-- How many decimal digits `n` has; zero has none. -/
def digitCount (n : Nat) : Nat := if n = 0 then 0 else (Nat.toDigits 10 n).length

/-- The exponent after its mark, or zero where there is no mark. -/
def parseExponent? : List Char → Option Int
  | [] => some 0
  | mark :: rest =>
    if mark == 'e' || mark == 'E' then
      let (negative, digits) := splitSign rest
      if isDigits digits then
        let n : Int := digitsValue digits
        some (if negative then -n else n)
      else none
    else none

/-- Digits with an optional point among or around them, then an optional exponent. -/
def parseUnsigned? (negative : Bool) (cs : List Char) : Option Decimal :=
  let whole := cs.takeWhile Char.isDigit
  let rest := cs.dropWhile Char.isDigit
  let (places, rest) := match rest with
    | '.' :: after => (after.takeWhile Char.isDigit, after.dropWhile Char.isDigit)
    | _ => ([], rest)
  if whole.isEmpty && places.isEmpty then none
  else
    (parseExponent? rest).map fun e ↦
      ⟨negative, digitsValue (whole ++ places), e - places.length⟩

def parse? (text : String) : Option Decimal :=
  let (negative, rest) := splitSign text.toList
  parseUnsigned? negative rest

end Decimal

namespace Floating

/-- The number nearest to a decimal. Beyond four hundred places on either side the answer no longer
depends on the digits, and powers of ten that large are not formed. -/
def ofDecimal (w : Width) (d : Decimal) : Floating w :=
  let top : Int := Decimal.digitCount d.digits + d.exponent
  if d.digits = 0 || top < -400 then zero d.negative
  else if 400 < top then infinite d.negative
  else if 0 ≤ d.exponent then round w d.negative (d.digits * pow10 d.exponent.toNat) 1
  else round w d.negative d.digits (pow10 (-d.exponent).toNat)

/-- A decimal or the name of an infinity or NaN in any case, with an optional sign. -/
def parse? (w : Width) (text : String) : Option (Floating w) :=
  let (negative, rest) := splitSign text.toList
  let name := String.ofList (rest.map Char.toLower)
  if name == "inf" || name == "infinity" then some (infinite negative)
  else if name == "nan" then some (quietNaN negative)
  else (Decimal.parse? text).map (ofDecimal w)

end Floating

end LiveBinding
