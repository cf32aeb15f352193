namespace LiveBinding

def pow2 (n : Nat) : Nat := Nat.pow 2 n

/-- The two widths of binary floating-point numbers. -/
inductive Width where
  | single
  | double
deriving DecidableEq

namespace Width

def size : Width → Nat
  | single => 32
  | double => 64

def fractionBits : Width → Nat
  | single => 23
  | double => 52

/-- Exponent of the last place of the smallest numbers. -/
def minExponent : Width → Int
  | single => -149
  | double => -1074

/-- Bits of infinity without the sign; every larger pattern is a NaN. -/
def infinity (w : Width) : Nat := pow2 (w.size - 1) - pow2 w.fractionBits

end Width

/-- A floating-point number, held as its bits so that zeros and NaNs keep their sign. -/
structure Floating (w : Width) where
  bits : BitVec w.size
deriving DecidableEq

abbrev Single := Floating .single
abbrev Double := Floating .double

namespace Floating

variable {w : Width}

def ofParts (w : Width) (negative : Bool) (magnitude : Nat) : Floating w :=
  ⟨BitVec.ofNat _ ((if negative then pow2 (w.size - 1) else 0) + magnitude)⟩

instance : Inhabited (Floating w) := ⟨ofParts w false 0⟩

def negative (x : Floating w) : Bool := pow2 (w.size - 1) ≤ x.bits.toNat

def magnitude (x : Floating w) : Nat := x.bits.toNat % pow2 (w.size - 1)

def isNaN (x : Floating w) : Bool := w.infinity < x.magnitude

def isInfinite (x : Floating w) : Bool := x.magnitude == w.infinity

def isFinite (x : Floating w) : Bool := x.magnitude < w.infinity

def isZero (x : Floating w) : Bool := x.magnitude == 0

def zero (negative : Bool) : Floating w := ofParts w negative 0

def infinite (negative : Bool) : Floating w := ofParts w negative w.infinity

def quietNaN (negative : Bool) : Floating w :=
  ofParts w negative (w.infinity + pow2 (w.fractionBits - 1))

/-- What an operation without a defined value gives. -/
def undefined : Floating w := quietNaN true

def exponentField (x : Floating w) : Nat := x.magnitude / pow2 w.fractionBits

def fraction (x : Floating w) : Nat := x.magnitude % pow2 w.fractionBits

/-- A finite number is `significand · 2 ^ exponent`, up to its sign. -/
def significand (x : Floating w) : Nat :=
  if x.exponentField = 0 then x.fraction else x.fraction + pow2 w.fractionBits

def exponent (x : Floating w) : Int := w.minExponent + (x.exponentField - 1 : Nat)

/-- The quotient rounded to a whole number, a half to the even neighbour. -/
def divHalfEven (num den : Nat) : Nat :=
  let q := num / den
  let r := num % den
  if den < 2 * r || (2 * r == den && q % 2 == 1) then q + 1 else q

/-- The fraction `num / den` divided by `2 ^ e`, as a fraction. -/
def scaleDown (num den : Nat) (e : Int) : Nat × Nat :=
  if 0 ≤ e then (num, den * pow2 e.toNat) else (num * pow2 (-e).toNat, den)

/-- Exponent of the last place of the number nearest to `num / den`. -/
def placeOf (w : Width) (num den : Nat) : Int :=
  let e : Int := (num.log2 : Int) - den.log2 - w.fractionBits
  let (n, d) := scaleDown num den e
  max w.minExponent (if n < d * pow2 w.fractionBits then e - 1 else e)

/-- The number nearest to `num / den`, of two the one with an even significand. -/
def round (w : Width) (negative : Bool) (num den : Nat) : Floating w :=
  if num = 0 then zero negative
  else
    let e := placeOf w num den
    let (n, d) := scaleDown num den e
    let steps := (e - w.minExponent).toNat * pow2 w.fractionBits + divHalfEven n d
    ofParts w negative (min steps w.infinity)

/-- The number nearest to `significand · 2 ^ exponent`. -/
def roundScaled (w : Width) (negative : Bool) (significand : Nat) (exponent : Int) : Floating w :=
  if 0 ≤ exponent then round w negative (significand * pow2 exponent.toNat) 1
  else round w negative significand (pow2 (-exponent).toNat)

def ofInt (w : Width) (n : Int) : Floating w := round w (n < 0) n.natAbs 1

/-- The nearest number of another width; a NaN keeps its sign and leading bits. -/
def convert (w' : Width) (x : Floating w) : Floating w' :=
  if x.isNaN then
    let payload :=
      if w.fractionBits ≤ w'.fractionBits then x.fraction * pow2 (w'.fractionBits - w.fractionBits)
      else x.fraction / pow2 (w.fractionBits - w'.fractionBits)
    ofParts w' x.negative (w'.infinity + (payload ||| pow2 (w'.fractionBits - 1)))
  else if x.isInfinite then infinite x.negative
  else roundScaled w' x.negative x.significand x.exponent

def neg (x : Floating w) : Floating w := ofParts w (!x.negative) x.magnitude

def abs (x : Floating w) : Floating w := ofParts w false x.magnitude

/-- The significand with its sign, counted in units of `2 ^ e` for an `e` not above `exponent`. -/
def signedAt (x : Floating w) (e : Int) : Int :=
  let n : Int := (x.significand * pow2 (x.exponent - e).toNat : Nat)
  if x.negative then -n else n

/-- An operand that is a NaN is the result, the first one before the second. -/
def orNaN (x y : Floating w) (result : Floating w) : Floating w :=
  if x.isNaN then x else if y.isNaN then y else result

def add (x y : Floating w) : Floating w :=
  orNaN x y <|
    if x.isInfinite then
      if y.isInfinite && x.negative != y.negative then undefined else x
    else if y.isInfinite then y
    else
      let e := min x.exponent y.exponent
      let sum := x.signedAt e + y.signedAt e
      if sum = 0 then zero (x.negative && y.negative)
      else roundScaled w (sum < 0) sum.natAbs e

def sub (x y : Floating w) : Floating w := orNaN x y (add x y.neg)

def mul (x y : Floating w) : Floating w :=
  orNaN x y <|
    let negative := x.negative != y.negative
    if x.isInfinite || y.isInfinite then
      if x.isZero || y.isZero then undefined else infinite negative
    else roundScaled w negative (x.significand * y.significand) (x.exponent + y.exponent)

def div (x y : Floating w) : Floating w :=
  orNaN x y <|
    let negative := x.negative != y.negative
    if x.isInfinite then
      if y.isInfinite then undefined else infinite negative
    else if y.isInfinite then zero negative
    else if y.isZero then
      if x.isZero then undefined else infinite negative
    else
      let (n, d) := scaleDown x.significand y.significand (y.exponent - x.exponent)
      round w negative n d

/-- What is left of `x` after taking `y` away whole times, with the sign of `x`. -/
def rem (x y : Floating w) : Floating w :=
  orNaN x y <|
    if x.isInfinite || y.isZero then undefined
    else if y.isInfinite then x
    else
      let e := min x.exponent y.exponent
      roundScaled w x.negative ((x.signedAt e).natAbs % (y.signedAt e).natAbs) e

/-- Orders the numbers that are not NaN; both zeros have the key zero. -/
def key (x : Floating w) : Int := if x.negative then -(x.magnitude : Int) else x.magnitude

def lt (x y : Floating w) : Bool := !x.isNaN && !y.isNaN && x.key < y.key

def le (x y : Floating w) : Bool := !x.isNaN && !y.isNaN && x.key ≤ y.key

def eq (x y : Floating w) : Bool := !x.isNaN && !y.isNaN && x.key == y.key

/-- The larger number, of equal ones the second. A NaN gives way to the other operand. -/
def max (x y : Floating w) : Floating w := if x.isNaN || le x y then y else x

/-- The whole part, kept between `lo` and `hi`; zero for a NaN. -/
def toInt (lo hi : Int) (x : Floating w) : Int :=
  if x.isNaN then 0
  else if x.isInfinite then if x.negative then lo else hi
  else
    let (n, d) := scaleDown x.significand 1 (-x.exponent)
    let whole : Int := (n / d : Nat)
    min hi (Max.max lo (if x.negative then -whole else whole))

end Floating

end LiveBinding
