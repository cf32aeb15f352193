namespace LiveBinding

def isDigits (cs : List Char) : Bool := !cs.isEmpty && cs.all Char.isDigit

/-- The number that decimal digits spell. -/
def digitsValue (cs : List Char) : Nat :=
  cs.foldl (fun n c ↦ 10 * n + (c.toNat - '0'.toNat)) 0

/-- An optional sign in front of the rest. -/
def splitSign : List Char → Bool × List Char
  | '-' :: rest => (true, rest)
  | '+' :: rest => (false, rest)
  | rest => (false, rest)

/-- Decimal digits with an optional sign, for a number between `lo` and `hi`. -/
def parseInt? (lo hi : Int) (text : String) : Option Int :=
  let (negative, digits) := splitSign text.toList
  if isDigits digits then
    let n : Int := digitsValue digits
    let n := if negative then -n else n
    if lo ≤ n && n ≤ hi then some n else none
  else none

def minByte : Int := -128
def maxByte : Int := 127
def minShort : Int := -32768
def maxShort : Int := 32767
def minInt : Int := -2147483648
def maxInt : Int := 2147483647
def minLong : Int := -9223372036854775808
def maxLong : Int := 9223372036854775807

def parseInt32? (text : String) : Option Int32 := (parseInt? minInt maxInt text).map Int32.ofInt

def parseInt64? (text : String) : Option Int64 := (parseInt? minLong maxLong text).map Int64.ofInt

def parseInt16? (text : String) : Option Int16 :=
  (parseInt? minShort maxShort text).map Int16.ofInt

def parseInt8? (text : String) : Option Int8 :=
  (parseInt? minByte maxByte text).map Int8.ofInt

/-- Decimal digits with an optional plus sign. -/
def parseNat? (text : String) : Option Nat :=
  let digits := match text.toList with
    | '+' :: rest => rest
    | rest => rest
  if isDigits digits then some (digitsValue digits) else none

/-- The same number in 32 bits, unless it is too large for them. -/
def narrowLong? (n : Int64) : Option Int32 :=
  if minInt ≤ n.toInt && n.toInt ≤ maxInt then some (Int32.ofInt n.toInt) else none

end LiveBinding
