import LiveBinding.Number.Decimal

namespace LiveBinding.Floating

variable {w : Width}

/-- A finite number and the ends of the interval of reals that round to it, in quarters of its last
place. Below a power of two the numbers are twice as dense. -/
structure Neighbourhood where
  low : Nat
  mid : Nat
  high : Nat
  closed : Bool

def neighbourhood (x : Floating w) : Neighbourhood :=
  let m := x.significand
  ⟨if x.fraction = 0 && 1 < x.exponentField then 4 * m - 1 else 4 * m - 2, 4 * m, 4 * m + 2,
    m % 2 == 0⟩

/-- The multiple `c` of the decimal unit lies in the interval, where one such unit is `num / den`
quarters of the last place. -/
def Neighbourhood.contains (i : Neighbourhood) (num den c : Nat) : Bool :=
  if i.closed then i.low * den ≤ c * num && c * num ≤ i.high * den
  else i.low * den < c * num && c * num < i.high * den

/-- The multiple of the decimal unit that lies in the interval, the nearer one where there are two
and the larger one where both are as near. -/
def Neighbourhood.nearest? (i : Neighbourhood) (num den : Nat) : Option Nat :=
  let c := i.mid * den / num
  if c = 0 then none
  else
    match i.contains num den c, i.contains num den (c + 1) with
    | true, true => some (if 2 * i.mid * den < (2 * c + 1) * num then c else c + 1)
    | true, false => some c
    | false, true => some (c + 1)
    | false, false => none

/-- The unit `10 ^ k` counted in quarters of the last place of a number with exponent `e`. -/
def unitRatio (k e : Int) : Nat × Nat :=
  let q := e - 2
  (pow10 k.toNat * pow2 (-q).toNat, pow10 (-k).toNat * pow2 q.toNat)

/-- Looks for a multiple of `10 ^ k`, then of `10 ^ (k - 1)` and so on. -/
def searchShortest (i : Neighbourhood) (e : Int) : Nat → Int → Nat × Int
  | 0, k => (0, k)
  | tries + 1, k =>
    let (num, den) := unitRatio k e
    match i.nearest? num den with
    | some c => (c, k)
    | none => searchShortest i e tries (k - 1)

/-- Drops the zeros at the end of the digits. -/
def dropZeros : Nat → Nat × Int → Nat × Int
  | 0, d => d
  | fuel + 1, (c, k) => if c != 0 && c % 10 == 0 then dropZeros fuel (c / 10, k + 1) else (c, k)

/-- The fewest decimal digits that read back as the same number, for one that is finite and not
zero. Seventeen digits are always enough. -/
def shortest (x : Floating w) : Nat × Int :=
  let guess := ((x.significand.log2 : Int) + x.exponent) * 30103 / 100000 + 1
  dropZeros 20 (searchShortest x.neighbourhood x.exponent 22 guess)

end LiveBinding.Floating
