import LiveBinding.Number.Shortest

namespace LiveBinding

/-- How a floating-point number is written: positionally from `10 ^ low` up to but not including
`10 ^ high`, and with an exponent elsewhere. -/
structure FloatStyle where
  low : Int
  high : Int
  mark : String
  pointWithExponent : Bool
  infinity : String

namespace FloatStyle

def zeros (n : Nat) : String := String.ofList (List.replicate n '0')

/-- Digits with the point `places` digits after the start, and at least one digit on both sides. -/
def positional (digits : String) (places : Int) : String :=
  if places ≤ 0 then "0." ++ zeros (-places).toNat ++ digits
  else
    let n := places.toNat
    if digits.length ≤ n then digits ++ zeros (n - digits.length) ++ ".0"
    else
      String.ofList (digits.toList.take n) ++ "." ++ String.ofList (digits.toList.drop n)

def scientific (style : FloatStyle) (digits : String) (exponent : Int) : String :=
  let places := String.ofList (digits.toList.drop 1)
  let places := if places.isEmpty then if style.pointWithExponent then ".0" else "" else "." ++ places
  String.ofList (digits.toList.take 1) ++ places ++ style.mark ++ toString exponent

def render {w : Width} (style : FloatStyle) (x : Floating w) : String :=
  let sign := if x.negative then "-" else ""
  if x.isNaN then "NaN"
  else if x.isInfinite then sign ++ style.infinity
  else if x.isZero then sign ++ "0.0"
  else
    let (c, k) := x.shortest
    let digits := toString c
    let bound (e : Int) : Floating w := Floating.ofDecimal w ⟨false, 1, e⟩
    if (bound style.low).le x.abs && x.abs.lt (bound style.high) then
      sign ++ positional digits (digits.length + k)
    else sign ++ style.scientific digits (digits.length + k - 1)

end FloatStyle

/-- The text that the host gives a number: `1.0`, `0.001`, `1.0E7`. -/
def hostStyle : FloatStyle := ⟨-3, 7, "E", true, "Infinity"⟩

/-- How a listing shows a constant: `1.0`, `0.0001`, `1e16`. -/
def listingStyle : FloatStyle := ⟨-4, 16, "e", false, "inf"⟩

end LiveBinding
