namespace LiveBinding.Text

/-- Size in bytes of the UTF-8 form. -/
def byteSize : List Char → Nat
  | [] => 0
  | c :: cs => c.utf8Size + byteSize cs

/-- What is left after the first `n` bytes, unless they end inside a character. -/
def dropBytes (n : Nat) : List Char → Option (List Char)
  | [] => if n = 0 then some [] else none
  | c :: cs =>
    if n = 0 then some (c :: cs)
    else if c.utf8Size ≤ n then dropBytes (n - c.utf8Size) cs
    else none

/-- The first `n` bytes, unless they end inside a character. -/
def takeBytes (n : Nat) : List Char → Option (List Char)
  | [] => if n = 0 then some [] else none
  | c :: cs =>
    if n = 0 then some []
    else if c.utf8Size ≤ n then (takeBytes (n - c.utf8Size) cs).map (c :: ·)
    else none

def slice? (s : String) (start stop : Nat) : Option String :=
  if start ≤ stop then
    ((dropBytes start s.toList).bind (takeBytes (stop - start))).map String.ofList
  else none

end LiveBinding.Text
