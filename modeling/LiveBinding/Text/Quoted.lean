import LiveBinding.Text.Printable

namespace LiveBinding.Text

def escapeCode (c : Char) : String :=
  "\\u\x7b" ++ String.ofList (Nat.toDigits 16 c.toNat) ++ "\x7d"

/-- One character between quotation marks `mark`. What cannot be read on its own (controls, blanks
other than the space, marks that attach to the character before) is written by its code. -/
def escape (mark : Char) (c : Char) : String :=
  if c == '\x00' then "\\0"
  else if c == '\t' then "\\t"
  else if c == '\r' then "\\r"
  else if c == '\n' then "\\n"
  else if c == '\\' then "\\\\"
  else if c == mark then String.ofList ['\\', c]
  else if isExtender c || !isPrintable c then escapeCode c
  else String.singleton c

def quoted (s : String) : String :=
  "\"" ++ String.join (s.toList.map (escape '"')) ++ "\""

def quotedChar (c : Char) : String := "'" ++ escape '\'' c ++ "'"

end LiveBinding.Text
