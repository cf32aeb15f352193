namespace LiveBinding

/-- Bytes for a value in front of other bytes, and how to read them back. -/
structure Codec (α : Type) where
  encode : α → List UInt8
  decode : List UInt8 → Option (α × List UInt8)

namespace Codec

variable {α β : Type}

/-- Little-endian bytes of a number. -/
def encodeNat : Nat → Nat → List UInt8
  | 0, _ => []
  | size + 1, n => UInt8.ofNat n :: encodeNat size (n / 256)

def decodeNat : Nat → List UInt8 → Option (Nat × List UInt8)
  | 0, bytes => some (0, bytes)
  | _ + 1, [] => none
  | size + 1, b :: bytes => (decodeNat size bytes).map fun (n, rest) ↦ (b.toNat + 256 * n, rest)

/-- A number in a fixed count of bytes. -/
def nat (size : Nat) : Codec Nat := ⟨encodeNat size, decodeNat size⟩

def u8 : Codec Nat := nat 1
def u32 : Codec Nat := nat 4
def u64 : Codec Nat := nat 8

/-- Reads only what `back` accepts. -/
def imap (c : Codec α) (forth : β → α) (back : α → Option β) : Codec β where
  encode b := c.encode (forth b)
  decode bytes := (c.decode bytes).bind fun (a, rest) ↦ (back a).map (·, rest)

def bool : Codec Bool :=
  u8.imap Bool.toNat fun n ↦ if n = 0 then some false else if n = 1 then some true else none

/-- One of the values of a list, by its place. -/
def choice [BEq α] (all : List α) : Codec α := u32.imap (all.idxOf ·) (all[·]?)

def pair (c : Codec α) (d : Codec β) : Codec (α × β) where
  encode p := c.encode p.1 ++ d.encode p.2
  decode bytes := (c.decode bytes).bind fun (a, rest) ↦
    (d.decode rest).map fun (b, rest) ↦ ((a, b), rest)

def decodeMany (c : Codec α) : Nat → List UInt8 → Option (List α × List UInt8)
  | 0, bytes => some ([], bytes)
  | n + 1, bytes =>
    match c.decode bytes with
    | none => none
    | some (a, rest) => (decodeMany c n rest).map fun (as, rest) ↦ (a :: as, rest)

/-- The count of some values, then the values. -/
def list (c : Codec α) : Codec (List α) where
  encode as := u64.encode as.length ++ as.flatMap c.encode
  decode bytes := (u64.decode bytes).bind fun (n, rest) ↦ decodeMany c n rest

def takeExactly (n : Nat) (bytes : List UInt8) : Option (List UInt8 × List UInt8) :=
  if n ≤ bytes.length then some (bytes.take n, bytes.drop n) else none

def utf8? (bytes : List UInt8) : Option String := String.fromUTF8? ⟨bytes.toArray⟩

/-- The count of the bytes of a text, then its UTF-8 form. -/
def string : Codec String where
  encode s := u64.encode s.utf8ByteSize ++ s.toUTF8.toList
  decode bytes := (u64.decode bytes).bind fun (n, rest) ↦
    (takeExactly n rest).bind fun (text, rest) ↦ (utf8? text).map (·, rest)

/-- How many bytes a character takes that starts with a byte; zero if none does. -/
def charWidth (b : UInt8) : Nat :=
  let n := b.toNat
  if n < 0x80 then 1
  else if n < 0xC2 then 0
  else if n < 0xE0 then 2
  else if n < 0xF0 then 3
  else if n < 0xF5 then 4
  else 0

/-- The UTF-8 form of a character. -/
def char : Codec Char where
  encode c := (String.singleton c).toUTF8.toList
  decode bytes :=
    match bytes with
    | [] => none
    | b :: _ =>
      if charWidth b = 0 then none
      else
        (takeExactly (charWidth b) bytes).bind fun (text, rest) ↦
          match (utf8? text).map String.toList with
          | some [c] => some (c, rest)
          | _ => none

/-- Two's complement. -/
def int (size : Nat) : Codec Int :=
  let modulus : Nat := Nat.pow 256 size
  (nat size).imap (fun n ↦ (n % modulus).toNat) fun n ↦
    some (if 2 * n < modulus then n else n - modulus)

end Codec

end LiveBinding
