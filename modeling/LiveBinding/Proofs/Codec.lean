import LiveBinding.Image.Codec
import Mathlib.Algebra.Group.Nat.Defs

namespace LiveBinding.Codec

variable {α β : Type} {c : Codec α} {d : Codec β} {a : α} {b : β}

/-- A value is read back from its own bytes, whatever bytes follow them. -/
def Reads (c : Codec α) (a : α) : Prop := ∀ rest, c.decode (c.encode a ++ rest) = some (a, rest)

theorem decodeNat_encodeNat {size n : Nat} (hn : n < 256 ^ size) (rest : List UInt8) :
    decodeNat size (encodeNat size n ++ rest) = some (n, rest) := by
  induction size generalizing n with
  | zero =>
    have hzero : n = 0 := by omega
    simp [encodeNat, decodeNat, hzero]
  | succ size ih =>
    have hhigh : n / 256 < 256 ^ size := Nat.div_lt_of_lt_mul (by rwa [← Nat.pow_succ'])
    have hdigits : n % 256 + 256 * (n / 256) = n := Nat.mod_add_div n 256
    simp [encodeNat, decodeNat, ih hhigh, hdigits]

theorem reads_nat {size n : Nat} (hn : n < 256 ^ size) : (nat size).Reads n :=
  decodeNat_encodeNat hn

theorem reads_u8 {n : Nat} (hn : n < 2 ^ 8) : u8.Reads n := reads_nat hn

theorem reads_u32 {n : Nat} (hn : n < 2 ^ 32) : u32.Reads n := reads_nat hn

theorem reads_u64 {n : Nat} (hn : n < 2 ^ 64) : u64.Reads n := reads_nat hn

theorem Reads.imap {forth : β → α} {back : α → Option β} (h : c.Reads (forth b))
    (hback : back (forth b) = some b) : (c.imap forth back).Reads b := by
  intro rest
  simp only [Codec.imap]
  rw [h rest]
  simp [hback]

theorem reads_bool (b : Bool) : bool.Reads b := by
  cases b with
  | false => exact (reads_u8 (by decide)).imap rfl
  | true => exact (reads_u8 (by decide)).imap rfl

theorem reads_choice [BEq α] [LawfulBEq α] {all : List α} (ha : a ∈ all)
    (hall : all.length ≤ 2 ^ 32) : (choice all).Reads a := by
  have hlt : all.idxOf a < all.length := List.idxOf_lt_length_of_mem ha
  refine (reads_u32 (by omega)).imap ?_
  rw [List.getElem?_eq_getElem hlt, List.getElem_idxOf hlt]

theorem Reads.pair (hc : c.Reads a) (hd : d.Reads b) : (pair c d).Reads (a, b) := by
  intro rest
  simp only [Codec.pair, List.append_assoc]
  rw [hc, Option.bind_some, hd]
  rfl

theorem decodeMany_encode {as : List α} (h : ∀ a ∈ as, c.Reads a) (rest : List UInt8) :
    decodeMany c as.length (as.flatMap c.encode ++ rest) = some (as, rest) := by
  induction as with
  | nil => rfl
  | cons a as ih =>
    have ha := h a List.mem_cons_self
    have has := ih fun b hb ↦ h b (List.mem_cons_of_mem _ hb)
    simp only [List.length_cons, List.flatMap_cons, List.append_assoc, decodeMany]
    rw [ha]
    simp only [has, Option.map_some]

theorem reads_list {as : List α} (hlen : as.length < 2 ^ 64) (h : ∀ a ∈ as, c.Reads a) :
    (list c).Reads as := by
  intro rest
  simp only [list, List.append_assoc]
  rw [reads_u64 hlen, Option.bind_some, decodeMany_encode h]

theorem takeExactly_append (text rest : List UInt8) :
    takeExactly text.length (text ++ rest) = some (text, rest) := by
  simp [takeExactly]

theorem toList_loop (bytes : ByteArray) (i : Nat) (out : List UInt8) :
    ByteArray.toList.loop bytes i out = out.reverse ++ bytes.data.toList.drop i := by
  fun_induction ByteArray.toList.loop bytes i out with
  | case1 i out hi ih =>
    have hget : bytes.data.toList.drop i = bytes.get! i :: bytes.data.toList.drop (i + 1) := by
      have hlt : i < bytes.data.toList.length := hi
      rw [List.drop_eq_getElem_cons hlt]
      simp [ByteArray.get!, hi]
    rw [ih, hget]
    simp
  | case2 i out hi =>
    have hdone : bytes.data.toList.length ≤ i := Nat.not_lt.mp hi
    simp [List.drop_eq_nil_of_le hdone]

theorem toList_eq_data (bytes : ByteArray) : bytes.toList = bytes.data.toList := by
  rw [ByteArray.toList, toList_loop]
  rfl

theorem length_toUTF8 (s : String) : s.toUTF8.toList.length = s.utf8ByteSize := by
  rw [toList_eq_data]
  rfl

theorem utf8?_toUTF8 (s : String) : utf8? s.toUTF8.toList = some s := by
  have hbytes : (⟨s.toUTF8.toList.toArray⟩ : ByteArray) = s.toByteArray := by
    rw [toList_eq_data]
    rfl
  rw [utf8?, hbytes, String.fromUTF8?, dif_pos s.isValidUTF8]
  rfl

theorem reads_string {s : String} (hs : s.utf8ByteSize < 2 ^ 64) : string.Reads s := by
  intro rest
  simp only [string, List.append_assoc]
  rw [reads_u64 hs, Option.bind_some, ← length_toUTF8, takeExactly_append, Option.bind_some,
    utf8?_toUTF8]
  rfl

/-- The first byte of a character tells how many there are. -/
theorem exists_first (c : Char) :
    ∃ b tail, String.utf8EncodeChar c = b :: tail ∧ charWidth b = tail.length + 1 := by
  have hvalid := c.valid
  have hmax : c.val.toNat < 0x110000 := by
    rcases hvalid with h | h
    · exact Nat.lt_trans h (by decide)
    · exact h.2
  unfold String.utf8EncodeChar
  dsimp only
  split
  case isTrue h =>
    refine ⟨_, _, rfl, ?_⟩
    simp only [charWidth, UInt8.toNat_ofNat', List.length_nil]
    rw [if_pos (by omega)]
  case isFalse h =>
    split
    case isTrue h' =>
      refine ⟨_, _, rfl, ?_⟩
      simp only [charWidth, UInt8.toNat_ofNat', List.length_cons, List.length_nil]
      rw [if_neg (by omega), if_neg (by omega), if_pos (by omega)]
    case isFalse h' =>
      split
      case isTrue h'' =>
        refine ⟨_, _, rfl, ?_⟩
        simp only [charWidth, UInt8.toNat_ofNat', List.length_cons, List.length_nil]
        rw [if_neg (by omega), if_neg (by omega), if_neg (by omega), if_pos (by omega)]
      case isFalse h'' =>
        refine ⟨_, _, rfl, ?_⟩
        simp only [charWidth, UInt8.toNat_ofNat', List.length_cons, List.length_nil]
        rw [if_neg (by omega), if_neg (by omega), if_neg (by omega), if_neg (by omega),
          if_pos (by omega)]

theorem toUTF8_singleton (c : Char) :
    (String.singleton c).toUTF8.toList = String.utf8EncodeChar c := by
  rw [toList_eq_data]
  simp [List.utf8Encode_singleton]

theorem reads_char (c : Char) : char.Reads c := by
  intro rest
  obtain ⟨b, tail, hbytes, hwidth⟩ := exists_first c
  have hutf8 : utf8? (b :: tail) = some (String.singleton c) := by
    rw [← hbytes, ← toUTF8_singleton, utf8?_toUTF8]
  have hnonzero : charWidth b ≠ 0 := by omega
  have htake : takeExactly (charWidth b) (b :: (tail ++ rest)) = some (b :: tail, rest) := by
    rw [hwidth]
    exact takeExactly_append (b :: tail) rest
  simp only [char, toUTF8_singleton, hbytes, List.cons_append, hnonzero, if_false, htake,
    Option.bind_some, hutf8, Option.map_some, String.toList_singleton]

theorem reads_int {size : Nat} {n : Int} (hlow : -(256 ^ size : Nat) ≤ 2 * n)
    (hhigh : 2 * n < (256 ^ size : Nat)) : (int size).Reads n := by
  obtain ⟨m, hm⟩ : ∃ m, Nat.pow 256 size = m := ⟨_, rfl⟩
  have hpow : 256 ^ size = m := hm
  have hpos : 0 < m := hpow ▸ Nat.pow_pos (by decide)
  have hlt : n % m < m := Int.emod_lt_of_pos n (by omega)
  have hnonneg : 0 ≤ n % m := Int.emod_nonneg n (by omega)
  rw [hpow] at hlow hhigh
  unfold int
  apply Reads.imap
  · apply reads_nat
    rw [hm, hpow]
    omega
  · rw [hm]
    apply congrArg some
    rcases Int.lt_or_le n 0 with hn | hn
    · have hmod : n % m = n + m := by
        rw [← Int.add_emod_right, Int.emod_eq_of_lt (by omega) (by omega)]
      rw [if_neg (by omega)]
      omega
    · have hmod : n % m = n := Int.emod_eq_of_lt hn (by omega)
      rw [if_pos (by omega)]
      omega

end LiveBinding.Codec
