import Mathlib.Tactic.Common

/-!
UTF-8 on lists of bytes: encoding, strict decoding, and the reading of a text rune by rune
that goes on behind a byte that does not belong.
-/

namespace TimescalePrometheus.Lib.Utf8

abbrev Bytes := List UInt8

/-- The bytes of a text. -/
def encode (cs : List Char) : Bytes := cs.flatMap String.utf8EncodeChar

/-- None if the bytes are not UTF-8. -/
def decode (b : Bytes) : Option (List Char) := b.toByteArray.utf8Decode?.map Array.toList

@[simp] theorem encode_nil : encode [] = [] := rfl

@[simp] theorem encode_cons (c : Char) (cs : List Char) :
    encode (c :: cs) = String.utf8EncodeChar c ++ encode cs := rfl

@[simp] theorem encode_append (cs ds : List Char) :
    encode (cs ++ ds) = encode cs ++ encode ds := by
  simp [encode]

theorem decode_encode (cs : List Char) : decode (encode cs) = some cs := by
  have h : (encode cs).toByteArray = cs.utf8Encode := rfl
  simp [decode, h]

/-- The rune at the beginning, if there is a whole one. -/
def decodeRune (s : Bytes) : Option Char := s.toByteArray.utf8DecodeChar? 0

theorem decodeRune_encodeChar_append (c : Char) (s : Bytes) :
    decodeRune (String.utf8EncodeChar c ++ s) = some c := by
  rw [decodeRune, List.toByteArray_append]
  exact ByteArray.utf8DecodeChar?_utf8EncodeChar_append

theorem eq_append_of_decodeRune {s : Bytes} {c : Char} (h : decodeRune s = some c) :
    s = String.utf8EncodeChar c ++ s.drop c.utf8Size := by
  obtain ⟨rest, hrest⟩ := ByteArray.exists_of_utf8DecodeChar?_eq_some h
  have hs : s = String.utf8EncodeChar c ++ rest.data.toList := by
    have hdata : rest = rest.data.toList.toByteArray := ByteArray.ext (by simp)
    rw [← List.toByteArray_inj, hrest, List.toByteArray_append, ← hdata]
  rw [hs, List.drop_append_of_le_length (by simp), List.drop_of_length_le (by simp)]
  rfl

theorem cons_take_of_decodeRune {b : UInt8} {rest : Bytes} {c : Char}
    (h : decodeRune (b :: rest) = some c) :
    b :: rest.take (c.utf8Size - 1) = String.utf8EncodeChar c := by
  have hsize : c.utf8Size = c.utf8Size - 1 + 1 := (Nat.sub_add_cancel c.utf8Size_pos).symm
  rw [← List.take_succ_cons, ← hsize, eq_append_of_decodeRune h, List.take_left' (by simp)]

theorem encodeChar_ascii {c : Char} (h : c.toNat < 128) :
    String.utf8EncodeChar c = [UInt8.ofNat c.toNat] := by
  rw [String.utf8EncodeChar, if_pos (show c.val.toNat ≤ 127 from Nat.le_of_lt_succ h)]
  rfl

def asciiChar (b : UInt8) : Char := Char.ofNat b.toNat

theorem toNat_asciiChar (b : UInt8) : (asciiChar b).toNat = b.toNat := by
  have hb := b.toNat_lt
  rw [asciiChar, Char.ofNat, dif_pos (Or.inl (by omega))]
  rfl

theorem encodeChar_asciiChar {b : UInt8} (h : b < 128) :
    String.utf8EncodeChar (asciiChar b) = [b] := by
  have hb : b.toNat < 128 := h
  rw [encodeChar_ascii (by rw [toNat_asciiChar]; exact hb), toNat_asciiChar, UInt8.ofNat_toNat]

theorem encode_map_asciiChar {b : Bytes} (h : ∀ x ∈ b, x < 128) :
    encode (b.map asciiChar) = b := by
  induction b with
  | nil => rfl
  | cons x b ih =>
    rw [List.map_cons, encode_cons, encodeChar_asciiChar (h x (by simp)),
      ih fun y hy => h y (by simp [hy])]
    rfl

theorem decodeRune_ascii {b : UInt8} (h : b < 128) (s : Bytes) :
    decodeRune (b :: s) = some (asciiChar b) := by
  have hrune := decodeRune_encodeChar_append (asciiChar b) s
  rwa [encodeChar_asciiChar h] at hrune

/-- The runes of a text, with `none` for a byte that begins none. -/
def runes : Bytes → List (Option Char)
  | [] => []
  | b :: rest =>
    match decodeRune (b :: rest) with
    | none => none :: runes rest
    | some c => some c :: runes (rest.drop (c.utf8Size - 1))
termination_by s => s.length
decreasing_by
  · simp
  · simp only [List.length_drop, List.length_cons]
    omega

theorem runes_encodeChar_append (c : Char) (s : Bytes) :
    runes (String.utf8EncodeChar c ++ s) = some c :: runes s := by
  have hrune := decodeRune_encodeChar_append c s
  have hlen := String.length_utf8EncodeChar c
  cases hc : String.utf8EncodeChar c with
  | nil =>
    rw [hc] at hlen
    exact absurd hlen.symm (Nat.ne_of_gt c.utf8Size_pos)
  | cons b tail =>
    rw [hc, List.cons_append] at hrune
    rw [hc, List.length_cons] at hlen
    rw [List.cons_append, runes, hrune]
    simp only [← hlen, Nat.add_sub_cancel, List.drop_left]

theorem runes_encode (cs : List Char) : runes (encode cs) = cs.map some := by
  induction cs with
  | nil => rw [encode_nil, runes, List.map_nil]
  | cons c cs ih => rw [encode_cons, runes_encodeChar_append, ih, List.map_cons]

end TimescalePrometheus.Lib.Utf8
