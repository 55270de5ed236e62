import Mathlib.Algebra.GroupWithZero.Nat
import Mathlib.Tactic.Common

/-!
Byte strings written one after the other, each after its own length as a little-endian number of
two bytes.
-/

namespace TimescalePrometheus.Lib.LengthPrefixed

abbrev Bytes := List UInt8

/-- The low byte first. -/
def littleEndian (v : UInt16) : Bytes :=
  [v.toUInt8, (v >>> 8).toUInt8]

theorem littleEndian_injective {v w : UInt16} (h : littleEndian v = littleEndian w) : v = w := by
  have hlow : v.toNat % 256 = w.toNat % 256 := by
    simpa using congrArg UInt8.toNat (List.cons.inj h).1
  have hhigh : v.toNat / 256 % 256 = w.toNat / 256 % 256 := by
    simpa [Nat.shiftRight_eq_div_pow] using
      congrArg UInt8.toNat (List.cons.inj (List.cons.inj h).2).1
  have hv := v.toNat_lt
  have hw := w.toNat_lt
  apply UInt16.toNat_inj.mp
  omega

/-- The length is cut to two bytes. -/
def field (b : Bytes) : Bytes :=
  littleEndian (UInt16.ofNat b.length) ++ b

/-- The length fits into its two bytes. -/
def Fits (b : Bytes) : Prop := b.length < 2 ^ 16

theorem ofNat_length_injective {a b : Bytes} (ha : Fits a) (hb : Fits b)
    (h : UInt16.ofNat a.length = UInt16.ofNat b.length) : a.length = b.length := by
  have := congrArg UInt16.toNat h
  rwa [UInt16.toNat_ofNat_of_lt' ha, UInt16.toNat_ofNat_of_lt' hb] at this

theorem field_append_injective {a b rest rest' : Bytes} (ha : Fits a) (hb : Fits b)
    (h : field a ++ rest = field b ++ rest') : a = b ∧ rest = rest' := by
  unfold field at h
  simp only [List.append_assoc] at h
  obtain ⟨hlen, htail⟩ := List.append_inj h rfl
  exact List.append_inj htail
    (ofNat_length_injective ha hb (littleEndian_injective hlen))

theorem flatMap_field_injective {l l' : List Bytes} (hl : ∀ b ∈ l, Fits b)
    (hl' : ∀ b ∈ l', Fits b) (h : l.flatMap field = l'.flatMap field) : l = l' := by
  induction l generalizing l' with
  | nil =>
    cases l' with
    | nil => rfl
    | cons b l' => cases h
  | cons a l ih =>
    cases l' with
    | nil => cases h
    | cons b l' =>
      obtain ⟨hab, hrest⟩ := field_append_injective (hl a (by simp)) (hl' b (by simp)) h
      rw [hab, ih (fun b hb => hl b (by simp [hb])) (fun b hb => hl' b (by simp [hb])) hrest]

/-- The text is the given strings one after the other, each after its own length in two bytes,
the lower one first. -/
inductive Framed : List Bytes → Bytes → Prop
  | nil : Framed [] []
  | cons {b : Bytes} {fields : List Bytes} {low high : UInt8} {rest : Bytes}
      (hlen : b.length = low.toNat + 256 * high.toNat) (hrest : Framed fields rest) :
      Framed (b :: fields) (low :: high :: (b ++ rest))

theorem framed_flatMap_field {l : List Bytes} (hl : ∀ b ∈ l, Fits b) :
    Framed l (l.flatMap field) := by
  induction l with
  | nil => exact .nil
  | cons b l ih =>
    have hfits : b.length < 2 ^ 16 := hl b (by simp)
    have hrest := ih fun b hb => hl b (by simp [hb])
    change Framed (b :: l) ((UInt16.ofNat b.length).toUInt8 ::
      (UInt16.ofNat b.length >>> 8).toUInt8 :: (b ++ l.flatMap field))
    refine .cons ?_ hrest
    simp only [UInt16.toNat_toUInt8, UInt16.toNat_shiftRight, UInt16.toNat_ofNat_of_lt' hfits,
      Nat.shiftRight_eq_div_pow]
    change b.length = b.length % 256 + 256 * (b.length / 256 % 256)
    omega

theorem length_field (b : Bytes) : (field b).length = 2 + b.length := by
  simp only [field, littleEndian, List.length_append, List.length_cons, List.length_nil]

theorem length_flatMap_field (l : List Bytes) :
    (l.flatMap field).length = 2 * l.length + (l.map List.length).sum := by
  induction l with
  | nil => rfl
  | cons b l ih =>
    simp only [List.flatMap_cons, List.length_append, length_field, ih, List.length_cons,
      List.map_cons, List.sum_cons]
    omega

end TimescalePrometheus.Lib.LengthPrefixed
