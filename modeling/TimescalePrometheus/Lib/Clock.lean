import Mathlib.Data.List.Rotate
import Mathlib.Data.Nat.ModEq
import Mathlib.Tactic.Common

/-!
The CLOCK replacement algorithm on a ring of marked slots: a hand goes round the ring,
takes the marks away that it comes across, and stops at the first slot without one.
-/

namespace TimescalePrometheus.Lib.Clock

variable {n hand : Nat}

/-- The next `count` slots in ring order, from the hand on. -/
def ring (n hand count : Nat) : List Nat := (List.range count).map fun i => (hand + i) % n

@[simp] theorem length_ring (n hand count : Nat) : (ring n hand count).length = count := by
  simp [ring]

theorem mem_ring {count slot : Nat} :
    slot ∈ ring n hand count ↔ ∃ i < count, (hand + i) % n = slot := by
  simp [ring]

theorem getElem?_ring {count i : Nat} (h : i < count) :
    (ring n hand count)[i]? = some ((hand + i) % n) := by
  simp [ring, h]

theorem ring_add (hand' first second : Nat) (hhand : hand' % n = (hand + first) % n) :
    ring n hand (first + second) = ring n hand first ++ ring n hand' second := by
  rw [ring, List.range_add, List.map_append, List.map_map]
  congr 1
  apply List.map_congr_left
  intro i _
  rw [Function.comp_apply, ← Nat.add_assoc, Nat.add_mod, ← hhand, ← Nat.add_mod]

theorem ring_eq_range' {count : Nat} (h : hand + count ≤ n) :
    ring n hand count = List.range' hand count := by
  apply List.ext_getElem
  · simp
  · intro i hi _
    rw [length_ring] at hi
    simp [ring, Nat.mod_eq_of_lt (by omega : hand + i < n)]

theorem slot_inj {i j : Nat} (hi : i < n) (hj : j < n) (h : (hand + i) % n = (hand + j) % n) :
    i = j := by
  have hmod : i ≡ j [MOD n] := Nat.ModEq.add_left_cancel' hand h
  exact hmod.eq_of_lt_of_lt hi hj

theorem exists_slot (hand : Nat) {slot : Nat} (h : slot < n) :
    ∃ i < n, (hand + i) % n = slot := by
  refine ⟨(slot + (n - hand % n)) % n, Nat.mod_lt _ (by omega), ?_⟩
  have hhand : hand % n < n := Nat.mod_lt _ (by omega)
  have hsum : hand % n + (slot + (n - hand % n)) = slot + n := by omega
  calc (hand + (slot + (n - hand % n)) % n) % n
      = (hand % n + (slot + (n - hand % n))) % n := by rw [Nat.add_mod_mod, Nat.mod_add_mod]
    _ = slot := by rw [hsum, Nat.add_mod_right, Nat.mod_eq_of_lt h]

/-- No slot comes a second time before every slot has come since the first. -/
def Spaced (n : Nat) (slots : List Nat) : Prop :=
  ∀ i j, i < j → j < slots.length → slots[i]? = slots[j]? →
    ∀ slot < n, ∃ k, i ≤ k ∧ k < j ∧ slots[k]? = some slot

theorem spaced_ring (n hand count : Nat) : Spaced n (ring n hand count) := by
  intro i j hij hj heq slot hslot
  rw [length_ring] at hj
  rw [getElem?_ring (by omega), getElem?_ring hj, Option.some.injEq] at heq
  -- equal slots are a whole turn apart
  have hturn : n ≤ j - i := by
    by_contra hlt
    have hshift : (hand + i + 0) % n = (hand + i + (j - i)) % n := by
      rw [Nat.add_zero, heq]
      congr 1
      omega
    have := slot_inj (by omega) (by omega) hshift
    omega
  obtain ⟨k, hk, hkslot⟩ := exists_slot (hand + i) hslot
  refine ⟨i + k, by omega, by omega, ?_⟩
  rw [getElem?_ring (by omega), ← Nat.add_assoc, hkslot]

/-- The mark of the slot that the hand comes to after `i` others, when it comes there: the
hand has not been at the slot before. -/
def Marked (marks : List Bool) (hand i : Nat) : Prop :=
  marks[(hand + i) % marks.length]? = some true ∧
    (hand + i) % marks.length ∉ ring marks.length hand i

/-- The hand passes `count` slots, which lose their marks, and stops at the slot after
them. -/
structure Sweeps (marks : List Bool) (hand count : Nat) (marks' : List Bool) : Prop where
  passed : ∀ i < count, Marked marks hand i
  stops : ¬ Marked marks hand count
  cleared : ∀ slot, marks'[slot]? =
    marks[slot]?.map fun mark => mark && decide (slot ∉ ring marks.length hand count)

/-- A turn of the clock: the slot where the hand stops is the victim, and the hand is left
on the slot after it. -/
def Turn (marks : List Bool) (hand victim : Nat) (marks' : List Bool) (hand' : Nat) : Prop :=
  ∃ count, Sweeps marks hand count marks' ∧ victim = (hand + count) % marks.length ∧
    hand' % marks.length = (victim + 1) % marks.length

theorem sweeps_of_rotate {marks marks' rest : List Bool} {hand count : Nat} (hne : marks ≠ [])
    (hmarks : marks.rotate hand = List.replicate count true ++ rest)
    (hrest : rest.head? ≠ some true)
    (hmarks' : marks'.rotate hand = List.replicate count false ++ rest) :
    Sweeps marks hand count marks' := by
  have hpos : 0 < marks.length := List.length_pos_iff.mpr hne
  have hlen : marks.length = count + rest.length := by
    simpa using congrArg List.length hmarks
  have hlen' : marks'.length = marks.length := by
    rw [hlen]
    simpa using congrArg List.length hmarks'
  have hat : ∀ i < marks.length, marks[(hand + i) % marks.length]? =
      (List.replicate count true ++ rest)[i]? := by
    intro i hi
    rw [← hmarks, List.getElem?_rotate hi, Nat.add_comm]
  have hat' : ∀ i < marks.length, marks'[(hand + i) % marks.length]? =
      (List.replicate count false ++ rest)[i]? := by
    intro i hi
    rw [← hmarks', List.getElem?_rotate (hlen'.symm ▸ hi), Nat.add_comm, hlen']
  refine ⟨?_, ?_, ?_⟩
  · intro i hi
    refine ⟨?_, ?_⟩
    · rw [hat i (by omega), List.getElem?_append_left (by simpa using hi)]
      simp [hi]
    · rw [mem_ring]
      rintro ⟨j, hj, hslot⟩
      have := slot_inj (by omega) (by omega) hslot
      omega
  · rintro ⟨hmark, hnew⟩
    rcases Nat.lt_or_ge count marks.length with hcount | hcount
    · rw [hat count hcount, List.getElem?_append_right (by simp), List.length_replicate,
        Nat.sub_self, ← List.head?_eq_getElem?] at hmark
      exact hrest hmark
    · -- all slots had marks: the hand is back where it started
      apply hnew
      rw [mem_ring]
      refine ⟨0, by omega, ?_⟩
      rw [show count = marks.length by omega, Nat.add_zero, Nat.add_mod_right]
  · intro slot
    rcases Nat.lt_or_ge slot marks.length with hslot | hslot
    · obtain ⟨i, hi, rfl⟩ := exists_slot hand hslot
      rw [hat' i hi, hat i hi]
      rcases Nat.lt_or_ge i count with hcount | hcount
      · have hmem : (hand + i) % marks.length ∈ ring marks.length hand count :=
          mem_ring.mpr ⟨i, hcount, rfl⟩
        rw [List.getElem?_append_left (by simpa using hcount),
          List.getElem?_append_left (by simpa using hcount)]
        simp [hcount, hmem]
      · have hnot : (hand + i) % marks.length ∉ ring marks.length hand count := by
          rw [mem_ring]
          rintro ⟨j, hj, hslots⟩
          have := slot_inj (by omega) hi hslots
          omega
        rw [List.getElem?_append_right (by simpa using hcount),
          List.getElem?_append_right (by simpa using hcount)]
        simp [hnot]
    · rw [List.getElem?_eq_none (hlen'.symm ▸ hslot), List.getElem?_eq_none hslot]
      rfl

theorem Sweeps.count_unique {marks marks' marks'' : List Bool} {count count' : Nat}
    (h : Sweeps marks hand count marks') (h' : Sweeps marks hand count' marks'') :
    count = count' := by
  rcases Nat.lt_trichotomy count count' with hlt | heq | hgt
  · exact absurd (h'.passed count hlt) h.stops
  · exact heq
  · exact absurd (h.passed count' hgt) h'.stops

theorem Sweeps.victim_clear {marks marks' : List Bool} {count slot : Nat}
    (h : Sweeps marks hand count marks') (hclear : marks[slot]? = some false) :
    marks[(hand + count) % marks.length]? = some false := by
  have hslot : slot < marks.length := (List.getElem?_eq_some_iff.mp hclear).1
  have hvictim : (hand + count) % marks.length < marks.length := Nat.mod_lt _ (by omega)
  obtain ⟨j, hj, rfl⟩ := exists_slot hand hslot
  have hle : count ≤ j := by
    by_contra hlt
    have hmarked := (h.passed j (by omega)).1
    rw [hclear] at hmarked
    cases hmarked
  cases hmark : marks[(hand + count) % marks.length]? with
  | none => exact absurd hvictim (Nat.not_lt.mpr (List.getElem?_eq_none_iff.mp hmark))
  | some mark =>
    cases mark with
    | false => rfl
    | true =>
      -- the slot would be one that the hand has passed
      refine absurd ⟨hmark, ?_⟩ h.stops
      rw [mem_ring]
      rintro ⟨i, hi, heq⟩
      have := slot_inj (by omega) (by omega) heq
      omega

end TimescalePrometheus.Lib.Clock
