import Mathlib.Algebra.GroupWithZero.Nat
import Mathlib.Data.List.Nodup
import Mathlib.Order.MinMax

/-!
The merge of several streams. A round lists the smallest of the current elements, and all streams
that are at it go on.
-/

namespace TimescalePrometheus.Lib.Merging

/-- Streams that are at an element: how they go on, and what they list from there. -/
structure Source (σ α : Type*) where
  head : σ → α
  next : σ → Option σ
  listing : σ → List α
  listing_eq : ∀ s, listing s = head s :: ((next s).map listing).getD []

variable {σ α : Type*}

theorem Source.listing_of_next (src : Source σ α) {s s' : σ} (h : src.next s = some s') :
    src.listing s = src.head s :: src.listing s' := by
  rw [src.listing_eq s, h]
  rfl

theorem Source.listing_of_end (src : Source σ α) {s : σ} (h : src.next s = none) :
    src.listing s = [src.head s] := by
  rw [src.listing_eq s, h]
  rfl

theorem Source.head_mem_listing (src : Source σ α) (s : σ) : src.head s ∈ src.listing s := by
  rw [src.listing_eq s]
  exact List.mem_cons_self

/-- `s'` is what a round that lists `m` makes of `s`. -/
def Becomes (src : Source σ α) (m : α) (s s' : σ) : Prop :=
  (src.head s ≠ m ∧ s = s') ∨ (src.head s = m ∧ src.next s = some s')

variable {src : Source σ α} {m x : α} {s s' : σ}

theorem Becomes.mem_listing (h : Becomes src m s s') (hx : x ∈ src.listing s') :
    x ∈ src.listing s := by
  rcases h with ⟨_, rfl⟩ | ⟨_, hnext⟩
  · exact hx
  · rw [src.listing_of_next hnext]
    exact List.mem_cons_of_mem _ hx

theorem Becomes.nodup_listing (h : Becomes src m s s') (hs : (src.listing s).Nodup) :
    (src.listing s').Nodup := by
  rcases h with ⟨_, rfl⟩ | ⟨_, hnext⟩
  · exact hs
  · rw [src.listing_of_next hnext, List.nodup_cons] at hs
    exact hs.2

variable [LinearOrder α]

/-- The streams that are at the element go on. -/
def advance (src : Source σ α) (m : α) (heap : List σ) : List σ :=
  heap.filterMap fun s => if src.head s = m then src.next s else some s

/-- The least head is taken in each round. -/
def mergeLoop (src : Source σ α) : Nat → List σ → List α
  | 0, _ => []
  | n + 1, heap =>
    match (heap.map src.head).min? with
    | none => []
    | some m => m :: mergeLoop src n (advance src m heap)

/-- The number of elements to come, which is enough rounds. -/
def total (src : Source σ α) (heap : List σ) : Nat :=
  (heap.map fun s => (src.listing s).length).sum

variable {heap : List σ}

theorem mem_advance : s' ∈ advance src m heap ↔ ∃ s ∈ heap, Becomes src m s s' := by
  simp only [advance, List.mem_filterMap, Becomes]
  refine exists_congr fun s => and_congr_right fun _ => ?_
  split <;> simp_all

theorem exists_becomes (hx : x ∈ src.listing s) (hxm : x ≠ m) :
    ∃ s', Becomes src m s s' ∧ x ∈ src.listing s' := by
  by_cases hhead : src.head s = m
  · cases hnext : src.next s with
    | none =>
      rw [src.listing_of_end hnext, List.mem_singleton, hhead] at hx
      exact absurd hx hxm
    | some s' =>
      rw [src.listing_of_next hnext, List.mem_cons, hhead] at hx
      exact ⟨s', .inr ⟨hhead, hnext⟩, hx.resolve_left hxm⟩
  · exact ⟨s, .inl ⟨hhead, rfl⟩, hx⟩

theorem total_advance_le (src : Source σ α) (m : α) (heap : List σ) :
    total src (advance src m heap) ≤ total src heap ∧
      (m ∈ heap.map src.head → total src (advance src m heap) < total src heap) := by
  induction heap with
  | nil => simp [total, advance]
  | cons s heap ih =>
    simp only [total, advance, List.map_cons, List.sum_cons, List.mem_cons,
      List.filterMap_cons] at ih ⊢
    by_cases hs : src.head s = m
    · rw [if_pos hs]
      cases hnext : src.next s with
      | none =>
        rw [src.listing_of_end hnext]
        simp only [List.length_singleton]
        omega
      | some s' =>
        rw [src.listing_of_next hnext]
        simp only [List.map_cons, List.sum_cons, List.length_cons]
        omega
    · rw [if_neg hs]
      simp only [List.map_cons, List.sum_cons]
      refine ⟨by omega, ?_⟩
      rintro (rfl | hmem)
      · exact absurd rfl hs
      · have := ih.2 hmem
        omega

/-- The streams of the heap are merged into the list, by any number of rounds. -/
inductive Merges (src : Source σ α) : List σ → List α → Prop
  | done : Merges src [] []
  | round {heap : List σ} {m : α} {rest : List α} (hmin : (heap.map src.head).min? = some m)
      (hrest : Merges src (advance src m heap) rest) : Merges src heap (m :: rest)

theorem merges_mergeLoop {n : Nat} (hn : total src heap ≤ n) :
    Merges src heap (mergeLoop src n heap) := by
  induction n generalizing heap with
  | zero =>
    cases heap with
    | nil => exact .done
    | cons s heap =>
      have hpos := List.length_pos_of_mem (src.head_mem_listing s)
      simp only [total, List.map_cons, List.sum_cons] at hn
      omega
  | succ n ih =>
    rw [mergeLoop]
    cases hmin : (heap.map src.head).min? with
    | none =>
      rw [List.min?_eq_none_iff, List.map_eq_nil_iff] at hmin
      subst hmin
      exact .done
    | some m =>
      apply Merges.round hmin
      apply ih
      have := (total_advance_le src m heap).2 (List.min?_mem hmin)
      omega

theorem Merges.mem_iff {out : List α} (h : Merges src heap out) :
    x ∈ out ↔ ∃ s ∈ heap, x ∈ src.listing s := by
  induction h with
  | done => simp
  | @round heap m rest hmin _ ih =>
    rw [List.mem_cons, ih]
    constructor
    · rintro (rfl | ⟨s', hs', hx⟩)
      · obtain ⟨s, hs, hhead⟩ := List.mem_map.mp (List.min?_mem hmin)
        exact ⟨s, hs, hhead ▸ src.head_mem_listing s⟩
      · obtain ⟨s, hs, hbecomes⟩ := mem_advance.mp hs'
        exact ⟨s, hs, hbecomes.mem_listing hx⟩
    · rintro ⟨s, hs, hx⟩
      by_cases hxm : x = m
      · exact .inl hxm
      · obtain ⟨s', hbecomes, hx'⟩ := exists_becomes hx hxm
        exact .inr ⟨s', mem_advance.mpr ⟨s, hs, hbecomes⟩, hx'⟩

/-- An element in front of others: it counts if the first of them is smaller. -/
def extend (y : α) : List α → List α
  | [] => []
  | z :: p => if z < y then y :: z :: p else z :: p

/-- The elements before `x` that are greater than all between them and `x`, and `x` itself. -/
def leads (x : α) : List α → List α
  | [] => []
  | y :: l => if y = x then [x] else extend y (leads x l)

theorem mem_of_mem_leads {y : α} {l : List α} (h : y ∈ leads x l) : y ∈ l := by
  induction l with
  | nil => exact absurd h List.not_mem_nil
  | cons z l ih =>
    rw [leads] at h
    split at h
    · next hz => rw [List.mem_singleton.mp h, hz]; exact List.mem_cons_self
    · cases hl : leads x l with
      | nil => rw [hl] at h; exact absurd h List.not_mem_nil
      | cons w p =>
        rw [hl] at h ih
        rw [extend] at h
        split at h
        · rcases List.mem_cons.mp h with rfl | h
          · exact List.mem_cons_self
          · exact List.mem_cons_of_mem _ (ih h)
        · exact List.mem_cons_of_mem _ (ih h)

theorem exists_leads_cons {y : α} {l : List α} (h : x ∈ y :: l) :
    ∃ z p, leads x (y :: l) = z :: p ∧ y ≤ z := by
  induction l generalizing y with
  | nil =>
    rw [List.mem_singleton.mp h]
    exact ⟨y, [], if_pos rfl, le_rfl⟩
  | cons w l ih =>
    rw [leads]
    by_cases hy : y = x
    · exact ⟨x, [], if_pos hy, hy.le⟩
    · rw [if_neg hy]
      obtain ⟨z, p, hz, _⟩ := ih ((List.mem_cons.mp h).resolve_left (Ne.symm hy))
      rw [hz, extend]
      split
      · exact ⟨y, z :: p, rfl, le_rfl⟩
      · next hle => exact ⟨z, p, rfl, not_lt.mp hle⟩

theorem extend_inj {p q : List α} (hp : m ∉ p) (hq : m ∉ q) (h : extend m p = extend m q) :
    p = q := by
  cases p with
  | nil =>
    cases q with
    | nil => rfl
    | cons w q => rw [extend, extend] at h; split at h <;> contradiction
  | cons z p =>
    cases q with
    | nil => rw [extend, extend] at h; split at h <;> contradiction
    | cons w q =>
      simp only [List.mem_cons, not_or] at hp hq
      rw [extend, extend] at h
      split at h <;> split at h
      · exact (List.cons.inj h).2
      · exact absurd (List.cons.inj h).1 hq.1
      · exact absurd (List.cons.inj h).1.symm hp.1
      · exact h

/-- The streams come to the elements they share in the same way. -/
def Alike (src : Source σ α) (heap : List σ) : Prop :=
  ∀ s ∈ heap, ∀ t ∈ heap, ∀ x ∈ src.listing s, x ∈ src.listing t →
    leads x (src.listing s) = leads x (src.listing t)

theorem leads_head (src : Source σ α) (s : σ) :
    leads (src.head s) (src.listing s) = [src.head s] := by
  rw [src.listing_eq s, leads, if_pos rfl]

theorem exists_leads_listing (hx : x ∈ src.listing s) :
    ∃ z p, leads x (src.listing s) = z :: p ∧ src.head s ≤ z := by
  rw [src.listing_eq s] at hx ⊢
  exact exists_leads_cons hx

theorem leads_of_becomes (hle : m ≤ src.head s) (h : Becomes src m s s')
    (hx : x ∈ src.listing s') (hxm : x ≠ m) :
    leads x (src.listing s) = extend m (leads x (src.listing s')) := by
  rcases h with ⟨_, rfl⟩ | ⟨hhead, hnext⟩
  · obtain ⟨z, p, hz, hhz⟩ := exists_leads_listing hx
    rw [hz, extend, if_neg (not_lt.mpr (hle.trans hhz))]
  · rw [src.listing_of_next hnext, hhead, leads, if_neg hxm.symm]

theorem alike_iff_advance (hmin : (heap.map src.head).min? = some m)
    (hnodup : ∀ s ∈ heap, (src.listing s).Nodup) :
    Alike src heap ↔
      (∀ s' ∈ advance src m heap, m ∉ src.listing s') ∧ Alike src (advance src m heap) := by
  obtain ⟨hmem, hle⟩ := List.min?_eq_some_iff.mp hmin
  have hle' : ∀ s ∈ heap, m ≤ src.head s := fun s hs => hle _ (List.mem_map_of_mem hs)
  constructor
  · intro halike
    have hgone : ∀ s' ∈ advance src m heap, m ∉ src.listing s' := by
      intro s' hs' hm
      obtain ⟨s, hs, ⟨hhead, rfl⟩ | ⟨hhead, hnext⟩⟩ := mem_advance.mp hs'
      · -- A stream at the smallest element comes to it at once, this one over a greater element.
        obtain ⟨t, ht, rfl⟩ := List.mem_map.mp hmem
        obtain ⟨z, p, hz, hhz⟩ := exists_leads_listing hm
        have heq := halike s hs t ht _ hm (src.head_mem_listing t)
        rw [hz, leads_head, List.cons.injEq] at heq
        exact hhead (le_antisymm (heq.1 ▸ hhz) (hle' s hs))
      · have hlist := hnodup s hs
        rw [src.listing_of_next hnext, hhead, List.nodup_cons] at hlist
        exact hlist.1 hm
    refine ⟨hgone, fun s' hs' t' ht' x hxs hxt => ?_⟩
    have hxm : x ≠ m := fun h => hgone s' hs' (h ▸ hxs)
    obtain ⟨s, hs, hbs⟩ := mem_advance.mp hs'
    obtain ⟨t, ht, hbt⟩ := mem_advance.mp ht'
    apply extend_inj (fun h => hgone s' hs' (mem_of_mem_leads h))
      (fun h => hgone t' ht' (mem_of_mem_leads h))
    rw [← leads_of_becomes (hle' s hs) hbs hxs hxm, ← leads_of_becomes (hle' t ht) hbt hxt hxm]
    exact halike s hs t ht x (hbs.mem_listing hxs) (hbt.mem_listing hxt)
  · rintro ⟨hgone, halike⟩ s hs t ht x hxs hxt
    by_cases hxm : x = m
    · subst hxm
      have hhead : ∀ s ∈ heap, x ∈ src.listing s → src.head s = x := by
        intro s hs hx
        by_contra hne
        exact hgone s (mem_advance.mpr ⟨s, hs, .inl ⟨hne, rfl⟩⟩) hx
      rw [← hhead s hs hxs, leads_head, hhead s hs hxs, ← hhead t ht hxt, leads_head]
    · obtain ⟨s', hbs, hxs'⟩ := exists_becomes hxs hxm
      obtain ⟨t', hbt, hxt'⟩ := exists_becomes hxt hxm
      rw [leads_of_becomes (hle' s hs) hbs hxs' hxm, leads_of_becomes (hle' t ht) hbt hxt' hxm,
        halike s' (mem_advance.mpr ⟨s, hs, hbs⟩) t' (mem_advance.mpr ⟨t, ht, hbt⟩) x hxs' hxt']

/-- Streams without repetitions are merged without repetitions if and only if they come to what
they share in the same way. -/
theorem Merges.nodup_iff {out : List α} (h : Merges src heap out)
    (hnodup : ∀ s ∈ heap, (src.listing s).Nodup) : out.Nodup ↔ Alike src heap := by
  induction h with
  | done => simp [Alike]
  | @round heap m rest hmin hrest ih =>
    have hnodup' : ∀ s' ∈ advance src m heap, (src.listing s').Nodup := by
      intro s' hs'
      obtain ⟨s, hs, hbecomes⟩ := mem_advance.mp hs'
      exact hbecomes.nodup_listing (hnodup s hs)
    rw [List.nodup_cons, hrest.mem_iff, ih hnodup', alike_iff_advance hmin hnodup]
    simp only [not_exists, not_and]

theorem leads_of_pairwise {l : List α} (h : l.Pairwise (· < ·)) (hx : x ∈ l) :
    leads x l = [x] := by
  induction l with
  | nil => exact absurd hx List.not_mem_nil
  | cons y l ih =>
    obtain ⟨hy, hl⟩ := List.pairwise_cons.mp h
    rw [leads]
    split
    · rfl
    · next hne =>
        have hxl := (List.mem_cons.mp hx).resolve_left (Ne.symm hne)
        rw [ih hl hxl, extend, if_neg (not_lt.mpr (hy x hxl).le)]

end TimescalePrometheus.Lib.Merging
