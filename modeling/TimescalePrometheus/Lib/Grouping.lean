import Mathlib.Data.List.Nodup

/-!
Maps from keys to lists of elements that are filled by appending one element at a time.
-/

namespace TimescalePrometheus.Lib.Grouping

variable {κ α β : Type}

/-- Each key has one entry, and an entry is there only for its elements. -/
structure Groups (κ α : Type) where
  entries : List (κ × List α)
  nodup : (entries.map Prod.fst).Nodup
  nonempty : ∀ entry ∈ entries, entry.2 ≠ []

def Groups.empty (κ α : Type) : Groups κ α where
  entries := []
  nodup := List.nodup_nil
  nonempty := by simp

/-- The elements of all keys. -/
def Groups.elements (g : Groups κ α) : List α := g.entries.flatMap Prod.snd

variable [DecidableEq κ]

/-- `m[key] = append(m[key], a)`. -/
def appendEntry (key : κ) (a : α) : List (κ × List α) → List (κ × List α)
  | [] => [(key, [a])]
  | entry :: entries =>
    if entry.1 = key then (key, entry.2 ++ [a]) :: entries
    else entry :: appendEntry key a entries

/-- `m[key]`; an absent key has no elements. -/
def elementsOf (entries : List (κ × List α)) (key : κ) : List α :=
  match entries with
  | [] => []
  | entry :: entries => if entry.1 = key then entry.2 else elementsOf entries key

theorem elementsOf_appendEntry (key : κ) (a : α) (entries : List (κ × List α)) (k : κ) :
    elementsOf (appendEntry key a entries) k =
      if key = k then elementsOf entries k ++ [a] else elementsOf entries k := by
  induction entries with
  | nil => simp [appendEntry, elementsOf]
  | cons entry entries ih =>
    rw [appendEntry]
    by_cases hentry : entry.1 = key
    · subst hentry
      by_cases hk : entry.1 = k <;> simp [elementsOf, hk]
    · rw [if_neg hentry, elementsOf, elementsOf, ih]
      by_cases hk : entry.1 = k
      · have hkey : key ≠ k := fun h => hentry (hk.trans h.symm)
        simp [hk, hkey]
      · simp [hk]

theorem keys_appendEntry (key : κ) (a : α) (entries : List (κ × List α)) :
    (appendEntry key a entries).map Prod.fst =
      if key ∈ entries.map Prod.fst then entries.map Prod.fst
      else entries.map Prod.fst ++ [key] := by
  induction entries with
  | nil => rfl
  | cons entry entries ih =>
    rw [appendEntry]
    by_cases hentry : entry.1 = key
    · simp [hentry]
    · rw [if_neg hentry, List.map_cons, ih]
      have hkey : key ≠ entry.1 := fun h => hentry h.symm
      by_cases hmem : key ∈ entries.map Prod.fst <;> simp [hkey, hmem]

theorem flatMap_appendEntry (key : κ) (a : α) (entries : List (κ × List α)) :
    ((appendEntry key a entries).flatMap Prod.snd).Perm (entries.flatMap Prod.snd ++ [a]) := by
  induction entries with
  | nil => exact List.Perm.refl _
  | cons entry entries ih =>
    rw [appendEntry]
    split
    · simp only [List.flatMap_cons, List.append_assoc]
      exact List.Perm.append_left _ List.perm_append_comm
    · simp only [List.flatMap_cons, List.append_assoc]
      exact ih.append_left _

namespace Groups

def get (g : Groups κ α) (key : κ) : List α := elementsOf g.entries key

theorem nodup_appendEntry (g : Groups κ α) (key : κ) (a : α) :
    ((appendEntry key a g.entries).map Prod.fst).Nodup := by
  rw [keys_appendEntry]
  split
  · exact g.nodup
  · rename_i hmem
    rw [List.nodup_append]
    refine ⟨g.nodup, List.nodup_singleton key, ?_⟩
    rintro k hk k' hk' rfl
    exact hmem (List.mem_singleton.mp hk' ▸ hk)

theorem nonempty_appendEntry {entries : List (κ × List α)}
    (h : ∀ entry ∈ entries, entry.2 ≠ []) (key : κ) (a : α) :
    ∀ entry ∈ appendEntry key a entries, entry.2 ≠ [] := by
  induction entries with
  | nil => simp [appendEntry]
  | cons entry entries ih =>
    rw [List.forall_mem_cons] at h
    rw [appendEntry]
    split
    · rw [List.forall_mem_cons]
      exact ⟨by simp, h.2⟩
    · rw [List.forall_mem_cons]
      exact ⟨h.1, ih h.2⟩

/-- One more element for a key. -/
def append (g : Groups κ α) (key : κ) (a : α) : Groups κ α where
  entries := appendEntry key a g.entries
  nodup := g.nodup_appendEntry key a
  nonempty := nonempty_appendEntry g.nonempty key a

theorem get_append (g : Groups κ α) (key : κ) (a : α) (k : κ) :
    (g.append key a).get k = if key = k then g.get k ++ [a] else g.get k :=
  elementsOf_appendEntry key a g.entries k

theorem elements_append (g : Groups κ α) (key : κ) (a : α) :
    (g.append key a).elements.Perm (g.elements ++ [a]) :=
  flatMap_appendEntry key a g.entries

theorem get_of_mem {g : Groups κ α} {entry : κ × List α} (h : entry ∈ g.entries) :
    g.get entry.1 = entry.2 := by
  have hfind : ∀ entries : List (κ × List α), (entries.map Prod.fst).Nodup → entry ∈ entries →
      elementsOf entries entry.1 = entry.2 := by
    intro entries hnodup hmem
    induction entries with
    | nil => cases hmem
    | cons head entries ih =>
      rw [List.map_cons, List.nodup_cons] at hnodup
      rcases List.mem_cons.mp hmem with rfl | hmem
      · simp [elementsOf]
      · have hne : head.1 ≠ entry.1 := fun heq => hnodup.1 (heq ▸ List.mem_map_of_mem hmem)
        rw [elementsOf, if_neg hne, ih hnodup.2 hmem]
  exact hfind g.entries g.nodup h

theorem exists_entry_of_mem_elementsOf {entries : List (κ × List α)} {key : κ} {a : α}
    (h : a ∈ elementsOf entries key) : ∃ entry ∈ entries, entry.1 = key ∧ a ∈ entry.2 := by
  induction entries with
  | nil => cases h
  | cons head entries ih =>
    rw [elementsOf] at h
    split at h
    · exact ⟨head, List.mem_cons_self, ‹_›, h⟩
    · obtain ⟨entry, hentry, h⟩ := ih h
      exact ⟨entry, List.mem_cons_of_mem _ hentry, h⟩

variable (key : β → κ) (element : β → α)

/-- Each `x` goes to the list of its key. -/
def collect (g : Groups κ α) (xs : List β) : Groups κ α :=
  xs.foldl (fun g x => g.append (key x) (element x)) g

theorem get_collect (g : Groups κ α) (xs : List β) (k : κ) :
    (g.collect key element xs).get k =
      g.get k ++ (xs.filter fun x => key x = k).map element := by
  induction xs generalizing g with
  | nil => simp [collect]
  | cons x xs ih =>
    have hrest := ih (g.append (key x) (element x))
    rw [collect] at hrest ⊢
    rw [List.foldl_cons, hrest, get_append]
    by_cases hkey : key x = k <;> simp [hkey]

theorem elements_collect (g : Groups κ α) (xs : List β) :
    (g.collect key element xs).elements.Perm (g.elements ++ xs.map element) := by
  induction xs generalizing g with
  | nil => simp [collect]
  | cons x xs ih =>
    refine (ih (g.append (key x) (element x))).trans ?_
    rw [List.map_cons, List.append_cons]
    exact (g.elements_append (key x) (element x)).append_right _

end Groups

end TimescalePrometheus.Lib.Grouping
