import Mathlib.Data.List.Basic
import Mathlib.Logic.Function.Basic

/-!
The cache of package `clockcache`: a map from keys to the slots of a slice, and a hand that
goes round the slice for a slot whose entry has not been used. Keys are compared with a
reflexive equality, as all hashable Go values but the floating-point NaNs are.
-/

namespace TimescalePrometheus.Clockcache

/-- A slot of the storage. -/
structure Element (K V : Type*) where
  key : K
  value : V
  used : Bool
  deriving DecidableEq

/-- The pointers that `elements` holds go into `storage`; a pointer is the index of its
slot. `capacity` is `cap(storage)`. -/
structure Cache (K V : Type*) where
  elements : K → Option Nat
  storage : List (Element K V)
  capacity : Nat
  next : Nat

variable {K V : Type*}

/-- `WithMax`. -/
def withMax (max : Nat) : Cache K V where
  elements := fun _ => none
  storage := []
  capacity := max
  next := 0

namespace Cache

def keys (c : Cache K V) : List K := c.storage.map (·.key)

def marks (c : Cache K V) : List Bool := c.storage.map (·.used)

/-- Keys and values, slot by slot. -/
def contents (c : Cache K V) : List (K × V) := c.storage.map fun elem => (elem.key, elem.value)

/-- A store to the `used` field of a slot. -/
def setUsed (c : Cache K V) (slot : Nat) (used : Bool) : Cache K V :=
  { c with storage := c.storage.modify slot fun elem => { elem with used } }

/-- `self.elements[key]`, with the element behind the pointer. -/
def lookup (c : Cache K V) (key : K) : Option (Nat × Element K V) :=
  (c.elements key).bind fun slot => c.storage[slot]?.map fun elem => (slot, elem)

/-- A hit marks the element. -/
def get (c : Cache K V) (key : K) : Option V × Cache K V :=
  match c.lookup key with
  | none => (none, c)
  | some (slot, elem) => (some elem.value, if elem.used then c else c.setUsed slot true)

/-- Clears the mark, if the key is there. -/
def unmark (c : Cache K V) (key : K) : Bool × Cache K V :=
  match c.lookup key with
  | none => (false, c)
  | some (slot, elem) => (true, if elem.used then c.setUsed slot false else c)

end Cache

/-- What `GetValues` leaves and returns. -/
structure Values (K V : Type*) where
  cache : Cache K V
  numFound : Nat
  keys : List K
  valuesOut : List (Option V)

/-- `l[i], l[j] = l[j], l[i]`. -/
def swap (l : List K) (i j : Nat) : List K :=
  match l[i]?, l[j]? with
  | some x, some y => (l.set i y).set j x
  | _, _ => l

/-- The loop of `GetValues` with `n - idx` keys before it. -/
def getValuesLoop (c : Cache K V) (keys : List K) (valuesOut : List (Option V)) (idx : Nat) :
    Nat → Values K V
  | 0 => ⟨c, idx, keys, valuesOut⟩
  | remaining + 1 =>
    match keys[idx]? with
    | none => ⟨c, idx, keys, valuesOut⟩
    | some key =>
      match c.get key with
      | (none, c) => getValuesLoop c (swap keys (idx + remaining) idx) valuesOut idx remaining
      | (some value, c) =>
        getValuesLoop c keys (valuesOut.set idx (some value)) (idx + 1) remaining

/-- `none` is the panic. -/
def Cache.getValues (c : Cache K V) (keys : List K) (valuesOut : List (Option V)) :
    Option (Values K V) :=
  if keys.length = valuesOut.length then some (getValuesLoop c keys valuesOut 0 keys.length)
  else none

/-- A slice after the walk, and where it stopped. -/
structure Walk (K V : Type*) where
  slice : List (Element K V)
  found : Option Nat

/-- One of the two inner loops of `evict`: every mark it comes to is swapped for a clear
one, up to the first that was clear. The index it returns is one into the slice. -/
def walk : List (Element K V) → Walk K V
  | [] => ⟨[], none⟩
  | elem :: rest =>
    if elem.used then
      let w := walk rest
      ⟨{ elem with used := false } :: w.slice, w.found.map (· + 1)⟩
    else ⟨{ elem with used := false } :: rest, some 0⟩

/-- What an iteration of the outer loop of `evict` leaves: the two parts of the storage,
the slot found with the value that `next` takes, and the slots in the order of their
swaps. -/
structure Round (K V : Type*) where
  postStart : List (Element K V)
  preStart : List (Element K V)
  found : Option (Nat × Nat)
  examined : List Nat

/-- One turn of the clock from `startLoc` on. -/
def round (startLoc : Nat) (postStart preStart : List (Element K V)) : Round K V :=
  let post := walk postStart
  match post.found with
  | some next =>
    { postStart := post.slice, preStart
      found := some (startLoc + next, next + 1)
      examined := List.range' startLoc (next + 1) }
  | none =>
    let pre := walk preStart
    match pre.found with
    | some next =>
      { postStart := post.slice, preStart := pre.slice
        found := some (next, next + 1)
        examined := List.range' startLoc postStart.length ++ List.range' 0 (next + 1) }
    | none =>
      { postStart := post.slice, preStart := pre.slice
        found := none
        examined :=
          List.range' startLoc postStart.length ++ List.range' 0 preStart.length }

structure Eviction (K V : Type*) where
  cache : Cache K V
  /-- The slot that `insertPtr` points to. -/
  victim : Option Nat
  examined : List Nat

namespace Cache

def evict (c : Cache K V) : Eviction K V :=
  let first := round c.next (c.storage.drop c.next) (c.storage.take c.next)
  match first.found with
  | some (slot, next) =>
    { cache := { c with storage := first.preStart ++ first.postStart, next }
      victim := some slot
      examined := first.examined }
  | none =>
    let second := round c.next first.postStart first.preStart
    match second.found with
    | some (slot, next) =>
      { cache := { c with storage := second.preStart ++ second.postStart, next }
        victim := some slot
        examined := first.examined ++ second.examined }
    | none =>
      { cache := { c with storage := second.preStart ++ second.postStart }
        victim := none
        examined := first.examined ++ second.examined }

end Cache

/-- What `Insert` leaves and returns. -/
structure Inserted (K V : Type*) where
  cache : Cache K V
  canonicalKey : K
  canonicalValue : V
  inserted : Bool

section

variable [DecidableEq K]

namespace Cache

/-- The slot of an evicted entry is given to another one. -/
def overwrite (c : Cache K V) (slot : Nat) (key : K) (value : V) : Cache K V :=
  match c.storage[slot]? with
  | none => c
  | some old =>
    { c with
      elements := Function.update (Function.update c.elements old.key none) key (some slot)
      storage := c.storage.set slot ⟨key, value, false⟩ }

/-- A new slot, while there is room. -/
def append (c : Cache K V) (key : K) (value : V) : Cache K V :=
  { c with
    elements := Function.update c.elements key (some c.storage.length)
    storage := c.storage ++ [⟨key, value, false⟩] }

def insert (c : Cache K V) (key : K) (value : V) : Inserted K V :=
  match c.lookup key with
  | some (slot, elem) =>
    -- the source stores a mark where there is one already
    ⟨if elem.used then c.setUsed slot true else c, elem.key, elem.value, true⟩
  | none =>
    if c.capacity ≤ c.storage.length then
      match c.evict.victim with
      | none => ⟨c.evict.cache, key, value, false⟩
      | some slot => ⟨c.evict.cache.overwrite slot key value, key, value, true⟩
    else ⟨c.append key value, key, value, true⟩

end Cache

/-- What `InsertBatch` leaves and returns. -/
structure Batch (K V : Type*) where
  cache : Cache K V
  pairs : List (K × V)
  numInserted : Nat

/-- The loop of `InsertBatch`. -/
def insertLoop (c : Cache K V) : List (K × V) → Batch K V
  | [] => ⟨c, [], 0⟩
  | (key, value) :: rest =>
    let r := c.insert key value
    if r.inserted then
      let b := insertLoop r.cache rest
      ⟨b.cache, (r.canonicalKey, r.canonicalValue) :: b.pairs, b.numInserted + 1⟩
    else ⟨r.cache, (r.canonicalKey, r.canonicalValue) :: rest, 0⟩

namespace Cache

/-- `none` is the panic. -/
def insertBatch (c : Cache K V) (keys : List K) (values : List V) : Option (Batch K V) :=
  if keys.length = values.length then some (insertLoop c (keys.zip values)) else none

/-- The map that `ExpandTo` fills from the new storage. -/
def indexOf (storage : List (Element K V)) : K → Option Nat :=
  storage.zipIdx.foldl (fun elements p => Function.update elements p.1.key (some p.2))
    fun _ => none

/-- The end of `ExpandTo`, with the copy of the storage that it has made. -/
def install (c : Cache K V) (newStorage : List (Element K V)) (newMax : Nat) : Cache K V :=
  { c with elements := indexOf newStorage, storage := newStorage, capacity := newMax }

/-- A cache never shrinks. -/
def expandTo (c : Cache K V) (newMax : Int) : Cache K V :=
  if newMax ≤ c.capacity then c else c.install c.storage newMax.toNat

end Cache

end

end TimescalePrometheus.Clockcache
