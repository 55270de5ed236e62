import Mathlib.Data.List.Basic
import Mathlib.Order.Compare

/-!
Semantic versions, and what is relied on of a package that reads, writes and compares them.
-/

namespace TimescalePrometheus.Lib.Semver

/-- A pre-release identifier: a number or a word. -/
inductive Ident where
  | num (n : UInt64)
  | alnum (word : String)
deriving DecidableEq

/-- A version of `blang/semver`. -/
structure Version where
  major : UInt64 := 0
  minor : UInt64 := 0
  patch : UInt64 := 0
  pre : List Ident := []
  build : List String := []
deriving DecidableEq

def Ident.text : Ident → String
  | .num n => toString n.toNat
  | .alnum word => word

/-- A package of semantic versions. A version that was read is read back from its text, and
comparing is a total preorder in which different texts differ in more than the build metadata. -/
class Package where
  make : String → Option Version
  string : Version → String
  compare : Version → Version → Ordering
  make_string {s : String} {v : Version} : make s = some v → make (string v) = some v
  trans : Std.TransCmp compare
  string_eq {v w : Version} : compare v w = .eq → v.build = w.build → string v = string w

section Order

variable [Package]

/-- The text of a version. -/
abbrev Version.string (v : Version) : String := Package.string v

instance : Ord Version := ⟨Package.compare⟩

instance : Std.TransCmp Package.compare := Package.trans

instance : Std.TransOrd Version := Package.trans

instance : Preorder Version where
  le v w := (compare v w).isLE = true
  lt v w := compare v w = .lt
  le_refl v := by rw [Std.ReflOrd.compare_self]; rfl
  le_trans v w x hvw hwx := Std.TransOrd.isLE_trans hvw hwx
  lt_iff_le_not_ge v w := by
    rw [Std.OrientedOrd.eq_swap (a := w)]
    cases compare v w <;> decide

instance (v w : Version) : Decidable (v < w) :=
  inferInstanceAs (Decidable (compare v w = .lt))

instance (v w : Version) : Decidable (v ≤ w) :=
  inferInstanceAs (Decidable ((compare v w).isLE = true))

theorem lt_or_ge (v w : Version) : v < w ∨ w ≤ v := by
  change compare v w = .lt ∨ (compare w v).isLE = true
  rw [Std.OrientedOrd.eq_swap (a := w)]
  cases compare v w <;> decide

theorem lt_of_le_of_string_ne {v w : Version} (h : v ≤ w) (hne : v.string ≠ w.string)
    (hbuild : v.build = w.build) : v < w := by
  refine (lt_or_ge v w).resolve_right fun hge => hne ?_
  exact Package.string_eq (Std.OrientedCmp.isLE_antisymm h hge) hbuild

theorem eq_of_compare_eq {v w : Version} {s t : String} (hv : Package.make s = some v)
    (hw : Package.make t = some w) (h : compare v w = .eq) (hbuild : v.build = w.build) :
    v = w := by
  have hread := Package.make_string hv
  rw [Package.string_eq h hbuild, Package.make_string hw] at hread
  exact (Option.some.inj hread).symm

end Order

/-- Identifiers in their order: numbers before words. -/
def Ident.key : Ident → List Nat
  | .num n => [0, n.toNat]
  | .alnum word => 1 :: word.toList.map Char.toNat

theorem Ident.key_injective : Function.Injective Ident.key := by
  intro p q h
  cases p with
  | num n =>
    cases q with
    | num m =>
      simp only [key, List.cons.injEq, and_true, true_and] at h
      exact congrArg num (UInt64.toNat_inj.mp h)
    | alnum x => simp [key] at h
  | alnum w =>
    cases q with
    | num m => simp [key] at h
    | alnum x =>
      simp only [key, List.cons.injEq, true_and] at h
      have hchars : Function.Injective Char.toNat := fun _ _ => Char.toNat_inj.mp
      exact congrArg alnum (String.toList_inj.mp (List.map_injective_iff.mpr hchars h))

/-- The order of precedence: a version without a pre-release part comes after all that have one. -/
def precedence : Version → Version → Ordering :=
  compareLex (compareOn Version.major) <| compareLex (compareOn Version.minor) <|
    compareLex (compareOn Version.patch) <| compareLex (compareOn fun v => v.pre.isEmpty) <|
      compareOn fun v => v.pre.map Ident.key

theorem eq_of_precedence {v w : Version} (h : precedence v w = .eq) (hbuild : v.build = w.build) :
    v = w := by
  simp only [precedence, compareLex_eq_eq, compareOn, Std.LawfulEqOrd.compare_eq_iff_eq] at h
  obtain ⟨hmajor, hminor, hpatch, -, hpre⟩ := h
  have hpre' := List.map_injective_iff.mpr Ident.key_injective hpre
  cases v
  cases w
  simp_all

/-- The identifiers of one part, with dots between them, after the mark that opens it. -/
def partText (mark : String) : List String → String
  | [] => ""
  | ids => mark ++ ".".intercalate ids

def Version.text (v : Version) : String :=
  toString v.major.toNat ++ "." ++ toString v.minor.toNat ++ "." ++ toString v.patch.toNat ++
    partText "-" (v.pre.map Ident.text) ++ partText "+" v.build

instance : Std.TransCmp precedence := by
  unfold precedence
  infer_instance

theorem find?_text {known : List Version} {s : String} {v : Version}
    (h : known.find? (fun v => decide (v.text = s)) = some v) :
    known.find? (fun w => decide (w.text = v.text)) = some v := by
  have hs := List.find?_some h
  rw [of_decide_eq_true hs]
  exact h

/-- A package that reads a few versions only. -/
@[reducible] def Package.ofList (known : List Version) : Package where
  make s := known.find? fun v => decide (v.text = s)
  string := Version.text
  compare := precedence
  make_string := find?_text
  trans := inferInstance
  string_eq h hbuild := congrArg Version.text (eq_of_precedence h hbuild)

end TimescalePrometheus.Lib.Semver
