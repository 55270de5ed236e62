import Mathlib.Data.List.TakeDrop
import Mathlib.Data.List.TakeWhile
import Mathlib.Data.Option.Basic
import TimescalePrometheus.Migrations.Migrator

/-!
The two readings of the number in the name of a migration script: `orderFilesNaturally` scans the
name from its start, `getMigrationFileVersion` takes the leftmost place at which the pattern
matches.
-/

namespace TimescalePrometheus.Migrations

open Lib.Semver

/-- A name as `%d-%s` reads it: blanks, at most one sign, digits, a dash and the rest. -/
structure Numbered where
  blanks : List Char
  sign : List Char
  digits : List Char
  rest : List Char
  blank : ∀ c ∈ blanks, isSpace c = true
  atMostOne : sign = [] ∨ sign = ['+'] ∨ sign = ['-']
  nonempty : digits ≠ []
  digit : ∀ c ∈ digits, c.isDigit = true

namespace Numbered

/-- The file name. -/
def text (n : Numbered) : List Char :=
  n.blanks ++ (n.sign ++ (n.digits ++ '-' :: n.rest))

def value (n : Numbered) : Nat :=
  Nat.ofDigitChars 10 n.digits 0

/-- What `Sscanf` reads. -/
def number (n : Numbered) : Int :=
  signed n.sign n.value

/-- Behind the dash either the rest of the pattern matches, and then the number has no minus sign
unless it is zero; or it does not, and the pattern finds the same number further on. -/
def Agrees (n : Numbered) : Prop :=
  if matchesWordSql n.rest then n.sign = ['-'] → n.value = 0
  else ∃ later, migrationFileNumber n.rest = some later ∧
    (Nat.ofDigitChars 10 later 0 : Int) = n.number

end Numbered

theorem eq_append_of_span {p : Char → Bool} {name first rest : List Char}
    (h : name.span p = (first, rest)) : name = first ++ rest ∧ ∀ c ∈ first, p c = true := by
  rw [List.span_eq_takeWhile_dropWhile, Prod.mk.injEq] at h
  obtain ⟨rfl, rfl⟩ := h
  exact ⟨List.takeWhile_append_dropWhile.symm, fun c hc => List.mem_takeWhile_imp hc⟩

theorem isDigit_range {c : Char} (h : c.isDigit = true) : 48 ≤ c.toNat ∧ c.toNat ≤ 57 := by
  have hbounds := of_decide_eq_true ((Bool.and_eq_true _ _).mp h).1
  have hbounds' := of_decide_eq_true ((Bool.and_eq_true _ _).mp h).2
  exact ⟨UInt32.le_iff_toNat_le.mp hbounds, UInt32.le_iff_toNat_le.mp hbounds'⟩

theorem isSpace_of_isDigit {c : Char} (h : c.isDigit = true) : isSpace c = false := by
  have hrange := isDigit_range h
  simp only [isSpace, List.any_cons, List.any_nil, Bool.or_eq_false_iff, Bool.and_eq_false_iff,
    decide_eq_false_iff_not, and_true]
  omega

theorem eq_append_of_skipSpace {s t : List Char} (h : skipSpace s = some t) :
    ∃ blanks, s = blanks ++ t ∧ ∀ c ∈ blanks, isSpace c = true := by
  induction s with
  | nil =>
    cases h
    exact ⟨[], rfl, fun _ hc => absurd hc List.not_mem_nil⟩
  | cons c cs ih =>
    unfold skipSpace at h
    split_ifs at h with _ hspace
    · obtain ⟨blanks, hcs, hblanks⟩ := ih h
      refine ⟨c :: blanks, by rw [hcs]; rfl, ?_⟩
      exact List.forall_mem_cons.mpr ⟨hspace, hblanks⟩
    · cases h
      exact ⟨[], rfl, fun _ hc => absurd hc List.not_mem_nil⟩

theorem eq_append_of_scanSign {s t sign : List Char} (h : scanSign s = (sign, t)) :
    s = sign ++ t ∧ (sign = [] ∨ sign = ['+'] ∨ sign = ['-']) := by
  unfold scanSign at h
  split at h <;> cases h <;> simp

theorem exists_numbered_of_scanPrefix {name : List Char} {number : Int}
    (h : scanPrefix name = some number) : ∃ n : Numbered, name = n.text ∧ number = n.number := by
  unfold scanPrefix at h
  obtain ⟨s, hskip, hread⟩ := Option.bind_eq_some_iff.mp h
  obtain ⟨blanks, rfl, hblanks⟩ := eq_append_of_skipSpace hskip
  cases hsign : scanSign s with
  | mk sign t =>
  obtain ⟨rfl, hone⟩ := eq_append_of_scanSign hsign
  cases hspan : t.span Char.isDigit with
  | mk digits rest =>
  obtain ⟨rfl, hdigits⟩ := eq_append_of_span hspan
  simp only [hsign, hspan, Option.bind_eq_bind, Option.bind_eq_some_iff, Option.guard_eq_some']
    at hread
  obtain ⟨_, ⟨hnonempty, -⟩, hvalue⟩ := hread
  split at hvalue
  · simp only [Option.bind_eq_some_iff, Option.pure_def, Option.some.injEq] at hvalue
    obtain ⟨-, -, -, -, hnumber⟩ := hvalue
    exact ⟨⟨blanks, sign, digits, _, hblanks, hone, hnonempty, hdigits⟩, rfl, hnumber.symm⟩
  · cases hvalue

theorem migrationFileNumber_append {l : List Char} (hl : ∀ c ∈ l, c.isDigit = false)
    (s : List Char) : migrationFileNumber (l ++ s) = migrationFileNumber s := by
  induction l with
  | nil => rfl
  | cons c l ih =>
    obtain ⟨hc, hl⟩ := List.forall_mem_cons.mp hl
    rw [List.cons_append, migrationFileNumber, List.span_eq_takeWhile_dropWhile,
      List.takeWhile_cons_of_neg (by simp [hc])]
    exact ih hl

theorem span_digits {digits : List Char} (hdigits : ∀ c ∈ digits, c.isDigit = true)
    (rest : List Char) :
    (digits ++ '-' :: rest).span Char.isDigit = (digits, '-' :: rest) := by
  rw [List.span_eq_takeWhile_dropWhile, List.takeWhile_append_of_pos hdigits,
    List.dropWhile_append_of_pos hdigits, List.takeWhile_cons_of_neg (by decide),
    List.dropWhile_cons_of_neg (by decide), List.append_nil]

theorem migrationFileNumber_digits {digits : List Char} (hdigits : ∀ c ∈ digits, c.isDigit = true)
    {rest : List Char} (h : matchesWordSql rest = false) :
    migrationFileNumber (digits ++ '-' :: rest) = migrationFileNumber rest := by
  induction digits with
  | nil => exact migrationFileNumber_append (List.forall_mem_singleton.mpr rfl) rest
  | cons c digits ih =>
    have hspan := span_digits hdigits rest
    rw [List.cons_append] at hspan ⊢
    rw [migrationFileNumber, hspan]
    simp only [h, Bool.false_eq_true, if_false]
    exact ih (List.forall_mem_cons.mp hdigits).2

theorem migrationFileNumber_text (n : Numbered) :
    migrationFileNumber n.text =
      if matchesWordSql n.rest then some n.digits else migrationFileNumber n.rest := by
  have hblanks : ∀ c ∈ n.blanks, c.isDigit = false := by
    intro c hc
    rw [Bool.eq_false_iff]
    intro hdigit
    have hspace := n.blank c hc
    rw [isSpace_of_isDigit hdigit] at hspace
    cases hspace
  have hsign : ∀ c ∈ n.sign, c.isDigit = false := by
    rcases n.atMostOne with h | h | h <;> simp [h]
  rw [Numbered.text, migrationFileNumber_append hblanks, migrationFileNumber_append hsign]
  split_ifs with hword
  · obtain ⟨digit, digits, hcons⟩ := List.exists_cons_of_ne_nil n.nonempty
    have hspan := span_digits n.digit n.rest
    rw [hcons, List.cons_append] at hspan ⊢
    rw [migrationFileNumber, hspan]
    simp only [hword, if_true]
  · exact migrationFileNumber_digits n.digit (Bool.not_eq_true _ ▸ hword)

theorem exists_number_of_version [Package] {dirName fileName : String} {version : Version}
    (h : getMigrationFileVersion dirName fileName = .ok version) :
    ∃ digits, migrationFileNumber fileName.toList = some digits ∧
      Nat.ofDigitChars 10 digits 0 < 2 ^ 63 ∧
      version.pre.getLast? = some (.num (UInt64.ofNat (Nat.ofDigitChars 10 digits 0))) := by
  unfold getMigrationFileVersion at h
  cases hnumber : migrationFileNumber fileName.toList with
  | none => simp only [hnumber] at h; cases h
  | some digits =>
  rw [hnumber] at h
  dsimp only at h
  split at h
  · cases h
  rename_i hfits
  refine ⟨digits, rfl, Nat.not_le.mp hfits, ?_⟩
  cases hmake : Package.make dirName with
  | none =>
    rw [hmake] at h
    cases h
  | some base =>
    rw [hmake] at h
    cases h
    exact List.getLast?_concat

theorem value_eq_number_iff (n : Numbered) : (n.value : Int) = n.number ↔
    (n.sign = ['-'] → n.value = 0) := by
  unfold Numbered.number signed
  split_ifs with hminus
  · simp only [hminus, true_implies]
    omega
  · simp [hminus]

/-- A file name that both accept is digits and a dash after blanks and a sign. Both take the same
number from it exactly if no minus sign is lost and the pattern matches there, or matches later
at the same number. -/
theorem fileNumbers_agree_iff [Package] {dirName fileName : String} {version : Version}
    {number : Int} (hversion : getMigrationFileVersion dirName fileName = .ok version)
    (hscan : scanPrefix fileName.toList = some number) :
    ∃ n : Numbered, fileName.toList = n.text ∧ number = n.number ∧
      ((∃ m : UInt64, version.pre.getLast? = some (.num m) ∧ (m.toNat : Int) = number) ↔
        n.Agrees) := by
  obtain ⟨n, hname, rfl⟩ := exists_numbered_of_scanPrefix hscan
  refine ⟨n, hname, rfl, ?_⟩
  obtain ⟨digits, hdigits, hfits, hlast⟩ := exists_number_of_version hversion
  have hleft : (∃ m : UInt64, version.pre.getLast? = some (.num m) ∧ (m.toNat : Int) = n.number) ↔
      (Nat.ofDigitChars 10 digits 0 : Int) = n.number := by
    rw [hlast]
    simp only [Option.some.injEq, Ident.num.injEq, exists_eq_left', UInt64.toNat_ofNat']
    rw [Nat.mod_eq_of_lt (by omega)]
  rw [hname, migrationFileNumber_text] at hdigits
  rw [hleft, Numbered.Agrees]
  split_ifs at hdigits ⊢ with hword
  · cases hdigits
    exact value_eq_number_iff n
  · simp [hdigits]

theorem fileNumbers_agree_iff_signed :
    ∃ n : Numbered, " +3-x.sql".toList = n.text ∧ (3 : Int) = n.number ∧
      ((∃ m : UInt64, [Ident.num 3].getLast? = some (.num m) ∧ (m.toNat : Int) = 3) ↔
        n.Agrees) := by
  let _ : Package := .ofList [{ minor := 1 }]
  have hversion : getMigrationFileVersion "0.1.0" " +3-x.sql" = .ok ⟨0, 1, 0, [.num 3], []⟩ := by
    decide +kernel
  exact fileNumbers_agree_iff hversion (by decide +kernel)

/-- `1-add-2-x.sql` has a dash in its description, which the pattern cannot match. It is ordered
as number 1 and gets the version of number 2. -/
theorem fileNumbers_differ_one_two :
    scanPrefix "1-add-2-x.sql".toList = some 1 ∧
      (@getMigrationFileVersion (.ofList [{ minor := 1 }]) "0.1.0" "1-add-2-x.sql").toOption.map
        (fun v => v.pre) = some [.num 2] := by
  decide +kernel

end TimescalePrometheus.Migrations
