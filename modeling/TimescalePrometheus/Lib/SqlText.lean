import Mathlib.Data.List.Basic
import TimescalePrometheus.Lib.Sprintf

/-!
Where the parameters of an SQL statement stand in its text. A parameter is a dollar sign and a
number; inside a quoted identifier, a string or a word there are none. The texts have no
comments and no strings in dollar quotes.
-/

namespace TimescalePrometheus.Lib.SqlText

open Lib.Sprintf hiding Mode

/-- Where in a statement a character is. -/
inductive Mode
  | plain
  | word
  | ident
  | string
  | dollar
  | param (n : Nat)
  deriving DecidableEq

namespace Mode

/-- The characters of names. -/
def isWord (c : Char) : Bool := c.isAlphanum || c == '_'

/-- The mode behind a character that starts something new. -/
def enter (c : Char) : Mode :=
  if c = '"' then .ident
  else if c = '\'' then .string
  else if c = '$' then .dollar
  else if isWord c then .word
  else .plain

/-- A doubled quote ends an identifier or a string and starts it again. -/
def next (mode : Mode) (c : Char) : Mode :=
  match mode with
  | .plain => enter c
  | .word => if isWord c || c == '$' then .word else enter c
  | .ident => if c = '"' then .plain else .ident
  | .string => if c = '\'' then .plain else .string
  | .dollar => if c.isDigit then .param (c.toNat - '0'.toNat) else enter c
  | .param n => if c.isDigit then .param (10 * n + (c.toNat - '0'.toNat)) else enter c

/-- The parameter that the character ends. -/
def ended (mode : Mode) (c : Char) : List Nat :=
  match mode with
  | .param n => if c.isDigit then [] else [n]
  | _ => []

end Mode

/-- The parameters of a text. -/
def scan (mode : Mode) : List Char → List Nat × Mode
  | [] => ([], mode)
  | c :: text =>
    let (params, last) := scan (mode.next c) text
    (mode.ended c ++ params, last)

/-- The numbers of the parameters, in the order of the text. -/
def placeholders (text : List Char) : List Nat :=
  match scan .plain text with
  | (params, .param n) => params ++ [n]
  | (params, _) => params

/-- From the first mode the text leads to the second one, past these parameters. -/
def Reads (mode : Mode) (text : List Char) (params : List Nat) (last : Mode) : Prop :=
  scan mode text = (params, last)

instance (mode : Mode) (text : List Char) (params : List Nat) (last : Mode) :
    Decidable (Reads mode text params last) :=
  inferInstanceAs (Decidable (_ = _))

section Reads

variable {mode middle last : Mode} {text text' : List Char} {params params' : List Nat}

theorem reads_cons {c : Char} (hended : mode.ended c = params) (hnext : mode.next c = middle)
    (h : Reads middle text params' last) : Reads mode (c :: text) (params ++ params') last := by
  unfold Reads at h ⊢
  rw [scan, hnext, h, hended]

theorem Reads.append (h : Reads mode text params middle) (h' : Reads middle text' params' last) :
    Reads mode (text ++ text') (params ++ params') last := by
  induction text generalizing mode params with
  | nil =>
    cases h
    exact h'
  | cons c text ih =>
    have hrest : Reads (mode.next c) text (scan (mode.next c) text).1 middle := by
      have hlast := congrArg Prod.snd h
      exact Prod.ext rfl hlast
    have hparams : params = mode.ended c ++ (scan (mode.next c) text).1 :=
      (congrArg Prod.fst h).symm
    rw [hparams, List.append_assoc]
    exact reads_cons rfl rfl (ih hrest)

theorem Reads.skip (h : Reads mode text [] middle) (h' : Reads middle text' params last) :
    Reads mode (text ++ text') params last :=
  h.append h'

theorem Reads.trail (h : Reads mode text params middle) (h' : Reads middle text' [] last) :
    Reads mode (text ++ text') params last := by
  rw [← List.append_nil params]
  exact h.append h'

theorem placeholders_of_reads (h : Reads .plain text params last) (hlast : ∀ n, last ≠ .param n) :
    placeholders text = params := by
  unfold placeholders
  rw [show scan .plain text = _ from h]
  cases last with
  | param n => exact absurd rfl (hlast n)
  | _ => rfl

end Reads

def doubleQuotes (s : List Char) : List Char :=
  s.flatMap fun c => if c = '"' then ['"', '"'] else [c]

/-- A quoted identifier. -/
def quoted (s : List Char) : List Char := '"' :: doubleQuotes s ++ ['"']

theorem reads_doubleQuotes (s : List Char) : Reads .ident (doubleQuotes s) [] .ident := by
  induction s with
  | nil => rfl
  | cons c s ih =>
    rw [doubleQuotes, List.flatMap_cons]
    refine Reads.skip ?_ ih
    split
    · rfl
    · rename_i hc
      simp [Reads, scan, Mode.next, Mode.ended, hc]

theorem reads_quoted (s : List Char) : Reads .plain (quoted s) [] .plain := by
  have hbody : Reads .ident (doubleQuotes s ++ ['"']) [] .plain :=
    (reads_doubleQuotes s).skip rfl
  exact reads_cons rfl rfl hbody

theorem reads_string {s : List Char} (h : '\'' ∉ s) : Reads .string s [] .string := by
  induction s with
  | nil => rfl
  | cons c s ih =>
    simp only [List.mem_cons, not_or] at h
    have hnext : Mode.next .string c = .string := if_neg (Ne.symm h.1)
    exact reads_cons rfl hnext (ih h.2)

theorem reads_param {ds : List Char} (h : ∀ c ∈ ds, c.isDigit = true) (n : Nat) :
    Reads (.param n) ds [] (.param (Nat.ofDigitChars 10 ds n)) := by
  induction ds generalizing n with
  | nil => rfl
  | cons c ds ih =>
    rw [List.forall_mem_cons] at h
    have hnext : Mode.next (.param n) c = .param (10 * n + (c.toNat - '0'.toNat)) := if_pos h.1
    have hended : Mode.ended (.param n) c = [] := if_pos h.1
    exact reads_cons hended hnext (ih h.2 _)

theorem reads_digits (n : Nat) : Reads .dollar (digits n) [] (.param n) := by
  have hdigits : ∀ c ∈ digits n, c.isDigit = true :=
    fun c => Nat.isDigit_of_mem_toDigits (by decide) (by decide)
  have hvalue : Nat.ofDigitChars 10 (digits n) 0 = n := Nat.ofDigitChars_ten_toDigits
  obtain ⟨c, ds, hcons⟩ := List.exists_cons_of_ne_nil (@Nat.toDigits_ne_nil n 10)
  rw [show digits n = c :: ds from hcons] at hdigits hvalue ⊢
  rw [List.forall_mem_cons] at hdigits
  have hnext : Mode.next .dollar c = .param (c.toNat - '0'.toNat) := if_pos hdigits.1
  have hrest := reads_param hdigits.2 (c.toNat - '0'.toNat)
  rw [show Nat.ofDigitChars 10 ds (c.toNat - '0'.toNat) = n by
    simpa [Nat.ofDigitChars] using hvalue] at hrest
  exact reads_cons rfl hnext hrest

/-- Each slot stands behind a dollar sign and no digit follows it; `last` is where such a
template ends. -/
def slotsEnd (mode : Mode) (first : List Char) : List (List Char) → Option Mode
  | [] => if (scan mode first).1 = [] then some (scan mode first).2 else none
  | part :: parts =>
    if Reads mode first [] .dollar then
      match part with
      | [] => none
      | c :: part => if c.isDigit then none else slotsEnd (.enter c) part parts
    else none

theorem reads_filled {mode last : Mode} {first : List Char} {parts : List (List Char)} (n : Nat)
    (h : slotsEnd mode first parts = some last) :
    Reads mode (filled n first parts) (List.range' n parts.length) last := by
  induction parts generalizing mode first n with
  | nil =>
    rw [slotsEnd] at h
    split at h
    · rename_i hnone
      cases h
      exact Prod.ext hnone rfl
    · cases h
  | cons part parts ih =>
    cases part with
    | nil => simp [slotsEnd] at h
    | cons c part =>
      obtain ⟨hfirst, hc, hparts⟩ : Reads mode first [] .dollar ∧ c.isDigit = false ∧
          slotsEnd (.enter c) part parts = some last := by
        simpa [slotsEnd] using h
      have hc : ¬c.isDigit = true := by simp [hc]
      have hended : Mode.ended (.param n) c = [n] := if_neg hc
      have hnext : Mode.next (.param n) c = .enter c := if_neg hc
      have hrest : Reads (.param n) (c :: filled (n + 1) part parts)
          ([n] ++ List.range' (n + 1) parts.length) last :=
        reads_cons hended hnext (ih (n + 1) hparts)
      rw [filled, filled_cons, List.length_cons, List.range'_succ, List.append_assoc]
      exact hfirst.skip ((reads_digits n).skip hrest)

/-- A text with as many slots, each of them for the number of a parameter. -/
def Slotted (text : List Char) (count : Nat) (last : Mode) : Prop :=
  NoPercent (slots text).1 (slots text).2 ∧ (slots text).2.length = count ∧
    slotsEnd .plain (slots text).1 (slots text).2 = some last

instance (text : List Char) (count : Nat) (last : Mode) : Decidable (Slotted text count last) :=
  inferInstanceAs (Decidable (_ ∧ _ ∧ _))

namespace Slotted

variable {text : List Char} {count : Nat} {last : Mode}

theorem reads (h : Slotted text count last) (n : Nat) :
    Reads .plain (fill n text) (List.range' n count) last := by
  rw [← h.2.1]
  exact reads_filled n h.2.2

theorem percent_not_mem (h : Slotted text count last) (n : Nat) : '%' ∉ fill n text :=
  percent_not_mem_filled n h.1

theorem format_append (h : Slotted text count last) {n total argNum : Nat}
    (htotal : argNum + count ≤ total) (rest : List Char) :
    format (ints n total) .text argNum false (text ++ rest) =
      (format (ints n total) .text (argNum + count) false rest).map
        (fill (n + argNum) text ++ ·) := by
  obtain ⟨hpercent, rfl, -⟩ := h
  have hformat := format_template (n := n) hpercent htotal rest
  rw [template_slots] at hformat
  exact hformat

end Slotted

end TimescalePrometheus.Lib.SqlText
