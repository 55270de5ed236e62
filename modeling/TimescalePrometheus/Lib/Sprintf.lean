import Mathlib.Data.List.Basic

/-!
`fmt.Sprintf` with integers and strings. Covered are `%d`, `%s`, `%%` and explicit indexes, and
what is printed for a missing, a wrong or an unused argument. Flags, widths and other verbs are
not: a format with one of them has no result here.
-/

namespace TimescalePrometheus.Lib.Sprintf

/-- An argument of `Sprintf`. -/
inductive Arg
  | int (n : Nat)
  | string (s : List Char)
  deriving DecidableEq

def digits (n : Nat) : List Char := Nat.toDigits 10 n

/-- The argument after the name of its type. -/
def Arg.named : Arg → List Char
  | .int n => "int=".toList ++ digits n
  | .string s => "string=".toList ++ s

/-- The verbs in use. -/
inductive Verb
  | d
  | s
  deriving DecidableEq

def Verb.char : Verb → Char
  | .d => 'd'
  | .s => 's'

/-- With a note if the argument is missing. -/
def Verb.print (verb : Verb) : Option Arg → List Char
  | none => '%' :: '!' :: verb.char :: "(MISSING)".toList
  | some arg =>
    match verb, arg with
    | .d, .int n => digits n
    | .s, .string text => text
    | verb, arg => '%' :: '!' :: verb.char :: '(' :: arg.named ++ [')']

/-- Where the formatter stands: in plain text, after a percent sign, after the bracket of an
index, or behind an index. -/
inductive Mode
  | text
  | percent
  | index (n : Nat)
  | indexed
  deriving DecidableEq

/-- The unused arguments; with explicit indexes there is no telling. -/
def extra (args : List Arg) (argNum : Nat) (reordered : Bool) : List Char :=
  if reordered = false ∧ argNum < args.length then
    "%!(EXTRA ".toList ++ ", ".toList.intercalate ((args.drop argNum).map Arg.named) ++ [')']
  else []

def format (args : List Arg) (mode : Mode) (argNum : Nat) (reordered : Bool) :
    List Char → Option (List Char)
  | [] =>
    match mode with
    | .text => some (extra args argNum reordered)
    | .percent | .indexed => some ("%!(NOVERB)".toList ++ extra args argNum reordered)
    | .index _ => none
  | c :: rest =>
    match mode with
    | .text =>
      if c = '%' then format args .percent argNum reordered rest
      else (format args .text argNum reordered rest).map (c :: ·)
    | .index n =>
      if c.isDigit then
        format args (.index (10 * n + (c.toNat - '0'.toNat))) argNum reordered rest
      else if c = ']' ∧ 0 < n ∧ n ≤ args.length then format args .indexed (n - 1) true rest
      else none
    | .percent | .indexed =>
      if c = '%' then (format args .text argNum reordered rest).map ('%' :: ·)
      else if c = 'd' then
        (format args .text (argNum + 1) reordered rest).map (Verb.d.print args[argNum]? ++ ·)
      else if c = 's' then
        (format args .text (argNum + 1) reordered rest).map (Verb.s.print args[argNum]? ++ ·)
      else if c = '[' ∧ mode = .percent then format args (.index 0) argNum reordered rest
      else none

/-- None for what is not modelled. -/
def sprintf (text : List Char) (args : List Arg) : Option (List Char) :=
  format args .text 0 false text

section Format

variable {args : List Arg} {argNum : Nat} {reordered : Bool} {rest : List Char}

theorem format_append {text : List Char} (h : '%' ∉ text) :
    format args .text argNum reordered (text ++ rest) =
      (format args .text argNum reordered rest).map (text ++ ·) := by
  induction text with
  | nil => simp
  | cons c text ih =>
    simp only [List.mem_cons, not_or] at h
    rw [List.cons_append, format]
    simp only [if_neg (Ne.symm h.1), ih h.2, Option.map_map]
    rfl

theorem format_text {text : List Char} (h : '%' ∉ text) (hused : args.length ≤ argNum) :
    format args .text argNum reordered text = some text := by
  have hformat : format args .text argNum reordered (text ++ []) = _ := format_append h
  rw [List.append_nil] at hformat
  rw [hformat]
  simp [format, extra, Nat.not_lt.mpr hused]

theorem format_int {n : Nat} (h : args[argNum]? = some (.int n)) :
    format args .text argNum reordered ('%' :: 'd' :: rest) =
      (format args .text (argNum + 1) reordered rest).map (digits n ++ ·) := by
  simp [format, h, Verb.print]

theorem format_string {c : Char} {k : Nat} {s : List Char} (hdigit : c.isDigit = true)
    (hvalue : c.toNat - '0'.toNat = k + 1) (h : args[k]? = some (.string s)) :
    format args .text argNum reordered ('%' :: '[' :: c :: ']' :: 's' :: rest) =
      (format args .text (k + 1) true rest).map (s ++ ·) := by
  have hlt : k < args.length := (List.getElem?_eq_some_iff.mp h).1
  have hbracket : (']'.isDigit) = false := rfl
  simp only [format, hdigit, hvalue, hbracket, if_true]
  simp [Nat.succ_le_of_lt hlt, h, Verb.print]

end Format

theorem toList_literal {P : List Char → Prop} {s : String} {l : List Char}
    (hs : s = String.ofList l) (h : P l) : P s.toList := by
  rw [hs, String.toList_ofList]
  exact h

theorem literal_append {s t : String} {l m : List Char} (hs : s = String.ofList l)
    (ht : t = String.ofList m) : s ++ t = String.ofList (l ++ m) := by
  rw [hs, ht, String.ofList_append]

theorem literal_eq {s t : String} {l m : List Char} (hs : s = String.ofList l)
    (ht : t = String.ofList m) (h : l = m) : s = t := by
  rw [hs, ht, h]

/-- A text with slots for integers: what stands before the first one, and behind each of
them. -/
def template (first : List Char) (parts : List (List Char)) : List Char :=
  first ++ parts.flatMap fun part => '%' :: 'd' :: part

/-- The text between the verbs `%d`. -/
def slots : List Char → List Char × List (List Char)
  | '%' :: 'd' :: text => ([], (slots text).1 :: (slots text).2)
  | c :: text => (c :: (slots text).1, (slots text).2)
  | [] => ([], [])

theorem template_slots (text : List Char) : template (slots text).1 (slots text).2 = text := by
  fun_induction slots text with
  | case1 text ih => simpa [template] using ih
  | case2 c text _ ih => simpa [template] using ih
  | case3 => rfl

/-- The slots filled with consecutive numbers. -/
def filled (n : Nat) (first : List Char) : List (List Char) → List Char
  | [] => first
  | part :: parts => first ++ digits n ++ filled (n + 1) part parts

theorem filled_cons (n : Nat) (c : Char) (first : List Char) (parts : List (List Char)) :
    filled n (c :: first) parts = c :: filled n first parts := by
  cases parts <;> rfl

def fill (n : Nat) (text : List Char) : List Char := filled n (slots text).1 (slots text).2

def NoPercent (first : List Char) (parts : List (List Char)) : Prop :=
  '%' ∉ first ∧ ∀ part ∈ parts, '%' ∉ part

instance (first : List Char) (parts : List (List Char)) : Decidable (NoPercent first parts) :=
  inferInstanceAs (Decidable (_ ∧ _))

theorem percent_not_mem_digits (n : Nat) : '%' ∉ digits n := fun h => by
  have hdigit := Nat.isDigit_of_mem_toDigits (by decide) (by decide) h
  revert hdigit
  decide

theorem percent_not_mem_filled (n : Nat) {first : List Char} {parts : List (List Char)}
    (h : NoPercent first parts) : '%' ∉ filled n first parts := by
  induction parts generalizing n first with
  | nil => exact h.1
  | cons part parts ih =>
    obtain ⟨hfirst, hparts⟩ := h
    rw [List.forall_mem_cons] at hparts
    simp only [filled, List.mem_append, not_or]
    exact ⟨⟨hfirst, percent_not_mem_digits n⟩, ih (n + 1) hparts⟩

/-- The integers from `n` on. -/
def ints (n count : Nat) : List Arg := (List.range' n count).map .int

theorem getElem?_ints {n count i : Nat} (h : i < count) :
    (ints n count)[i]? = some (.int (n + i)) := by
  simp [ints, h]

theorem format_template {n count argNum : Nat} {first : List Char} {parts : List (List Char)}
    (h : NoPercent first parts) (hcount : argNum + parts.length ≤ count) (rest : List Char) :
    format (ints n count) .text argNum false (template first parts ++ rest) =
      (format (ints n count) .text (argNum + parts.length) false rest).map
        (filled (n + argNum) first parts ++ ·) := by
  induction parts generalizing argNum first with
  | nil =>
    rw [template, List.flatMap_nil, List.append_nil, format_append h.1]
    rfl
  | cons part parts ih =>
    obtain ⟨hfirst, hparts⟩ := h
    rw [List.forall_mem_cons] at hparts
    rw [List.length_cons] at hcount
    have htext : template first (part :: parts) ++ rest =
        first ++ '%' :: 'd' :: (template part parts ++ rest) := by
      simp [template]
    rw [htext, format_append hfirst, format_int (getElem?_ints (by omega)), ih hparts (by omega),
      List.length_cons, filled, ← Nat.add_assoc n, Nat.add_right_comm argNum, Option.map_map,
      Option.map_map]
    simp [Function.comp_def, Nat.add_assoc]

end TimescalePrometheus.Lib.Sprintf
