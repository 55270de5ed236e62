import Mathlib.Algebra.GroupWithZero.Nat
import Mathlib.Data.List.DropRight
import Mathlib.Data.List.Infix
import Mathlib.Data.List.Nodup
import Mathlib.Tactic.Common

/-!
The connection strings of keys and values as `pgconn` parses them. A value ends at white space or
is put into single quotes; a backslash keeps the character after it from ending the value, and of
the two only `\\` and `\'` are replaced. A text is a list of characters, or of bytes as
characters; only ASCII characters have a meaning.
-/

namespace TimescalePrometheus.Lib.Conninfo

/-- `asciiSpace` -/
def isSpace (c : Char) : Bool :=
  c == ' ' || c == '\t' || c == '\n' || c == '\x0b' || c == '\x0c' || c == '\r'

/-- `strings.Replace` of a backslash and `b` by `b`. -/
def replace (b : Char) : List Char → List Char
  | [] => []
  | [c] => [c]
  | c :: d :: s => if c = '\\' ∧ d = b then b :: replace b s else c :: replace b (d :: s)

/-- The two replacements, in their order. -/
def unescape (s : List Char) : List Char := replace '\'' (replace '\\' s)

/-- The text up to the first character that ends it, and what comes after that character, if
there is one. There is none for a backslash with nothing after it. -/
def scan (stop : Char → Bool) : List Char → Option (List Char × Option (List Char))
  | [] => some ([], none)
  | c :: s =>
    if stop c then some ([], some s)
    else if c = '\\' then
      match s with
      | [] => none
      | d :: s => (scan stop s).map fun (v, rest) => (c :: d :: v, rest)
    else (scan stop s).map fun (v, rest) => (c :: v, rest)

def isQuote (c : Char) : Bool := c == '\''

/-- What follows an equals sign. A quoted value needs its second quote. -/
def value (text : List Char) : Option (List Char × List Char) :=
  match text.dropWhile isSpace with
  | [] => some ([], [])
  | c :: s =>
    if c = '\'' then
      match scan isQuote s with
      | some (v, some rest) => some (unescape v, rest)
      | _ => none
    else (scan isSpace (c :: s)).map fun (v, rest) => (unescape v, rest.getD [])

/-- `strings.Trim` -/
def trim (s : List Char) : List Char := (s.dropWhile isSpace).rdropWhile isSpace

/-- A setting and what comes after it. -/
def setting (text : List Char) : Option ((List Char × List Char) × List Char) :=
  match text.dropWhile (· != '=') with
  | [] => none
  | _ :: rest =>
    let key := trim (text.takeWhile (· != '='))
    if key = [] then none else (value rest).map fun (v, rest) => ((key, v), rest)

/-- The settings in the order in which they are put into the map. -/
def parseLoop : Nat → List Char → Option (List (List Char × List Char))
  | _, [] => some []
  | 0, _ :: _ => none
  | n + 1, c :: text => do
    let (s, rest) ← setting (c :: text)
    let l ← parseLoop n rest
    some (s :: l)

def nameMap (key : List Char) : List Char :=
  if key = "dbname".toList then "database".toList else key

/-- The map that the parser returns. -/
abbrev Settings := List Char → Option (List Char)

/-- The map: of several settings with one name the last one counts. -/
def toSettings (l : List (List Char × List Char)) : Settings := fun key =>
  (l.reverse.find? fun s => nameMap s.1 = key).map (·.2)

/-- Every setting takes a character, so that there are not more of them than characters. -/
def parseDSNSettings (text : List Char) : Option Settings :=
  (parseLoop text.length text).map toSettings

section Replace

variable {b : Char} {s : List Char}

theorem countP_replace {p : Char → Bool} (hslash : p '\\' = false) (b : Char) (s : List Char) :
    (replace b s).countP p = s.countP p := by
  fun_induction replace b s with
  | case1 => rfl
  | case2 c => rfl
  | case3 c d s h ih =>
    obtain ⟨rfl, rfl⟩ := h
    simp [List.countP_cons, hslash, ih]
  | case4 c d s h ih => rw [List.countP_cons, ih, ← List.countP_cons]

theorem replace_eq_or_length_lt (b : Char) (s : List Char) :
    replace b s = s ∧ ¬['\\', b] <:+: s ∨ (replace b s).length < s.length := by
  fun_induction replace b s with
  | case1 => simp
  | case2 c =>
    refine .inl ⟨rfl, fun h => ?_⟩
    have := h.length_le
    simp at this
  | case3 c d s h ih =>
    right
    rcases ih with ⟨heq, -⟩ | hlt
    · simp [heq]
    · simp only [List.length_cons]
      omega
  | case4 c d s h ih =>
    rcases ih with ⟨heq, hinfix⟩ | hlt
    · refine .inl ⟨by rw [heq], ?_⟩
      rw [List.infix_cons_iff]
      rintro (hstarts | hlater)
      · simp only [List.cons_prefix_cons] at hstarts
        exact h ⟨hstarts.1.symm, hstarts.2.1.symm⟩
      · exact hinfix hlater
    · right
      simp only [List.length_cons] at hlt ⊢
      omega

theorem countP_unescape {p : Char → Bool} (hslash : p '\\' = false) (s : List Char) :
    (unescape s).countP p = s.countP p := by
  rw [unescape, countP_replace hslash, countP_replace hslash]

theorem length_unescape_le (s : List Char) : (unescape s).length ≤ s.length := by
  have hle : ∀ b s, (replace b s).length ≤ s.length := by
    intro b s
    rcases replace_eq_or_length_lt b s with ⟨heq, -⟩ | hlt
    · exact heq.symm ▸ le_rfl
    · exact hlt.le
  exact (hle _ _).trans (hle _ _)

theorem replace_of_not_infix (h : ¬['\\', b] <:+: s) : replace b s = s := by
  fun_induction replace b s with
  | case1 => rfl
  | case2 c => rfl
  | case3 c d s hpair ih =>
    obtain ⟨rfl, rfl⟩ := hpair
    exact absurd (List.prefix_append [_, _] s).isInfix h
  | case4 c d s _ ih => rw [ih fun hinfix => h (List.infix_cons hinfix)]

theorem unescape_eq_self_iff :
    unescape s = s ↔ ¬['\\', '\\'] <:+: s ∧ ¬['\\', '\''] <:+: s := by
  constructor
  · intro h
    have hlength := congrArg List.length h
    rw [unescape] at hlength
    rcases replace_eq_or_length_lt '\\' s with ⟨heq, hslashes⟩ | hlt
    · rw [heq] at hlength
      rcases replace_eq_or_length_lt '\'' s with ⟨-, hquotes⟩ | hlt
      · exact ⟨hslashes, hquotes⟩
      · omega
    · rcases replace_eq_or_length_lt '\'' (replace '\\' s) with ⟨heq, -⟩ | hlt'
      · rw [heq] at hlength
        omega
      · omega
  · rintro ⟨hslashes, hquotes⟩
    rw [unescape, replace_of_not_infix hslashes, replace_of_not_infix hquotes]

end Replace

section Scan

variable {stop : Char → Bool} {s v w : List Char}

/-- No character of the text ends it, and no backslash at its end takes what comes after. -/
def passes (stop : Char → Bool) : List Char → Bool
  | [] => true
  | c :: s =>
    if stop c then false
    else if c = '\\' then
      match s with
      | [] => false
      | _ :: s => passes stop s
    else passes stop s

theorem scan_spec {r : Option (List Char)} (h : scan stop s = some (v, r)) :
    r = none ∧ s = v ∨ ∃ z rest, r = some rest ∧ stop z = true ∧ s = v ++ z :: rest := by
  fun_induction scan stop s generalizing v with
  | case1 =>
    cases h
    exact .inl ⟨rfl, rfl⟩
  | case2 c s hstop =>
    cases h
    exact .inr ⟨c, s, rfl, hstop, rfl⟩
  | case3 => cases h
  | case4 d s _ ih | case5 c s _ _ ih =>
    obtain ⟨⟨v', r'⟩, hscan, hpair⟩ := Option.map_eq_some_iff.mp h
    cases hpair
    rcases ih hscan with ⟨hr, hs⟩ | ⟨z, rest, hr, hz, hs⟩
    · exact .inl ⟨hr, by rw [hs]⟩
    · exact .inr ⟨z, rest, hr, hz, by rw [hs]; rfl⟩

theorem scan_stop {c : Char} (h : stop c = true) : scan stop (c :: s) = some ([], some s) := by
  rw [scan.eq_def]
  simp only [h, if_true]

theorem scan_escape (h : stop '\\' = false) (d : Char) : scan stop ('\\' :: d :: s) =
    (scan stop s).map fun (v, rest) => ('\\' :: d :: v, rest) := by
  rw [scan.eq_def]
  simp only [h, Bool.false_eq_true, if_false, if_true]

theorem scan_cons {c : Char} (h : stop c = false) (hc : c ≠ '\\') : scan stop (c :: s) =
    (scan stop s).map fun (v, rest) => (c :: v, rest) := by
  rw [scan.eq_def]
  simp only [h, Bool.false_eq_true, if_false, hc]

theorem scan_append (h : passes stop w = true) (s : List Char) :
    scan stop (w ++ s) = (scan stop s).map fun (v, rest) => (w ++ v, rest) := by
  fun_induction passes stop w with
  | case1 => simp
  | case2 => cases h
  | case3 => cases h
  | case4 d w hstop ih =>
    rw [List.cons_append, List.cons_append, scan_escape (by simpa using hstop), ih h]
    simp [Function.comp_def]
  | case5 c w hstop hc ih =>
    rw [List.cons_append, scan_cons (by simpa using hstop) hc, ih h]
    simp [Function.comp_def]

theorem passes_of_scan {r : Option (List Char)} (hs : s ≠ [])
    (h : scan stop (w ++ s) = some (w, r)) : passes stop w = true ∧ scan stop s = some ([], r) := by
  fun_induction passes stop w with
  | case1 => exact ⟨rfl, h⟩
  | case2 c w hstop =>
    rw [List.cons_append, scan_stop hstop] at h
    simp at h
  | case3 hstop =>
    obtain ⟨d, s, rfl⟩ := List.exists_cons_of_ne_nil hs
    rw [List.singleton_append, scan_escape (by simpa using hstop)] at h
    simp at h
  | case4 d w hstop ih =>
    rw [List.cons_append, List.cons_append, scan_escape (by simpa using hstop)] at h
    exact ih (by simpa using h)
  | case5 c w hstop hc ih =>
    rw [List.cons_append, scan_cons (by simpa using hstop) hc] at h
    exact ih (by simpa using h)

theorem scan_cons_eq_nil {z : Char} {r : Option (List Char)}
    (h : scan stop (z :: s) = some ([], r)) : stop z = true ∧ r = some s := by
  rcases scan_spec h with ⟨-, hs⟩ | ⟨z', rest, hr, hz, hs⟩
  · cases hs
  · cases hs
    exact ⟨hz, hr⟩

theorem scan_prefix {r : Option (List Char)} (h : scan stop s = some (v, r)) : v <+: s := by
  rcases scan_spec h with ⟨-, hs⟩ | ⟨z, rest, -, -, hs⟩
  · exact hs ▸ List.prefix_rfl
  · exact hs ▸ List.prefix_append _ _

theorem exists_append_of_scan {t : List Char} {r : Option (List Char)}
    (h : scan stop (w ++ t) = some (v, r)) (hlength : w.length ≤ (unescape v).length) :
    ∃ x, v = w ++ x ∧ x <+: t := by
  have hstarts := scan_prefix h
  obtain ⟨x, rfl⟩ := List.prefix_of_prefix_length_le (List.prefix_append w t) hstarts
    (hlength.trans (length_unescape_le v))
  exact ⟨x, rfl, (List.prefix_append_right_inj w).mp hstarts⟩

/-- A text that is read as itself is all that is read: what would be read besides could only be
backslashes. -/
theorem scan_eq_of_unescape {z : Char} {r : Option (List Char)} (hz : z ≠ '\\')
    (h : scan stop (w ++ z :: s) = some (v, r)) (hv : unescape v = w) :
    (passes stop w = true ∧ unescape w = w) ∧ stop z = true ∧ r = some s := by
  obtain ⟨x, rfl, hx⟩ := exists_append_of_scan h (by rw [hv])
  cases x with
  | nil =>
    rw [List.append_nil] at h hv
    obtain ⟨hpasses, hscan⟩ := passes_of_scan (List.cons_ne_nil z s) h
    exact ⟨⟨hpasses, hv⟩, scan_cons_eq_nil hscan⟩
  | cons y x =>
    obtain rfl : y = z := (List.cons_prefix_cons.mp hx).1
    have hcount := countP_unescape (p := (· == y)) (by simpa using hz.symm) (w ++ y :: x)
    rw [hv, List.countP_append] at hcount
    simp at hcount

end Scan

/-- A character that is neither dropped around keys and values nor an escape. -/
def solid (c : Char) : Bool := !isSpace c && c != '\\' && c != '\''

/-- Text that means itself as an unquoted value. -/
structure Plain (w : List Char) : Prop where
  ne_nil : w ≠ []
  head_ne_quote : w.head? ≠ some '\''
  passes : passes isSpace w = true
  no_pair : ¬['\\', '\\'] <:+: w ∧ ¬['\\', '\''] <:+: w

/-- Text that means itself between quotes. -/
structure Unquoted (w : List Char) : Prop where
  passes : passes isQuote w = true
  no_pair : ¬['\\', '\\'] <:+: w ∧ ¬['\\', '\''] <:+: w

section Value

variable {w rest rest' : List Char} {a : Char}

theorem value_quoted (s : List Char) : value ('\'' :: s) =
    match scan isQuote s with
    | some (v, some rest) => some (unescape v, rest)
    | _ => none := rfl

theorem value_quoted_eq_some_iff :
    value ('\'' :: (w ++ '\'' :: rest)) = some (w, rest') ↔ Unquoted w ∧ rest' = rest := by
  rw [value_quoted]
  constructor
  · intro h
    split at h
    · rename_i v rest'' hscan
      obtain ⟨hv, rfl⟩ := Prod.mk.inj (Option.some.inj h)
      obtain ⟨⟨hpasses, hself⟩, -, hrest⟩ := scan_eq_of_unescape (by decide) hscan hv
      exact ⟨⟨hpasses, unescape_eq_self_iff.mp hself⟩, Option.some.inj hrest⟩
    · cases h
  · rintro ⟨hw, rfl⟩
    rw [scan_append hw.passes, scan_stop rfl]
    simp [unescape_eq_self_iff.mpr hw.no_pair]

theorem value_bare {c : Char} {s : List Char} (hc : isSpace c = false) (hquote : c ≠ '\'') :
    value (c :: s) = (scan isSpace (c :: s)).map fun (v, rest) => (unescape v, rest.getD []) := by
  rw [value, List.dropWhile_cons_of_neg (by simp [hc])]
  simp [hquote]

theorem Plain.value_append (h : Plain w) (rest : List Char) :
    value (w ++ ' ' :: rest) = some (w, rest) := by
  obtain ⟨c, w, rfl⟩ := List.exists_cons_of_ne_nil h.ne_nil
  have hc : isSpace c = false := by
    by_contra hspace
    have hpasses := h.passes
    unfold Conninfo.passes at hpasses
    simp [hspace] at hpasses
  have hquote : c ≠ '\'' := by simpa using h.head_ne_quote
  rw [List.cons_append, value_bare hc hquote, ← List.cons_append, scan_append h.passes,
    scan_stop rfl]
  simp [unescape_eq_self_iff.mpr h.no_pair]

theorem not_isSpace_of_solid (ha : solid a = true) :
    isSpace a = false ∧ a ≠ '\\' ∧ a ≠ '\'' := by
  simp only [solid, Bool.and_eq_true, Bool.not_eq_true', bne_iff_ne] at ha
  exact ⟨ha.1.1, ha.1.2, ha.2⟩

theorem countP_lt_of_unescape {u v x : List Char} (ha : solid a = true)
    (hv : v = u ++ ' ' :: a :: x) : u.countP (· == a) < (unescape v).countP (· == a) := by
  obtain ⟨-, hslash, -⟩ := not_isSpace_of_solid ha
  rw [countP_unescape (by simpa using hslash.symm), hv]
  simp only [List.countP_append, List.countP_cons, beq_self_eq_true, if_true]
  omega

theorem prefix_blank_cases {x : List Char} (h : x <+: ' ' :: a :: rest) :
    x = [] ∨ x = [' '] ∨ ∃ x', x = ' ' :: a :: x' := by
  match x, h with
  | [], _ => exact .inl rfl
  | [y], h =>
    obtain ⟨rfl, -⟩ := List.cons_prefix_cons.mp h
    exact .inr (.inl rfl)
  | y :: y' :: x, h =>
    obtain ⟨rfl, htail⟩ := List.cons_prefix_cons.mp h
    obtain ⟨rfl, -⟩ := List.cons_prefix_cons.mp htail
    exact .inr (.inr ⟨x, rfl⟩)

theorem value_quoted_ne {u : List Char} (ha : solid a = true) (hlen : u.length < w.length)
    (hquotes : u.countP isQuote < w.countP isQuote)
    (hcount : w.countP (· == a) = u.countP (· == a)) :
    value ('\'' :: (u ++ ' ' :: a :: rest)) ≠ some (w, rest') := by
  rw [value_quoted]
  intro h
  split at h
  · rename_i v rest'' hscan
    obtain ⟨hv, -⟩ := Prod.mk.inj (Option.some.inj h)
    obtain ⟨x, rfl, hx⟩ := exists_append_of_scan hscan (hv ▸ hlen.le)
    have hsame := countP_unescape (p := isQuote) rfl (u ++ x)
    rw [hv, List.countP_append] at hsame
    rcases prefix_blank_cases hx with rfl | rfl | ⟨x, rfl⟩
    · exact hquotes.ne' hsame
    · exact hquotes.ne' hsame
    · have hlt := countP_lt_of_unescape ha rfl (u := u) (x := x)
      rw [hv, hcount] at hlt
      exact lt_irrefl _ hlt
  · cases h

theorem unescape_ne_of_scan {u v : List Char} {r : Option (List Char)} (ha : solid a = true)
    (hlen : u.length < w.length) (hcount : w.countP (· == a) = u.countP (· == a))
    (hscan : scan isSpace (u ++ ' ' :: a :: rest) = some (v, r)) : unescape v ≠ w := by
  intro hv
  obtain ⟨x, rfl, hx⟩ := exists_append_of_scan hscan (hv ▸ hlen.le)
  rcases prefix_blank_cases hx with rfl | rfl | ⟨x, rfl⟩
  · have hlength := length_unescape_le (u ++ [])
    rw [hv, List.append_nil] at hlength
    omega
  · rcases scan_spec hscan with ⟨-, hs⟩ | ⟨z, rest, -, hz, hs⟩
    · simp at hs
    · obtain ⟨rfl, -⟩ : a = z ∧ _ := by simpa using hs
      simp [(not_isSpace_of_solid ha).1] at hz
  · have hlt := countP_lt_of_unescape ha rfl (u := u) (x := x)
    rw [hv, hcount] at hlt
    exact lt_irrefl _ hlt

/-- Before any escape the text can only be read as itself if it does not begin with blanks or with
a quote: what is read must make up for them, and would have a character of the next key. -/
theorem plain_of_value (ha : solid a = true)
    (h : value (w ++ ' ' :: a :: rest) = some (w, rest')) : Plain w := by
  obtain ⟨haspace, hslash, haquote⟩ := not_isSpace_of_solid ha
  obtain ⟨blanks, u, hw, hblanks, hu⟩ : ∃ blanks u, w = blanks ++ u ∧
      (∀ c ∈ blanks, isSpace c = true) ∧ u.dropWhile isSpace = u :=
    ⟨w.takeWhile isSpace, w.dropWhile isSpace, List.takeWhile_append_dropWhile.symm,
      fun c hc => List.mem_takeWhile_imp hc, List.dropWhile_idempotent ..⟩
  have hcount : w.countP (· == a) = u.countP (· == a) := by
    rw [hw, List.countP_append, List.countP_eq_zero.mpr, Nat.zero_add]
    intro c hc heq
    rw [beq_iff_eq] at heq
    exact absurd (hblanks c hc) (by simp [heq, haspace])
  have hvalue : value (w ++ ' ' :: a :: rest) = value (u ++ ' ' :: a :: rest) := by
    unfold value
    rw [hw, List.append_assoc, List.dropWhile_append_of_pos hblanks]
  rw [hvalue] at h
  cases u with
  | nil =>
    have hblank : value (' ' :: a :: rest) = value (a :: rest) := rfl
    rw [List.nil_append, hblank, value_bare haspace haquote, scan_cons haspace hslash] at h
    simp only [Option.map_map, Option.map_eq_some_iff, Function.comp_apply] at h
    obtain ⟨⟨v, r⟩, -, hpair⟩ := h
    have hpresent := countP_unescape (p := (· == a)) (by simpa using hslash.symm) (a :: v)
    rw [(Prod.mk.inj hpair).1, hcount] at hpresent
    simp at hpresent
  | cons c u =>
    have hc : isSpace c = false := by
      by_contra hspace
      have hshorter := (List.dropWhile_sublist isSpace (l := u)).length_le
      rw [List.dropWhile_cons_of_pos (by simpa using hspace)] at hu
      rw [hu, List.length_cons] at hshorter
      omega
    by_cases hquote : c = '\''
    · subst hquote
      rw [List.countP_cons_of_neg (by simpa using haquote.symm)] at hcount
      refine absurd h (value_quoted_ne ha ?_ ?_ hcount)
      · simp only [hw, List.length_append, List.length_cons]
        omega
      · rw [hw, List.countP_append, List.countP_cons_of_pos rfl]
        omega
    · rw [List.cons_append, value_bare hc hquote, ← List.cons_append, Option.map_eq_some_iff] at h
      obtain ⟨⟨v, r⟩, hscan, hpair⟩ := h
      obtain ⟨hv, -⟩ := Prod.mk.inj hpair
      cases blanks with
      | nil =>
        obtain ⟨⟨hpasses, hself⟩, -⟩ := scan_eq_of_unescape (by decide) hscan (hv.trans hw)
        rw [hw]
        exact ⟨List.cons_ne_nil _ _, by simpa using hquote, hpasses,
          unescape_eq_self_iff.mp hself⟩
      | cons blank blanks =>
        refine absurd hv (unescape_ne_of_scan ha ?_ hcount hscan)
        simp only [hw, List.length_append, List.length_cons]
        omega

theorem value_eq_some_iff (ha : solid a = true) :
    value (w ++ ' ' :: a :: rest) = some (w, rest') ↔ Plain w ∧ rest' = a :: rest := by
  constructor
  · intro h
    have hplain := plain_of_value ha h
    rw [hplain.value_append, Option.some.injEq, Prod.mk.injEq] at h
    exact ⟨hplain, h.2.symm⟩
  · rintro ⟨hplain, rfl⟩
    exact hplain.value_append _

theorem countP_takeWhile_isSpace (text : List Char) :
    (text.takeWhile isSpace).countP solid = 0 := by
  rw [List.countP_eq_zero]
  intro c hc
  simp [solid, List.mem_takeWhile_imp hc]

theorem value_spec {text v : List Char} (h : value text = some (v, rest)) :
    ∃ before raw after, text = before ++ raw ++ after ++ rest ∧ v = unescape raw ∧
      before.countP solid = 0 ∧ after.countP solid = 0 := by
  have hblanks := countP_takeWhile_isSpace text
  have hsplit := List.takeWhile_append_dropWhile (p := isSpace) (l := text)
  unfold value at h
  split at h
  · rename_i hnil
    cases h
    rw [hnil, List.append_nil] at hsplit
    exact ⟨text, [], [], by simp, rfl, hsplit ▸ hblanks, rfl⟩
  · rename_i c s hcons
    rw [hcons] at hsplit
    split at h
    · rename_i hquote
      subst hquote
      split at h
      · rename_i raw rest' hscan
        cases h
        rcases scan_spec hscan with ⟨hnone, -⟩ | ⟨z, rest', hrest, hz, rfl⟩
        · cases hnone
        · cases hrest
          obtain rfl : z = '\'' := by simpa [isQuote] using hz
          exact ⟨text.takeWhile isSpace ++ ['\''], raw, ['\''], by simpa using hsplit.symm, rfl,
            by rw [List.countP_append, hblanks]; rfl, rfl⟩
      · cases h
    · obtain ⟨⟨raw, r⟩, hscan, hpair⟩ := Option.map_eq_some_iff.mp h
      cases hpair
      rcases scan_spec hscan with ⟨rfl, rfl⟩ | ⟨z, rest', rfl, hz, hs⟩
      · exact ⟨text.takeWhile isSpace, c :: s, [], by simpa using hsplit.symm, rfl, hblanks, rfl⟩
      · refine ⟨text.takeWhile isSpace, raw, [z], ?_, rfl, hblanks, by simp [solid, hz]⟩
        rw [hs] at hsplit
        simpa using hsplit.symm

end Value

section Setting

variable {text rest key v : List Char} {s : List Char × List Char}
  {l : List (List Char × List Char)}

/-- The characters that a setting needs in the text. -/
def weight (s : List Char × List Char) : Nat := s.1.countP solid + 1 + s.2.countP solid

theorem countP_trim (key : List Char) : (trim key).countP solid = key.countP solid := by
  have hdrop : ∀ t : List Char, (t.dropWhile isSpace).countP solid = t.countP solid := by
    intro t
    have hsplit := congrArg (List.countP solid)
      (List.takeWhile_append_dropWhile (p := isSpace) (l := t))
    rwa [List.countP_append, countP_takeWhile_isSpace, Nat.zero_add] at hsplit
  rw [trim, List.rdropWhile, List.countP_reverse, hdrop, List.countP_reverse, hdrop]

theorem countP_setting (h : setting text = some (s, rest)) :
    text.countP solid = weight s + rest.countP solid ∧ rest.length < text.length := by
  have hsplit := List.takeWhile_append_dropWhile (p := (· != '=')) (l := text)
  unfold setting at h
  split at h
  · cases h
  · rename_i c after hcons
    have hc : c = '=' := by
      have := List.head_dropWhile_not (· != '=') (l := text) (by simp [hcons])
      simpa [hcons] using this
    dsimp only at h
    split at h
    · cases h
    · obtain ⟨⟨v, r⟩, hvalue, hpair⟩ := Option.map_eq_some_iff.mp h
      cases hpair
      obtain ⟨before, raw, end_, rfl, rfl, hbefore, hend⟩ := value_spec hvalue
      rw [hcons, hc] at hsplit
      generalize text.takeWhile (· != '=') = key at hsplit
      rw [← hsplit]
      simp only [weight, List.countP_append, List.countP_cons, countP_trim, hbefore, hend,
        countP_unescape (p := solid) rfl, List.length_append, List.length_cons,
        show solid '=' = true from rfl, if_true]
      omega

/-- The settings of a text, without a bound on their number. -/
inductive Parses : List Char → List (List Char × List Char) → Prop
  | done : Parses [] []
  | more {text rest : List Char} {s : List Char × List Char}
      {l : List (List Char × List Char)} (h : setting text = some (s, rest))
      (hrest : Parses rest l) : Parses text (s :: l)

theorem parseLoop_eq_some_iff {n : Nat} (hn : text.length ≤ n) :
    parseLoop n text = some l ↔ Parses text l := by
  induction n generalizing text l with
  | zero =>
    rw [List.length_eq_zero_iff.mp (Nat.le_zero.mp hn)]
    constructor
    · intro h
      cases h
      exact .done
    · intro h
      cases h with
      | done => rfl
      | more h => cases h
  | succ n ih =>
    cases text with
    | nil =>
      constructor
      · intro h
        cases h
        exact .done
      · intro h
        cases h with
        | done => rfl
        | more h => cases h
    | cons c text =>
      simp only [parseLoop, Option.bind_eq_bind, Option.bind_eq_some_iff, Option.some.injEq]
      constructor
      · rintro ⟨⟨s, rest⟩, hs, l', hl', rfl⟩
        have hlt := (countP_setting hs).2
        rw [List.length_cons] at hn hlt
        exact .more hs ((ih (show rest.length ≤ n by omega)).mp hl')
      · intro h
        cases h with
        | more hs hrest =>
          have hlt := (countP_setting hs).2
          rw [List.length_cons] at hn hlt
          exact ⟨_, hs, _, (ih (Nat.le_of_lt_succ (hlt.trans_le hn))).mpr hrest, rfl⟩

theorem Parses.countP_eq (h : Parses text l) : text.countP solid = (l.map weight).sum := by
  induction h with
  | done => rfl
  | more hs _ ih => rw [(countP_setting hs).1, ih, List.map_cons, List.sum_cons]

/-- A name that stands before an equals sign. -/
structure Key (key : List Char) : Prop where
  ne_nil : key ≠ []
  all_solid : key.all (fun c => solid c && c != '=') = true

theorem Key.exists_cons (h : Key key) : ∃ c key', key = c :: key' ∧ solid c = true := by
  obtain ⟨c, key', rfl⟩ := List.exists_cons_of_ne_nil h.ne_nil
  have hc := List.all_eq_true.mp h.all_solid c List.mem_cons_self
  exact ⟨c, key', rfl, (Bool.and_eq_true _ _ ▸ hc).1⟩

theorem Key.trim_eq (h : Key key) : trim key = key := by
  have hspace : ∀ c ∈ key, isSpace c = false := by
    intro c hc
    have := List.all_eq_true.mp h.all_solid c hc
    simp only [solid, Bool.and_eq_true, Bool.not_eq_true'] at this
    exact this.1.1.1
  have hdrop : key.dropWhile isSpace = key := by
    obtain ⟨c, key, rfl, -⟩ := h.exists_cons
    exact List.dropWhile_cons_of_neg (by simp [hspace c List.mem_cons_self])
  rw [trim, hdrop, List.rdropWhile_eq_self_iff]
  intro hne
  simp [hspace _ (List.getLast_mem hne)]

theorem Key.setting_append (h : Key key) (text : List Char) :
    setting (key ++ '=' :: text) = (value text).map fun v => ((key, v.1), v.2) := by
  have hkey : ∀ c ∈ key, (c != '=') = true := by
    intro c hc
    exact ((Bool.and_eq_true _ _).mp (List.all_eq_true.mp h.all_solid c hc)).2
  rw [setting, List.dropWhile_append_of_pos hkey, List.takeWhile_append_of_pos hkey]
  simp [h.trim_eq, h.ne_nil]

theorem setting_blank (text : List Char) : setting (' ' :: text) = setting text := rfl

theorem Key.parses_cons (h : Key key) (hparses : Parses (key ++ '=' :: text) l) :
    ∃ v rest l', l = (key, v) :: l' ∧ value text = some (v, rest) ∧ Parses rest l' := by
  generalize htext : key ++ '=' :: text = t at hparses
  cases hparses with
  | done => exact absurd htext (by simp)
  | more hs hrest =>
    rw [← htext, h.setting_append] at hs
    obtain ⟨⟨v, rest⟩, hvalue, hpair⟩ := Option.map_eq_some_iff.mp hs
    cases hpair
    exact ⟨v, rest, _, rfl, hvalue, hrest⟩

variable {key' w : List Char}

theorem Key.plain (h : Key key) (h' : Key key')
    (hparses : Parses (key ++ '=' :: (w ++ ' ' :: (key' ++ '=' :: rest))) l)
    (hvalue : ∀ s ∈ l, s.1 = key → s.2 = w) :
    Plain w ∧ ∃ l', l = (key, w) :: l' ∧ Parses (key' ++ '=' :: rest) l' := by
  obtain ⟨v, rest', l', rfl, hv, hrest⟩ := h.parses_cons hparses
  obtain rfl : v = w := hvalue _ List.mem_cons_self rfl
  obtain ⟨a, key', rfl, ha⟩ := h'.exists_cons
  rw [List.cons_append, value_eq_some_iff ha] at hv
  obtain ⟨hplain, rfl⟩ := hv
  exact ⟨hplain, l', rfl, hrest⟩

theorem Key.unquoted (h : Key key)
    (hparses : Parses (key ++ '=' :: '\'' :: (w ++ '\'' :: ' ' :: (key' ++ '=' :: rest))) l)
    (hvalue : ∀ s ∈ l, s.1 = key → s.2 = w) :
    Unquoted w ∧ ∃ l', l = (key, w) :: l' ∧ Parses (key' ++ '=' :: rest) l' := by
  obtain ⟨v, rest', l', rfl, hv, hrest⟩ := h.parses_cons hparses
  obtain rfl : v = w := hvalue _ List.mem_cons_self rfl
  obtain ⟨hunquoted, rfl⟩ := value_quoted_eq_some_iff.mp hv
  refine ⟨hunquoted, l', rfl, ?_⟩
  cases hrest with
  | more hs hrest => exact .more (setting_blank _ ▸ hs) hrest

theorem Key.parses_plain (h : Key key) (hplain : Plain w) (hrest : Parses rest l) :
    Parses (key ++ '=' :: (w ++ ' ' :: rest)) ((key, w) :: l) := by
  refine .more ?_ hrest
  rw [h.setting_append, hplain.value_append]
  rfl

theorem Key.parses_unquoted (h : Key key) (hunquoted : Unquoted w)
    (hrest : Parses rest (s :: l)) :
    Parses (key ++ '=' :: '\'' :: (w ++ '\'' :: ' ' :: rest)) ((key, w) :: s :: l) := by
  have hblank : Parses (' ' :: rest) (s :: l) := by
    cases hrest with
    | more hs hrest => exact .more hs hrest
  refine .more ?_ hblank
  rw [h.setting_append, value_quoted_eq_some_iff.mpr ⟨hunquoted, rfl⟩]
  rfl

theorem toSettings_congr {l' : List (List Char × List Char)}
    (h : (l.map fun s => (nameMap s.1, s.2)) = l'.map fun s => (nameMap s.1, s.2)) :
    toSettings l = toSettings l' := by
  have hmap : ∀ l key, toSettings l key = (((l.map fun s => (nameMap s.1, s.2)).reverse.find?
      fun s => s.1 = key).map (·.2)) := by
    intro l key
    rw [← List.map_reverse, List.find?_map, Option.map_map]
    rfl
  funext key
  rw [hmap, hmap, h]

theorem mem_of_toSettings (h : toSettings l key = some v) :
    ∃ s ∈ l, nameMap s.1 = key ∧ s.2 = v := by
  obtain ⟨s, hs, rfl⟩ := Option.map_eq_some_iff.mp h
  have hkey := List.find?_some hs
  exact ⟨s, List.mem_reverse.mp (List.mem_of_find?_eq_some hs), by simpa using hkey, rfl⟩

theorem toSettings_of_mem (hnodup : (l.map fun s => nameMap s.1).Nodup) (h : s ∈ l) :
    toSettings l (nameMap s.1) = some s.2 := by
  cases hfind : toSettings l (nameMap s.1) with
  | none =>
    have habsent := List.find?_eq_none.mp (Option.map_eq_none_iff.mp hfind) s
      (List.mem_reverse.mpr h)
    simp at habsent
  | some v =>
    obtain ⟨s', hs', hkey, rfl⟩ := mem_of_toSettings hfind
    rw [List.inj_on_of_nodup_map hnodup hs' h hkey]

theorem countP_le_of_nameMap {name : List Char} (h : nameMap name = nameMap key)
    (hkey : key ≠ "database".toList) : key.countP solid ≤ name.countP solid := by
  unfold nameMap at h
  split at h
  · rename_i hname
    split at h
    · rename_i hdb
      rw [hname, hdb]
    · exact absurd h.symm hkey
  · split at h
    · rename_i hdb
      rw [h, hdb]
      decide
    · rw [h]

/-- Settings that take no more characters than those of a list with distinct names, but give the
same map, are the same settings in some order. -/
theorem value_eq_of_toSettings {l' : List (List Char × List Char)}
    (hnodup : (l'.map fun s => nameMap s.1).Nodup) (hnames : ∀ s ∈ l', s.1 ≠ "database".toList)
    (hweight : (l.map weight).sum ≤ (l'.map weight).sum)
    (h : ∀ s ∈ l', ∃ t ∈ l, nameMap t.1 = nameMap s.1 ∧ t.2 = s.2) :
    ∀ t ∈ l, ∃ s ∈ l', nameMap t.1 = nameMap s.1 ∧ t.2 = s.2 := by
  have hsum : ∀ {l : List (List Char × List Char)} {t}, t ∈ l →
      (l.map weight).sum = weight t + ((l.erase t).map weight).sum := fun ht =>
    ((List.perm_cons_erase ht).map weight).sum_nat
  induction l' generalizing l with
  | nil =>
    intro t ht
    rw [hsum ht] at hweight
    simp [weight] at hweight
  | cons s l' ih =>
    obtain ⟨hs, hnodup⟩ := List.nodup_cons.mp hnodup
    obtain ⟨hname, hnames⟩ := List.forall_mem_cons.mp hnames
    obtain ⟨⟨t, ht, hkey, hvalue⟩, hothers⟩ := List.forall_mem_cons.mp h
    rw [hsum ht, List.map_cons, List.sum_cons] at hweight
    have hle : weight s ≤ weight t := by
      have := countP_le_of_nameMap hkey hname
      unfold weight
      rw [hvalue]
      omega
    have hrest := ih (l := l.erase t) hnodup hnames (by omega) ?_
    · intro t' ht'
      by_cases heq : t' = t
      · exact ⟨s, List.mem_cons_self, heq ▸ hkey, heq ▸ hvalue⟩
      · obtain ⟨s', hs', hsame⟩ := hrest t' ((List.mem_erase_of_ne heq).mpr ht')
        exact ⟨s', List.mem_cons_of_mem _ hs', hsame⟩
    · intro s' hs'
      obtain ⟨t', ht', hkey', hvalue'⟩ := hothers s' hs'
      refine ⟨t', (List.mem_erase_of_ne ?_).mpr ht', hkey', hvalue'⟩
      rintro rfl
      exact hs (List.mem_map.mpr ⟨s', hs', hkey'.symm.trans hkey⟩)

end Setting

end TimescalePrometheus.Lib.Conninfo
