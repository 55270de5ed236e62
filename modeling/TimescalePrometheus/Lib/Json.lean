import Mathlib.Data.List.Forall2
import Mathlib.Data.List.TakeWhile
import Mathlib.Tactic.Common

/-!
JSON documents and a parser for them. A number is kept as its token and a string as its
characters.
-/

namespace TimescalePrometheus.Lib.Json

/-- A document; numbers keep their text. -/
inductive Value where
  | null
  | bool (b : Bool)
  | num (token : List Char)
  | str (s : List Char)
  | arr (items : List Value)
  | obj (members : List (List Char × Value))

/-- The states of the automaton of `-? (0 | [1-9][0-9]*) (\. [0-9]+)? ([eE] [+-]? [0-9]+)?`. -/
inductive Number where
  | start
  | minus
  | zero
  | int
  | point
  | frac
  | exp
  | expSign
  | expDigits
  | refused
deriving DecidableEq

def isDigit (c : Char) : Bool := decide ('0' ≤ c) && decide (c ≤ '9')

/-- What a character can be in a number. -/
inductive NumberChar where
  | minus
  | plus
  | point
  | exp
  | zero
  | digit
  | other
deriving DecidableEq

def classify (c : Char) : NumberChar :=
  if c = '-' then .minus
  else if c = '+' then .plus
  else if c = '.' then .point
  else if c = 'e' ∨ c = 'E' then .exp
  else if c = '0' then .zero
  else if isDigit c then .digit
  else .other

/-- The automaton of number tokens. -/
def Number.next : Number → NumberChar → Number
  | .start, .minus => .minus
  | .start, .zero | .minus, .zero => .zero
  | .start, .digit | .minus, .digit | .int, .zero | .int, .digit => .int
  | .zero, .point | .int, .point => .point
  | .point, .zero | .point, .digit | .frac, .zero | .frac, .digit => .frac
  | .zero, .exp | .int, .exp | .frac, .exp => .exp
  | .exp, .minus | .exp, .plus => .expSign
  | .exp, .zero | .exp, .digit | .expSign, .zero | .expSign, .digit => .expDigits
  | .expDigits, .zero | .expDigits, .digit => .expDigits
  | _, _ => .refused

/-- The token may end here. -/
def Number.accepted : Number → Bool
  | .zero | .int | .frac | .expDigits => true
  | _ => false

def isNumber (token : List Char) : Bool :=
  ((token.map classify).foldl Number.next .start).accepted

def isNumberChar (c : Char) : Bool := decide (classify c ≠ .other)

def hexValue (c : Char) : Option Nat :=
  if isDigit c then some (c.toNat - '0'.toNat)
  else if 'a' ≤ c ∧ c ≤ 'f' then some (c.toNat - 'a'.toNat + 10)
  else if 'A' ≤ c ∧ c ≤ 'F' then some (c.toNat - 'A'.toNat + 10)
  else none

/-- U+FFFD. -/
def replacement : Char := Char.ofNat 0xFFFD

/-- Four hexadecimal digits. -/
def codeUnit : List Char → Option (Nat × List Char)
  | a :: b :: c :: d :: rest => do
    let a ← hexValue a
    let b ← hexValue b
    let c ← hexValue c
    let d ← hexValue d
    return (a * 4096 + b * 256 + c * 16 + d, rest)
  | _ => none

/-- The second half of a surrogate pair. -/
def lowSurrogate (high : Nat) : List Char → Option (Char × List Char)
  | '\\' :: 'u' :: cs => do
    let (low, rest) ← codeUnit cs
    if 0xDC00 ≤ low ∧ low < 0xE000 then
      return (Char.ofNat (0x10000 + (high - 0xD800) * 1024 + (low - 0xDC00)), rest)
    else none
  | _ => none

/-- What stands behind `\u`. Half a surrogate pair is read as the replacement character. -/
def unicode (cs : List Char) : Option (Char × List Char) := do
  let (unit, rest) ← codeUnit cs
  if 0xD800 ≤ unit ∧ unit < 0xDC00 then
    return (lowSurrogate unit rest).getD (replacement, rest)
  else if 0xDC00 ≤ unit ∧ unit < 0xE000 then
    return (replacement, rest)
  else
    return (Char.ofNat unit, rest)

/-- What stands behind a backslash. -/
def unescape : List Char → Option (Char × List Char)
  | [] => none
  | c :: cs =>
    if c = 'u' then unicode cs
    else if c = '"' ∨ c = '\\' ∨ c = '/' then some (c, cs)
    else if c = 'b' then some (Char.ofNat 8, cs)
    else if c = 'f' then some (Char.ofNat 12, cs)
    else if c = 'n' then some ('\n', cs)
    else if c = 'r' then some ('\r', cs)
    else if c = 't' then some ('\t', cs)
    else none

/-- A character that stands for itself in a string. -/
def Plain (c : Char) : Prop := c ≠ '"' ∧ c ≠ '\\' ∧ 0x20 ≤ c.toNat

instance : DecidablePred Plain := fun c =>
  inferInstanceAs (Decidable (c ≠ '"' ∧ c ≠ '\\' ∧ 0x20 ≤ c.toNat))

def stringChar (c : Char) (cs : List Char) : Option (Char × List Char) :=
  if c = '\\' then unescape cs else if Plain c then some (c, cs) else none

/-- A string from behind its first quote, and what stands behind its last one. -/
def stringBody : Nat → List Char → Option (List Char × List Char)
  | _, [] => none
  | 0, _ => none
  | fuel + 1, c :: cs =>
    if c = '"' then some ([], cs)
    else do
      let (c, cs) ← stringChar c cs
      let (s, rest) ← stringBody fuel cs
      return (c :: s, rest)

/-- White space between tokens. -/
def isWs (c : Char) : Bool := c == ' ' || c == '\t' || c == '\n' || c == '\r'

def skipWs (cs : List Char) : List Char := cs.dropWhile isWs

def number (cs : List Char) : Option (Value × List Char) :=
  let token := cs.takeWhile isNumberChar
  if isNumber token then some (.num token, cs.dropWhile isNumberChar) else none

def literal (cs : List Char) : Option (Value × List Char) :=
  if "null".toList <+: cs then some (.null, cs.drop 4)
  else if "true".toList <+: cs then some (.bool true, cs.drop 4)
  else if "false".toList <+: cs then some (.bool false, cs.drop 5)
  else none

/-- The character behind blanks, if it stands there, and what follows it. -/
def expect (c : Char) (cs : List Char) : Option (List Char) :=
  match skipWs cs with
  | [] => none
  | d :: rest => if d = c then some rest else none

mutual

def parseValue : Nat → List Char → Option (Value × List Char)
  | 0, _ => none
  | fuel + 1, cs =>
    match skipWs cs with
    | [] => none
    | c :: cs =>
      if c = '"' then do
        let (s, rest) ← stringBody fuel cs
        return (.str s, rest)
      else if c = '[' then
        match expect ']' cs with
        | some rest => some (.arr [], rest)
        | none => do
          let (items, rest) ← parseItems fuel cs
          return (.arr items, rest)
      else if c = '{' then
        match expect '}' cs with
        | some rest => some (.obj [], rest)
        | none => do
          let (members, rest) ← parseMembers fuel cs
          return (.obj members, rest)
      else (literal (c :: cs)).orElse fun _ => number (c :: cs)

/-- The items of an array from the first one on, and what stands behind the array. -/
def parseItems : Nat → List Char → Option (List Value × List Char)
  | 0, _ => none
  | fuel + 1, cs => do
    let (item, cs) ← parseValue fuel cs
    match expect ']' cs with
    | some rest => return ([item], rest)
    | none => do
      let cs ← expect ',' cs
      let (items, rest) ← parseItems fuel cs
      return (item :: items, rest)

/-- The members of an object from the first one on, and what stands behind the object. -/
def parseMembers : Nat → List Char → Option (List (List Char × Value) × List Char)
  | 0, _ => none
  | fuel + 1, cs => do
    let cs ← expect '"' cs
    let (key, cs) ← stringBody fuel cs
    let cs ← expect ':' cs
    let (value, cs) ← parseValue fuel cs
    match expect '}' cs with
    | some rest => return ([(key, value)], rest)
    | none => do
      let cs ← expect ',' cs
      let (members, rest) ← parseMembers fuel cs
      return ((key, value) :: members, rest)

end

/-- Nothing but white space may follow. -/
def parse (cs : List Char) : Option Value := do
  let (v, rest) ← parseValue cs.length cs
  if skipWs rest = [] then some v else none

def quoted (t : List Char) : List Char := '"' :: (t ++ ['"'])

def brackets (ts : List (List Char)) : List Char := '[' :: ([','].intercalate ts ++ [']'])

def braces (ts : List (List Char)) : List Char := '{' :: ([','].intercalate ts ++ ['}'])

def member (key value : List Char) : List Char := '"' :: (key ++ '"' :: ':' :: value)

/-- The text spells the character inside a string. -/
structure SpellsChar (t : List Char) (c : Char) : Prop where
  ne_nil : t ≠ []
  body : ∀ fuel cs, stringBody (fuel + 1) (t ++ cs) =
    (stringBody fuel cs).map fun (s, rest) => (c :: s, rest)

/-- The text between two quotes spells the string. -/
def Spells (t s : List Char) : Prop :=
  ∀ fuel rest, t.length < fuel → stringBody fuel (t ++ '"' :: rest) = some (s, rest)

theorem exists_succ_of_lt {n fuel : Nat} (h : n < fuel) : ∃ fuel', fuel = fuel' + 1 ∧ n ≤ fuel' :=
  ⟨fuel - 1, by omega, by omega⟩

theorem spells_nil : Spells [] [] := by
  intro fuel rest hfuel
  cases fuel with
  | zero => cases hfuel
  | succ fuel => rfl

theorem Spells.cons {t ts s : List Char} {c : Char} (hc : SpellsChar t c) (hs : Spells ts s) :
    Spells (t ++ ts) (c :: s) := by
  intro fuel rest hfuel
  have hpos := List.length_pos_of_ne_nil hc.ne_nil
  rw [List.length_append] at hfuel
  obtain ⟨fuel, rfl, hfuel⟩ := exists_succ_of_lt hfuel
  rw [List.append_assoc, hc.body, hs fuel rest (by omega)]
  rfl

theorem spells_flatMap {α : Type} {f : α → List Char} {g : α → Char} (xs : List α)
    (h : ∀ x ∈ xs, SpellsChar (f x) (g x)) : Spells (xs.flatMap f) (xs.map g) := by
  induction xs with
  | nil => exact spells_nil
  | cons x xs ih =>
    exact Spells.cons (h x (by simp)) (ih fun y hy => h y (by simp [hy]))

theorem stringBody_of_stringChar {c d : Char} {cs cs' : List Char} (fuel : Nat) (hquote : c ≠ '"')
    (h : stringChar c cs = some (d, cs')) :
    stringBody (fuel + 1) (c :: cs) =
      (stringBody fuel cs').map fun (s, rest) => (d :: s, rest) := by
  simp only [stringBody, if_neg hquote, h, Option.bind_eq_bind, Option.bind_some]
  cases stringBody fuel cs' <;> rfl

theorem spellsChar_plain {c : Char} (h : Plain c) : SpellsChar [c] c :=
  ⟨by simp, fun fuel cs => stringBody_of_stringChar fuel h.1 (by
    rw [stringChar, if_neg h.2.1, if_pos h]; rfl)⟩

theorem spellsChar_escape {t : List Char} {c : Char}
    (h : ∀ cs, unescape (t ++ cs) = some (c, cs)) : SpellsChar ('\\' :: t) c :=
  ⟨by simp, fun fuel cs => stringBody_of_stringChar fuel (by decide) (by
    rw [stringChar, if_pos rfl]; exact h cs)⟩

theorem spellsChar_unicode {a b c d : Char} {unit : Nat}
    (h : codeUnit [a, b, c, d] = some (unit, [])) (hunit : unit < 0xD800 ∨ 0xE000 ≤ unit) :
    SpellsChar ['\\', 'u', a, b, c, d] (Char.ofNat unit) := by
  refine spellsChar_escape fun cs => ?_
  have hcode : codeUnit (a :: b :: c :: d :: cs) = some (unit, cs) := by
    simp only [codeUnit, Option.bind_eq_bind, Option.bind_eq_some_iff] at h ⊢
    obtain ⟨x, hx, y, hy, z, hz, v, hv, h⟩ := h
    cases h
    exact ⟨x, hx, y, hy, z, hz, v, hv, rfl⟩
  simp only [List.cons_append, List.nil_append, unescape, if_pos, unicode, hcode,
    Option.bind_eq_bind, Option.bind_some]
  rw [if_neg (by omega), if_neg (by omega)]
  rfl

theorem spells_plain {t : List Char} (h : ∀ c ∈ t, Plain c) : Spells t t := by
  have hspells := spells_flatMap (f := fun c => [c]) (g := id) t fun c hc =>
    spellsChar_plain (h c hc)
  simpa using hspells

/-- What stands behind a value does not go on with a number. -/
def Ended (rest : List Char) : Prop :=
  ∀ c ∈ rest.head?, isNumberChar c = false

def Opens (c : Char) : Prop := isWs c = false ∧ c ≠ ']' ∧ c ≠ '}'

instance : DecidablePred Opens := fun c =>
  inferInstanceAs (Decidable (isWs c = false ∧ c ≠ ']' ∧ c ≠ '}'))

/-- The text stands for the value wherever one is expected. -/
structure Reads (t : List Char) (v : Value) : Prop where
  opens : ∃ c t', t = c :: t' ∧ Opens c
  value : ∀ fuel rest, t.length ≤ fuel → Ended rest → parseValue fuel (t ++ rest) = some (v, rest)

theorem skipWs_of_opens {c : Char} (cs : List Char) (h : isWs c = false) :
    skipWs (c :: cs) = c :: cs := by
  simp [skipWs, h]

theorem parse_of_reads {t ws : List Char} {v : Value} (h : Reads t v)
    (hws : ∀ c ∈ ws, isWs c = true) : parse (t ++ ws) = some v := by
  have hended : Ended ws := by
    intro c hc
    have hc := hws c (List.mem_of_mem_head? hc)
    simp only [isWs, Bool.or_eq_true, beq_iff_eq] at hc
    rcases hc with ((rfl | rfl) | rfl) | rfl <;> rfl
  have hskip : skipWs ws = [] := List.dropWhile_eq_nil_iff.mpr hws
  rw [parse, h.value (t ++ ws).length ws (by simp) hended]
  simp [hskip]

theorem reads_str {t s : List Char} (h : Spells t s) :
    Reads (quoted t) (.str s) := by
  refine ⟨⟨'"', _, rfl, by decide⟩, fun fuel rest hfuel _ => ?_⟩
  simp only [quoted, List.length_cons, List.length_append, List.length_nil] at hfuel
  obtain ⟨fuel, rfl, hfuel⟩ := exists_succ_of_lt hfuel
  rw [quoted, List.cons_append, List.append_assoc, parseValue, skipWs_of_opens _ (by decide)]
  simp [h fuel rest (by omega)]

theorem Number.foldl_refused (t : List NumberChar) :
    t.foldl Number.next .refused = .refused := by
  induction t with
  | nil => rfl
  | cons c t ih =>
    rw [List.foldl_cons, show Number.next .refused c = .refused by cases c <;> rfl, ih]

theorem Number.ne_other_of_accepted {t : List NumberChar} {q : Number}
    (h : (t.foldl Number.next q).accepted = true) : ∀ c ∈ t, c ≠ .other := by
  induction t generalizing q with
  | nil => simp
  | cons c t ih =>
    intro d hd
    rcases List.mem_cons.mp hd with rfl | hd
    · rintro rfl
      rw [List.foldl_cons, show q.next .other = .refused by cases q <;> rfl,
        Number.foldl_refused] at h
      cases h
    · exact ih h d hd

theorem numberChar_of_isNumber {t : List Char} (h : isNumber t = true) :
    ∀ c ∈ t, isNumberChar c = true := by
  intro c hc
  exact decide_eq_true (Number.ne_other_of_accepted h _ (List.mem_map_of_mem hc))

theorem ne_of_numberChar {c d : Char} (hc : isNumberChar c = true)
    (hd : isNumberChar d = false) : c ≠ d := by
  rintro rfl
  rw [hc] at hd
  cases hd

theorem opens_of_numberChar {c : Char} (hc : isNumberChar c = true) : Opens c := by
  have hne := fun d => @ne_of_numberChar c d hc
  refine ⟨?_, hne ']' (by decide), hne '}' (by decide)⟩
  simp [isWs, hne ' ' (by decide), hne '\t' (by decide), hne '\n' (by decide),
    hne '\r' (by decide)]

theorem literal_of_numberChar {c : Char} (hc : isNumberChar c = true) (cs : List Char) :
    literal (c :: cs) = none := by
  have hne := fun d hd => (@ne_of_numberChar c d hc hd).symm
  simp [literal, List.cons_prefix_cons, hne 'n' (by decide), hne 't' (by decide),
    hne 'f' (by decide)]

theorem number_append {t rest : List Char} (h : isNumber t = true) (hended : Ended rest) :
    number (t ++ rest) = some (.num t, rest) := by
  have hchars := numberChar_of_isNumber h
  have htake : rest.takeWhile isNumberChar = [] ∧ rest.dropWhile isNumberChar = rest := by
    cases rest with
    | nil => exact ⟨rfl, rfl⟩
    | cons c rest => simp [hended c (by simp)]
  rw [number, List.takeWhile_append_of_pos hchars, List.dropWhile_append_of_pos hchars, htake.1,
    htake.2, List.append_nil, if_pos h]

theorem reads_num {t : List Char} (h : isNumber t = true) : Reads t (.num t) := by
  cases t with
  | nil => cases h
  | cons c t =>
    have hc := numberChar_of_isNumber h c (by simp)
    have hne := fun d => @ne_of_numberChar c d hc
    have hopens := opens_of_numberChar hc
    refine ⟨⟨c, t, rfl, hopens⟩, fun fuel rest hfuel hended => ?_⟩
    obtain ⟨fuel, rfl, _⟩ := exists_succ_of_lt (Nat.lt_of_lt_of_le (Nat.zero_lt_succ _) hfuel)
    rw [List.cons_append, parseValue, skipWs_of_opens _ hopens.1]
    simp only [if_neg (hne '"' (by decide)), if_neg (hne '[' (by decide)),
      if_neg (hne '{' (by decide)), literal_of_numberChar hc]
    exact number_append h hended

theorem ended_cons {c : Char} (h : isNumberChar c = false) (cs : List Char) : Ended (c :: cs) := by
  simpa [Ended] using h

theorem expect_cons {c d : Char} (h : isWs d = false) (cs : List Char) :
    expect c (d :: cs) = if d = c then some cs else none := by
  rw [expect, skipWs_of_opens cs h]

theorem parse_intercalate {β : Type} {R : List Char → β → Prop} {close : Char}
    {p : Nat → List Char → Option (List β × List Char)}
    (hlast : ∀ {t v fuel rest}, R t v → t.length ≤ fuel →
      p (fuel + 1) (t ++ close :: rest) = some ([v], rest))
    (hcons : ∀ {t v vs ts fuel rest}, R t v → t.length ≤ fuel → p fuel ts = some (vs, rest) →
      p (fuel + 1) (t ++ ',' :: ts) = some (v :: vs, rest))
    {ts : List (List Char)} {vs : List β} (h : List.Forall₂ R ts vs) (hne : ts ≠ [])
    {fuel : Nat} (rest : List Char) (hfuel : ([','].intercalate ts).length < fuel) :
    p fuel ([','].intercalate ts ++ close :: rest) = some (vs, rest) := by
  induction h generalizing fuel with
  | nil => exact absurd rfl hne
  | cons hv hvs ih =>
    obtain ⟨fuel, rfl, hle⟩ := exists_succ_of_lt hfuel
    cases hvs with
    | nil =>
      rw [List.intercalate_singleton] at hle ⊢
      exact hlast hv hle
    | cons hv' hvs' =>
      rw [List.intercalate_cons_cons] at hle ⊢
      simp only [List.length_append, List.length_cons, List.length_nil] at hle
      simp only [List.append_assoc, List.cons_append, List.nil_append]
      exact hcons hv (by omega) (ih (by simp) (by omega))

theorem parseItems_last {t rest : List Char} {v : Value} {fuel : Nat} (h : Reads t v)
    (hfuel : t.length ≤ fuel) : parseItems (fuel + 1) (t ++ ']' :: rest) = some ([v], rest) := by
  rw [parseItems, h.value fuel _ hfuel (ended_cons (by decide) _)]
  rfl

theorem parseItems_cons {t ts rest : List Char} {v : Value} {vs : List Value} {fuel : Nat}
    (h : Reads t v) (hfuel : t.length ≤ fuel) (hs : parseItems fuel ts = some (vs, rest)) :
    parseItems (fuel + 1) (t ++ ',' :: ts) = some (v :: vs, rest) := by
  rw [parseItems, h.value fuel _ hfuel (ended_cons (by decide) _)]
  simp [expect_cons (show isWs ',' = false by decide), hs]

def ReadsMember (t : List Char) (m : List Char × Value) : Prop :=
  ∃ key value, t = member key value ∧ Spells key m.1 ∧ Reads value m.2

theorem readsMember {key name value : List Char} {v : Value} (hkey : Spells key name)
    (hvalue : Reads value v) : ReadsMember (member key value) (name, v) :=
  ⟨key, value, rfl, hkey, hvalue⟩

theorem parseMembers_value {t rest : List Char} {m : List Char × Value} {fuel : Nat}
    (h : ReadsMember t m) (hfuel : t.length ≤ fuel) (hended : Ended rest) :
    parseMembers (fuel + 1) (t ++ rest) =
      match expect '}' rest with
      | some rest => some ([m], rest)
      | none => do
        let cs ← expect ',' rest
        let (members, rest) ← parseMembers fuel cs
        return (m :: members, rest) := by
  obtain ⟨key, value, rfl, hkey, hvalue⟩ := h
  simp only [member, List.length_cons, List.length_append] at hfuel
  simp only [member, List.cons_append, List.append_assoc, parseMembers,
    expect_cons (show isWs '"' = false by decide), expect_cons (show isWs ':' = false by decide),
    if_pos, Option.bind_eq_bind, Option.bind_some, hkey fuel _ (by omega),
    hvalue.value fuel rest (by omega) hended]
  rfl

theorem parseMembers_last {t rest : List Char} {m : List Char × Value} {fuel : Nat}
    (h : ReadsMember t m) (hfuel : t.length ≤ fuel) :
    parseMembers (fuel + 1) (t ++ '}' :: rest) = some ([m], rest) :=
  parseMembers_value h hfuel (ended_cons (by decide) rest)

theorem parseMembers_cons {t ts rest : List Char} {m : List Char × Value}
    {members : List (List Char × Value)} {fuel : Nat} (h : ReadsMember t m)
    (hfuel : t.length ≤ fuel) (hs : parseMembers fuel ts = some (members, rest)) :
    parseMembers (fuel + 1) (t ++ ',' :: ts) = some (m :: members, rest) := by
  rw [parseMembers_value h hfuel (ended_cons (by decide) ts)]
  simp [expect_cons (show isWs ',' = false by decide), hs]

theorem expect_intercalate {ts : List (List Char)} {t : List Char} {c close : Char}
    (ht : ∃ t', t = c :: t') (hws : isWs c = false) (hne : c ≠ close) (rest : List Char) :
    expect close ([','].intercalate (t :: ts) ++ rest) = none := by
  obtain ⟨t', rfl⟩ := ht
  rw [List.intercalate_cons_cons_left, List.cons_append, expect_cons hws, if_neg hne]

theorem reads_arr {ts : List (List Char)} {vs : List Value} (h : List.Forall₂ Reads ts vs) :
    Reads (brackets ts) (.arr vs) := by
  refine ⟨⟨'[', _, rfl, by decide⟩, fun fuel rest hfuel _ => ?_⟩
  simp only [brackets, List.length_cons, List.length_append, List.length_nil] at hfuel
  obtain ⟨fuel, rfl, hle⟩ := exists_succ_of_lt hfuel
  rw [brackets, List.cons_append, List.append_assoc, parseValue, skipWs_of_opens _ (by decide)]
  cases h with
  | nil => rfl
  | cons hv hvs =>
    have hitems := parse_intercalate parseItems_last parseItems_cons (List.Forall₂.cons hv hvs)
      (by simp) rest hle
    obtain ⟨c, t', ht, hc⟩ := hv.opens
    simp [expect_intercalate ⟨t', ht⟩ hc.1 hc.2.1, hitems]

theorem reads_obj {ts : List (List Char)} {members : List (List Char × Value)}
    (h : List.Forall₂ ReadsMember ts members) :
    Reads (braces ts) (.obj members) := by
  refine ⟨⟨'{', _, rfl, by decide⟩, fun fuel rest hfuel _ => ?_⟩
  simp only [braces, List.length_cons, List.length_append, List.length_nil] at hfuel
  obtain ⟨fuel, rfl, hle⟩ := exists_succ_of_lt hfuel
  rw [braces, List.cons_append, List.append_assoc, parseValue, skipWs_of_opens _ (by decide)]
  cases h with
  | nil => rfl
  | cons hm hms =>
    have hmembers := parse_intercalate parseMembers_last parseMembers_cons
      (List.Forall₂.cons hm hms) (by simp) rest hle
    obtain ⟨key, value, ht, _, _⟩ := hm
    simp [expect_intercalate ⟨_, ht⟩ (show isWs '"' = false by decide)
      (show '"' ≠ '}' by decide), hmembers]

end TimescalePrometheus.Lib.Json
