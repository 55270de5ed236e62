import TimescalePrometheus.Lib.Regex

/-!
Patterns as text, in the syntax that RE2 and PostgreSQL have in common; what only one of
them accepts, or reads in another way, is rejected. The text is read character by character
into tokens, and the tokens build the expression on a stack of open groups, so that adding
characters at an end of a pattern adds steps at an end of a run.
-/

namespace TimescalePrometheus.Lib.RegexText

open Lib.Regex

/-- The tokens of a pattern. -/
inductive Token
  | set (cs : CharSet)
  | bol
  | eol
  | bar
  | lparen
  | rparen
  | quantifier (min : Nat) (max : Option Nat)
  deriving DecidableEq

/-- A character that stands for itself or for a control character after a backslash. -/
def charEscape (c : Char) : Option Char :=
  if c.toNat < 128 && !c.isAlphanum then some c
  else
    match c with
    | 'n' => some '\n'
    | 't' => some '\t'
    | 'r' => some '\r'
    | 'f' => some (Char.ofNat 12)
    | 'v' => some (Char.ofNat 11)
    | 'a' => some (Char.ofNat 7)
    | _ => none

/-- Where the reader stands in a bracket expression. -/
inductive BracketMode
  | start
  | between
  | char (c : Char)
  /-- `c-` was read. -/
  | dash (c : Char)
  /-- `-` was read where no range can start. -/
  | lastDash
  /-- A backslash was read, after `c-` if there is a `c`. -/
  | escape (first : Option Char)
  | bracket
  | name (name : List Char)
  | nameEnd (name : List Char)
  deriving DecidableEq

/-- What a character does in brackets. -/
inductive BracketStep
  | more (items : List Item) (mode : BracketMode)
  | closed (items : List Item)

def singleton (c : Char) : Item := .range c c

def posixNames : List String :=
  ["alnum", "alpha", "blank", "cntrl", "digit", "graph", "lower", "print", "punct", "space",
    "upper", "xdigit"]

def startItem (items : List Item) (c : Char) : BracketStep :=
  match c with
  | '[' => .more items .bracket
  | '\\' => .more items (.escape none)
  | c => .more items (.char c)

def afterChar (items : List Item) (a c : Char) : BracketStep :=
  match c with
  | ']' => .closed (items ++ [singleton a])
  | '-' => .more items (.dash a)
  | c => startItem (items ++ [singleton a]) c

def endRange (items : List Item) (a c : Char) : Option BracketStep :=
  if a ≠ '-' ∧ a ≤ c then some (.more (items ++ [.range a c]) .between) else none

def bracketStep (items : List Item) : BracketMode → Char → Option BracketStep
  | .start, ']' => some (.more items (.char ']'))
  | .start, c => some (startItem items c)
  | .between, ']' => some (.closed items)
  | .between, '-' => some (.more items .lastDash)
  | .between, c => some (startItem items c)
  | .char a, c => some (afterChar items a c)
  | .dash a, ']' => some (.closed (items ++ [singleton a, singleton '-']))
  | .dash a, '\\' => some (.more items (.escape (some a)))
  | .dash _, '[' => none
  | .dash a, c => endRange items a c
  | .lastDash, ']' => some (.closed (items ++ [singleton '-']))
  | .lastDash, _ => none
  | .escape none, c =>
    match charEscape c with
    | some d => some (.more items (.char d))
    | none => if c ∈ ['d', 'w', 's'] then some (.more (items ++ [.named [c]]) .between) else none
  | .escape (some a), c => (charEscape c).bind (endRange items a)
  | .bracket, ':' => some (.more items (.name []))
  | .bracket, '.' => none
  | .bracket, '=' => none
  | .bracket, c => some (afterChar items '[' c)
  | .name name, ':' => some (.more items (.nameEnd name))
  | .name name, c => if c.isLower then some (.more items (.name (name ++ [c]))) else none
  | .nameEnd name, ']' =>
    if String.ofList name ∈ posixNames then some (.more (items ++ [.named name]) .between)
    else none
  | .nameEnd _, _ => none

/-- Where the reader stands in the text. -/
inductive Mode
  | normal
  | afterParen
  /-- After `(?`. -/
  | afterParenMark
  /-- A question mark here makes the quantifier lazy. -/
  | afterQuantifier
  | afterBrace
  | boundsMin (min : Nat)
  | boundsComma (min : Nat)
  | boundsMax (min max : Nat)
  | escape
  | bracketOpen
  | bracket (negated : Bool) (items : List Item) (mode : BracketMode)
  deriving DecidableEq

def normalStep : Char → List Token × Mode
  | '^' => ([.bol], .normal)
  | '$' => ([.eol], .normal)
  | '.' => ([.set .any], .normal)
  | '|' => ([.bar], .normal)
  | '(' => ([.lparen], .afterParen)
  | ')' => ([.rparen], .normal)
  | '*' => ([.quantifier 0 none], .afterQuantifier)
  | '+' => ([.quantifier 1 none], .afterQuantifier)
  | '?' => ([.quantifier 0 (some 1)], .afterQuantifier)
  | '{' => ([], .afterBrace)
  | '[' => ([], .bracketOpen)
  | '\\' => ([], .escape)
  | c => ([.set (.char c)], .normal)

def digit (c : Char) : Nat := c.toNat - '0'.toNat

/-- The largest bound that both engines take. -/
def dupMax : Nat := 255

def bounds (min : Nat) (max : Option Nat) : Option (List Token × Mode) :=
  if min ≤ dupMax ∧ max.all fun n => min ≤ n ∧ n ≤ dupMax then
    some ([.quantifier min max], .afterQuantifier)
  else none

def bracketMode (negated : Bool) (step : BracketStep) : List Token × Mode :=
  match step with
  | .more items mode => ([], .bracket negated items mode)
  | .closed items => ([.set (.bracket negated items)], .normal)

def lexStep : Mode → Char → Option (List Token × Mode)
  | .normal, c => some (normalStep c)
  | .afterParen, c => if c = '?' then some ([], .afterParenMark) else some (normalStep c)
  | .afterParenMark, c => if c = ':' then some ([], .normal) else none
  | .afterQuantifier, c => if c = '?' then some ([], .normal) else some (normalStep c)
  | .afterBrace, c =>
    if c.isDigit then some ([], .boundsMin (digit c))
    -- the brace was an ordinary character
    else some (.set (.char '{') :: (normalStep c).1, (normalStep c).2)
  | .boundsMin min, c =>
    if c.isDigit then some ([], .boundsMin (10 * min + digit c))
    else if c = ',' then some ([], .boundsComma min)
    else if c = '}' then bounds min (some min)
    else none
  | .boundsComma min, c =>
    if c.isDigit then some ([], .boundsMax min (digit c))
    else if c = '}' then bounds min none
    else none
  | .boundsMax min max, c =>
    if c.isDigit then some ([], .boundsMax min (10 * max + digit c))
    else if c = '}' then bounds min (some max)
    else none
  | .escape, c =>
    match charEscape c with
    | some d => some ([.set (.char d)], .normal)
    | none =>
      if c = 'A' then some ([.bol], .normal)
      else if c ∈ ['d', 'w', 's', 'D', 'W', 'S'] then
        some ([.set (.bracket false [.named [c]])], .normal)
      else none
  | .bracketOpen, c =>
    if c = '^' then some ([], .bracket true [] .start)
    else (bracketStep [] .start c).map (bracketMode false)
  | .bracket negated items mode, c => (bracketStep items mode c).map (bracketMode negated)

/-- What is left to emit at the end of the text. -/
def lexEnd : Mode → Option (List Token)
  | .normal | .afterParen | .afterQuantifier => some []
  | .afterBrace => some [.set (.char '{')]
  | _ => none

def lexFrom : Mode → List Char → Option (List Token)
  | mode, [] => lexEnd mode
  | mode, c :: text => do
    let (tokens, mode) ← lexStep mode c
    let rest ← lexFrom mode text
    return tokens ++ rest

/-- The tokens of a text. -/
def lex (text : List Char) : Option (List Token) := lexFrom .normal text

/-- An open group: its closed alternatives, the current one, and the last atom of it if a
quantifier may follow. -/
structure Frame where
  alts : Option Re := none
  branch : Re := .empty
  last : Option Re := none
  deriving DecidableEq

namespace Frame

def current (f : Frame) : Re :=
  match f.last with
  | none => f.branch
  | some a => .cat f.branch a

/-- The expression of a group. -/
def close (f : Frame) : Re :=
  match f.alts with
  | none => f.current
  | some r => .alt r f.current

/-- Something that can be repeated. -/
def atom (f : Frame) (a : Re) : Frame := { f with branch := f.current, last := some a }

/-- Something that cannot be repeated. -/
def anchor (f : Frame) (a : Re) : Frame := { f with branch := .cat f.current a, last := none }

def quantify (f : Frame) (a : Re) (min : Nat) (max : Option Nat) : Frame :=
  { f with branch := .cat f.branch (.rep a min max), last := none }

/-- A new branch begins. -/
def bar (f : Frame) : Frame := { alts := some f.close }

end Frame

/-- The innermost group comes first. -/
def emit : List Frame → Token → Option (List Frame)
  | f :: outer, .set cs => some (f.atom (.set cs) :: outer)
  | f :: outer, .bol => some (f.anchor .bol :: outer)
  | f :: outer, .eol => some (f.anchor .eol :: outer)
  | f :: outer, .bar => some (f.bar :: outer)
  | f :: outer, .lparen => some ({} :: f :: outer)
  | f :: g :: outer, .rparen => some (g.atom f.close :: outer)
  | f :: outer, .quantifier min max => f.last.map fun a => f.quantify a min max :: outer
  | _, _ => none

def build (frames : List Frame) (tokens : List Token) : Option (List Frame) :=
  tokens.foldlM emit frames

def finish : List Frame → Option Re
  | [f] => some f.close
  | _ => none

/-- None if the text is no pattern. -/
def parse (text : List Char) : Option Re := do
  let tokens ← lex text
  let frames ← build [{}] tokens
  finish frames

theorem lexStep_of_lexEnd {mode : Mode} {tokens : List Token} (h : lexEnd mode = some tokens)
    {c : Char} (hc : c = '$' ∨ c = ')') :
    lexStep mode c = some (tokens ++ (normalStep c).1, (normalStep c).2) := by
  rcases hc with rfl | rfl
  all_goals
    cases mode with
    | normal | afterParen | afterQuantifier | afterBrace =>
      cases h
      rfl
    | afterParenMark | boundsMin | boundsComma | boundsMax | escape | bracketOpen | bracket =>
      cases h

theorem lexFrom_append {c : Char} (hc : c = '$' ∨ c = ')') (rest : List Char) {mode : Mode}
    {text : List Char} {tokens : List Token} (h : lexFrom mode text = some tokens) :
    lexFrom mode (text ++ c :: rest) = (lex (c :: rest)).map (tokens ++ ·) := by
  induction text generalizing mode tokens with
  | nil =>
    rw [List.nil_append, lexFrom, lexStep_of_lexEnd h hc, lex, lexFrom, lexStep]
    simp only [Option.bind_eq_bind, Option.bind_some, Option.pure_def]
    cases lexFrom (normalStep c).2 rest with
    | none => rfl
    | some more => simp
  | cons d text ih =>
    simp only [lexFrom, Option.bind_eq_bind, Option.bind_eq_some_iff, Option.pure_def,
      Option.some.injEq] at h
    obtain ⟨⟨first, mode'⟩, hstep, more, hmore, rfl⟩ := h
    rw [List.cons_append, lexFrom, hstep]
    simp only [Option.bind_eq_bind, Option.bind_some, Option.pure_def, ih hmore]
    cases lex (c :: rest) with
    | none => rfl
    | some tokens => simp

theorem lex_append {c : Char} (hc : c = '$' ∨ c = ')') {text rest : List Char}
    {tokens more : List Token} (h : lex text = some tokens) (hrest : lex (c :: rest) = some more) :
    lex (text ++ c :: rest) = some (tokens ++ more) := by
  rw [lex, lexFrom_append hc rest h, hrest]
  rfl

theorem build_append (frames : List Frame) (tokens more : List Token) :
    build frames (tokens ++ more) = (build frames tokens).bind (build · more) :=
  List.foldlM_append ..

theorem emit_append {frames frames' : List Frame} {t : Token} (h : emit frames t = some frames')
    (base : List Frame) : emit (frames ++ base) t = some (frames' ++ base) := by
  cases frames with
  | nil => cases t <;> cases h
  | cons f outer =>
    cases t with
    | set cs | bol | eol | bar | lparen =>
      cases h
      rfl
    | rparen =>
      cases outer with
      | nil => cases h
      | cons g outer =>
        cases h
        rfl
    | quantifier min max =>
      obtain ⟨a, hlast, rfl⟩ := Option.map_eq_some_iff.mp h
      exact Option.map_eq_some_iff.mpr ⟨a, hlast, rfl⟩

theorem build_base {frames frames' : List Frame} {tokens : List Token}
    (h : build frames tokens = some frames') (base : List Frame) :
    build (frames ++ base) tokens = some (frames' ++ base) := by
  induction tokens generalizing frames with
  | nil =>
    cases h
    rfl
  | cons t tokens ih =>
    simp only [build, List.foldlM_cons, Option.bind_eq_bind, Option.bind_eq_some_iff] at h ⊢
    obtain ⟨next, hstep, h⟩ := h
    exact ⟨next ++ base, emit_append hstep base, ih h⟩

/-- A relation between outermost groups that every step keeps. -/
structure Simulation (R : Frame → Frame → Prop) : Prop where
  last : ∀ {f g : Frame}, R f g → f.last = g.last
  atom : ∀ {f g : Frame}, R f g → ∀ a, R (f.atom a) (g.atom a)
  anchor : ∀ {f g : Frame}, R f g → ∀ a, R (f.anchor a) (g.anchor a)
  quantify : ∀ {f g : Frame}, R f g → ∀ a min max, R (f.quantify a min max) (g.quantify a min max)
  bar : ∀ {f g : Frame}, R f g → R f.bar g.bar

theorem Simulation.emit {R : Frame → Frame → Prop} (hR : Simulation R) {f g : Frame} (h : R f g)
    {inner frames : List Frame} {t : Token} (hstep : emit (inner ++ [f]) t = some frames) :
    ∃ inner' f' g', frames = inner' ++ [f'] ∧ emit (inner ++ [g]) t = some (inner' ++ [g']) ∧
      R f' g' := by
  cases inner with
  | nil =>
    cases t with
    | set cs =>
      cases hstep
      exact ⟨[], _, _, rfl, rfl, hR.atom h _⟩
    | bol =>
      cases hstep
      exact ⟨[], _, _, rfl, rfl, hR.anchor h _⟩
    | eol =>
      cases hstep
      exact ⟨[], _, _, rfl, rfl, hR.anchor h _⟩
    | bar =>
      cases hstep
      exact ⟨[], _, _, rfl, rfl, hR.bar h⟩
    | lparen =>
      cases hstep
      exact ⟨[{}], f, g, rfl, rfl, h⟩
    | rparen => cases hstep
    | quantifier min max =>
      obtain ⟨a, hlast, rfl⟩ := Option.map_eq_some_iff.mp hstep
      refine ⟨[], _, _, rfl, Option.map_eq_some_iff.mpr ⟨a, ?_, rfl⟩, hR.quantify h a min max⟩
      rw [← hR.last h, hlast]
  | cons top inner =>
    cases t with
    | set cs | bol | eol | bar =>
      cases hstep
      exact ⟨_ :: inner, f, g, rfl, rfl, h⟩
    | lparen =>
      cases hstep
      exact ⟨{} :: top :: inner, f, g, rfl, rfl, h⟩
    | rparen =>
      cases inner with
      | nil =>
        cases hstep
        exact ⟨[], _, _, rfl, rfl, hR.atom h _⟩
      | cons next inner =>
        cases hstep
        exact ⟨_ :: inner, f, g, rfl, rfl, h⟩
    | quantifier min max =>
      obtain ⟨a, hlast, rfl⟩ := Option.map_eq_some_iff.mp hstep
      exact ⟨_ :: inner, f, g, rfl, Option.map_eq_some_iff.mpr ⟨a, hlast, rfl⟩, h⟩

theorem Simulation.build {R : Frame → Frame → Prop} (hR : Simulation R) {f g : Frame} (h : R f g)
    {inner frames : List Frame} {tokens : List Token}
    (hrun : build (inner ++ [f]) tokens = some frames) :
    ∃ inner' f' g', frames = inner' ++ [f'] ∧ build (inner ++ [g]) tokens = some (inner' ++ [g']) ∧
      R f' g' := by
  induction tokens generalizing inner f g with
  | nil =>
    cases hrun
    exact ⟨inner, f, g, rfl, rfl, h⟩
  | cons t tokens ih =>
    simp only [RegexText.build, List.foldlM_cons, Option.bind_eq_bind,
      Option.bind_eq_some_iff] at hrun
    obtain ⟨next, hstep, hrun⟩ := hrun
    obtain ⟨inner', f', g', rfl, hstep', h'⟩ := hR.emit h hstep
    obtain ⟨inner₂, f₂, g₂, rfl, hrun', h₂⟩ := ih h' hrun
    refine ⟨inner₂, f₂, g₂, rfl, ?_, h₂⟩
    simp only [RegexText.build, List.foldlM_cons, hstep', Option.bind_eq_bind, Option.bind_some]
    exact hrun'

theorem Simulation.build_single {R : Frame → Frame → Prop} (hR : Simulation R) {f g f' : Frame}
    (h : R f g) {tokens : List Token} (hrun : RegexText.build [f] tokens = some [f']) :
    ∃ g', RegexText.build [g] tokens = some [g'] ∧ R f' g' := by
  have hrun : RegexText.build ([] ++ [f]) tokens = some [f'] := hrun
  obtain ⟨inner, f₂, g', hframes, hrun', h'⟩ := hR.build h hrun
  cases inner with
  | nil =>
    cases hframes
    exact ⟨g', hrun', h'⟩
  | cons top inner => simp at hframes

theorem parse_eq_some_iff {text : List Char} {r : Re} :
    parse text = some r ↔
      ∃ tokens f, lex text = some tokens ∧ build [{}] tokens = some [f] ∧ f.close = r := by
  simp only [parse, Option.bind_eq_bind, Option.bind_eq_some_iff]
  constructor
  · rintro ⟨tokens, hlex, frames, hbuild, hfinish⟩
    match frames, hbuild, hfinish with
    | [f], hbuild, hfinish => exact ⟨tokens, f, hlex, hbuild, Option.some.inj hfinish⟩
  · rintro ⟨tokens, f, hlex, hbuild, rfl⟩
    exact ⟨tokens, hlex, [f], hbuild, rfl⟩

/-- The anchor at the start of the first alternative of the group. -/
def Frame.lead (f : Frame) : Frame :=
  match f.alts with
  | none => { f with branch := f.branch.lead }
  | some r => { f with alts := some r.lead }

theorem Frame.close_lead (f : Frame) : f.lead.close = f.close.lead := by
  obtain ⟨alts, branch, last⟩ := f
  cases alts <;> cases last <;> rfl

theorem Frame.alts_lead {f : Frame} (h : f.alts = none) : f.lead.alts = none := by
  unfold Frame.lead
  rw [h]

theorem simulation_lead : Simulation fun f g => g = f.lead where
  last := by
    rintro ⟨alts, branch, last⟩ _ rfl
    cases alts <;> rfl
  atom := by
    rintro ⟨alts, branch, last⟩ _ rfl a
    cases alts <;> cases last <;> rfl
  anchor := by
    rintro ⟨alts, branch, last⟩ _ rfl a
    cases alts <;> cases last <;> rfl
  quantify := by
    rintro ⟨alts, branch, last⟩ _ rfl a min max
    cases alts <;> rfl
  bar := by
    rintro f _ rfl
    rw [Frame.bar, Frame.close_lead]
    rfl

theorem build_bol {tokens : List Token} {f : Frame} (h : build [{}] tokens = some [f]) :
    build [{}] (.bol :: tokens) = some [f.lead] := by
  obtain ⟨g, hrun, rfl⟩ := simulation_lead.build_single rfl h
  exact hrun

theorem build_eol {tokens : List Token} {f : Frame} (h : build [{}] tokens = some [f]) :
    build [{}] (tokens ++ [.eol]) = some [f.anchor .eol] := by
  rw [build_append, h]
  rfl

theorem lex_bol {text : List Char} {tokens : List Token} (h : lex text = some tokens) :
    lex ('^' :: text) = some (.bol :: tokens) := by
  rw [lex, lexFrom]
  have hstep : lexFrom .normal text = some tokens := h
  simp [lexStep, normalStep, hstep]

theorem exists_of_lex_bol {text : List Char} {tokens : List Token}
    (hhead : text.head? = some '^') (h : lex text = some tokens) :
    ∃ rest, tokens = .bol :: rest := by
  cases text with
  | nil => cases hhead
  | cons c text =>
    obtain rfl : c = '^' := Option.some.inj hhead
    simp only [lex, lexFrom, lexStep, normalStep, Option.bind_eq_bind, Option.bind_some,
      Option.bind_eq_some_iff, Option.pure_def, Option.some.injEq] at h
    obtain ⟨rest, -, rfl⟩ := h
    exact ⟨rest, rfl⟩

theorem lex_eol {text : List Char} {tokens : List Token} (h : lex text = some tokens) :
    lex (text ++ ['$']) = some (tokens ++ [.eol]) :=
  lex_append (.inl rfl) h rfl

theorem parse_bol {text : List Char} {r : Re} (h : parse text = some r) :
    parse ('^' :: text) = some r.lead := by
  obtain ⟨tokens, f, hlex, hbuild, rfl⟩ := parse_eq_some_iff.mp h
  exact parse_eq_some_iff.mpr ⟨_, _, lex_bol hlex, build_bol hbuild, f.close_lead⟩

theorem matchesBetween_anchor_eol (f : Frame) {e : Engine} {s : List Char} {i j : Nat} :
    MatchesBetween e s true (f.anchor .eol).close i j ↔
      MatchesFrom e s (f.anchor .eol).close i j := by
  have hend : ∀ {r : Re}, Matches e s (.cat r .eol) i j → true = true → j = s.length :=
    fun h _ => ((matches_cat_eol _).mp h).2
  obtain ⟨alts, branch, last⟩ := f
  cases alts with
  | none => exact and_congr_right fun _ => and_iff_left_of_imp hend
  | some r => exact or_congr_right (and_iff_left_of_imp hend)

theorem simulation_single : Simulation fun f g => f = g ∧ ∀ a b, f.branch ≠ .alt a b where
  last := by
    rintro f _ ⟨rfl, -⟩
    rfl
  atom := by
    rintro ⟨alts, branch, last⟩ _ ⟨rfl, h⟩ _
    cases last with
    | none => exact ⟨rfl, h⟩
    | some c => exact ⟨rfl, fun a b => Re.noConfusion⟩
  anchor := by
    rintro f _ ⟨rfl, -⟩ _
    exact ⟨rfl, fun a b => Re.noConfusion⟩
  quantify := by
    rintro f _ ⟨rfl, -⟩ _ _ _
    exact ⟨rfl, fun a b => Re.noConfusion⟩
  bar := by
    rintro f _ ⟨rfl, -⟩
    exact ⟨rfl, fun a b => Re.noConfusion⟩

theorem current_ne_alt {tokens : List Token} {f : Frame} (h : build [{}] tokens = some [f])
    (a b : Re) : f.current ≠ .alt a b := by
  obtain ⟨_, -, rfl, hbranch⟩ := simulation_single.build_single ⟨rfl, fun _ _ => Re.noConfusion⟩ h
  obtain ⟨alts, branch, last⟩ := f
  cases last with
  | none => exact hbranch a b
  | some c => exact Re.noConfusion

theorem matchesFrom_anchor_eol {f : Frame} (hf : ∀ a b, f.current ≠ .alt a b) {e : Engine}
    {s : List Char} {i j : Nat} :
    MatchesFrom e s (f.anchor .eol).close i j ↔ MatchesBetween e s true f.close i j := by
  have hend : Matches e s (.cat f.current .eol) i j ↔
      Matches e s f.current i j ∧ (true = true → j = s.length) := by
    rw [matches_cat_eol]
    simp
  obtain ⟨alts, branch, last⟩ := f
  cases alts with
  | none => exact (and_congr_right fun _ => hend).trans (matchesBetween_of_single hf).symm
  | some r => exact or_congr_right hend

theorem lex_enclosed {text : List Char} {tokens : List Token} (h : lex text = some tokens) :
    lex ("^(?:".toList ++ text ++ ")$".toList) =
      some (.bol :: .lparen :: (tokens ++ [.rparen, .eol])) := by
  have hopen : "^(?:".toList = ['^', '(', '?', ':'] := rfl
  have hclose : ")$".toList = [')', '$'] := rfl
  have hrest : lexFrom .normal (text ++ [')', '$']) = some (tokens ++ [.rparen, .eol]) :=
    lex_append (.inr rfl) h rfl
  rw [hopen, hclose]
  simp [lex, lexFrom, lexStep, normalStep, hrest]

theorem search_parse_enclosed {text : List Char} {r : Re} (h : parse text = some r) :
    ∃ r', parse ("^(?:".toList ++ text ++ ")$".toList) = some r' ∧
      ∀ (e : Engine) (s : List Char), Search e r' s ↔ Matches e s r 0 s.length := by
  obtain ⟨tokens, f, hlex, hbuild, rfl⟩ := parse_eq_some_iff.mp h
  let outer : Frame := ({} : Frame).anchor .bol
  have hinner : build [{}, outer] tokens = some [f, outer] := build_base hbuild [outer]
  have hframe : build [{}] (.bol :: .lparen :: (tokens ++ [.rparen, .eol])) =
      some [(outer.atom f.close).anchor .eol] := by
    have hrun : build [{}, outer] (tokens ++ [.rparen, .eol]) =
        some [(outer.atom f.close).anchor .eol] := by
      rw [build_append, hinner]
      rfl
    exact hrun
  exact ⟨_, parse_eq_some_iff.mpr ⟨_, _, lex_enclosed hlex, hframe, rfl⟩,
    fun e s => search_enclosed f.close⟩

def Frame.firstStartsBol (f : Frame) : Bool :=
  match f.alts with
  | none => f.branch.startsBol
  | some r => r.firstStartsBol

theorem Frame.startsBol_current {f : Frame} (h : f.branch.startsBol = true) :
    f.current.startsBol = true := by
  unfold Frame.current
  cases f.last with
  | none => exact h
  | some a => simp [Re.startsBol, h]

theorem Frame.firstStartsBol_close {f : Frame} (h : f.firstStartsBol = true) :
    f.close.firstStartsBol = true := by
  obtain ⟨alts, branch, last⟩ := f
  cases alts with
  | none => exact firstStartsBol_of_startsBol (Frame.startsBol_current h)
  | some r => exact h

theorem simulation_firstStartsBol : Simulation fun f g => f = g ∧ f.firstStartsBol = true where
  last := by
    rintro f _ ⟨rfl, -⟩
    rfl
  atom := by
    rintro ⟨_ | r, branch, last⟩ _ ⟨rfl, h⟩ a
    · exact ⟨rfl, Frame.startsBol_current h⟩
    · exact ⟨rfl, h⟩
  anchor := by
    rintro ⟨_ | r, branch, last⟩ _ ⟨rfl, h⟩ a
    · exact ⟨rfl, Bool.or_eq_true_iff.mpr (.inl (Frame.startsBol_current h))⟩
    · exact ⟨rfl, h⟩
  quantify := by
    rintro ⟨_ | r, branch, last⟩ _ ⟨rfl, h⟩ a min max
    · exact ⟨rfl, Bool.or_eq_true_iff.mpr (.inl h)⟩
    · exact ⟨rfl, h⟩
  bar := by
    rintro f _ ⟨rfl, h⟩
    exact ⟨rfl, Frame.firstStartsBol_close h⟩

theorem firstStartsBol_of_build {tokens : List Token} {f : Frame}
    (h : build [{}] (.bol :: tokens) = some [f]) : f.firstStartsBol = true := by
  have hrun : build [({} : Frame).anchor .bol] tokens = some [f] := h
  obtain ⟨_, -, rfl, hstarts⟩ := simulation_firstStartsBol.build_single ⟨rfl, rfl⟩ hrun
  exact hstarts

theorem startsBol_of_single {tokens : List Token} {f : Frame}
    (h : build [{}] (.bol :: tokens) = some [f]) (halts : f.alts = none) :
    f.close.startsBol = true := by
  have hstarts := firstStartsBol_of_build h
  obtain ⟨alts, branch, last⟩ := f
  obtain rfl : alts = none := halts
  exact Frame.startsBol_current hstarts

theorem exists_anchor_of_build {tokens : List Token} {f : Frame}
    (h : build [{}] (tokens ++ [.eol]) = some [f]) : ∃ g : Frame, f = g.anchor .eol := by
  rw [build_append, Option.bind_eq_some_iff] at h
  obtain ⟨frames, -, hlast⟩ := h
  cases frames with
  | nil => cases hlast
  | cons g outer =>
    cases hlast
    exact ⟨g, rfl⟩

theorem endsEol_of_single {tokens : List Token} {f : Frame}
    (h : build [{}] (tokens ++ [.eol]) = some [f]) (halts : f.alts = none) :
    f.close.endsEol = true := by
  obtain ⟨⟨alts, branch, last⟩, rfl⟩ := exists_anchor_of_build h
  obtain rfl : alts = none := halts
  rfl

end TimescalePrometheus.Lib.RegexText
