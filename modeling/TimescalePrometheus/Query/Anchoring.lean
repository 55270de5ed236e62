import TimescalePrometheus.Lib.RegexText
import TimescalePrometheus.Query.SubQueries

/-!
`anchorValue` edits a pattern as text, by its first and its last character.
-/

namespace TimescalePrometheus.Query.Anchoring

open Lib.Regex Lib.RegexText Query.SubQueries

/-- The caret, unless it is there. -/
def addBol (text : List Char) : List Char :=
  if text.head? = some '^' then text else '^' :: text

/-- The dollar sign, unless it is there. -/
def addEol (text : List Char) : List Char :=
  if text.getLast? = some '$' then text else text ++ ['$']

theorem toList_anchorValue (str : String) :
    (anchorValue str).toList = addBol (addEol str.toList) := by
  unfold anchorValue addEol addBol
  cases htext : str.toList with
  | nil => simp
  | cons c text =>
    rcases eq_or_ne c '^' with rfl | hfirst
    · by_cases hlast : ('^' :: text).getLast? = some '$' <;> simp [hlast, htext]
    · by_cases hlast : (c :: text).getLast? = some '$' <;> simp [hfirst, hlast, htext]

/-- The text does not end with a dollar sign that stands for itself. -/
def endsAtEol (text : List Char) : Bool :=
  text.getLast? ≠ some '$' || (lex text).any fun tokens => tokens.getLast? = some .eol

theorem parse_addEol {text : List Char} {r : Re} (h : parse text = some r) :
    ∃ r', parse (addEol text) = some r' ∧ ∀ (e : Engine) (s : List Char) (i j : Nat),
      MatchesFrom e s r' i j ↔ MatchesBetween e s (endsAtEol text) r i j := by
  obtain ⟨tokens, f, hlex, hbuild, rfl⟩ := parse_eq_some_iff.mp h
  unfold addEol endsAtEol
  by_cases hlast : text.getLast? = some '$'
  · refine ⟨f.close, by rw [if_pos hlast]; exact h, fun e s i j => ?_⟩
    by_cases heol : tokens.getLast? = some .eol
    · obtain ⟨rest, rfl⟩ := List.getLast?_eq_some_iff.mp heol
      obtain ⟨g, rfl⟩ := exists_anchor_of_build hbuild
      simpa [hlast, hlex] using (matchesBetween_anchor_eol g).symm
    · simpa [hlast, hlex, heol] using matchesBetween_false.symm
  · refine ⟨(f.anchor .eol).close, ?_, fun e s i j => ?_⟩
    · rw [if_neg hlast]
      exact parse_eq_some_iff.mpr ⟨_, _, lex_eol hlex, build_eol hbuild, rfl⟩
    · simpa [hlast] using matchesFrom_anchor_eol (current_ne_alt hbuild)

theorem parse_addBol {text : List Char} {r : Re} (h : parse text = some r) :
    ∃ r', parse (addBol text) = some r' ∧ ∀ (e : Engine) (s : List Char) (i j : Nat),
      Matches e s r' i j ↔ MatchesFrom e s r i j := by
  unfold addBol
  split
  · rename_i hfirst
    obtain ⟨tokens, f, hlex, hbuild, rfl⟩ := parse_eq_some_iff.mp h
    obtain ⟨rest, rfl⟩ := exists_of_lex_bol hfirst hlex
    have hstarts := Frame.firstStartsBol_close (firstStartsBol_of_build hbuild)
    exact ⟨_, h, fun e s i j => matches_iff_matchesFrom hstarts⟩
  · have hlead := parse_bol h
    obtain ⟨tokens, f, hlex, hbuild, hclose⟩ := parse_eq_some_iff.mp hlead
    obtain ⟨rest, rfl⟩ := exists_of_lex_bol rfl hlex
    have hstarts := Frame.firstStartsBol_close (firstStartsBol_of_build hbuild)
    rw [hclose] at hstarts
    exact ⟨_, hlead, fun e s i j => (matches_iff_matchesFrom hstarts).trans matchesFrom_lead⟩

theorem parse_anchorValue {str : String} {r : Re} (h : parse str.toList = some r) :
    ∃ r', parse (anchorValue str).toList = some r' ∧ ∀ (e : Engine) (s : List Char) (i j : Nat),
      Matches e s r' i j ↔ MatchesBetween e s (endsAtEol str.toList) r i j := by
  obtain ⟨r₁, hparse₁, hmatches₁⟩ := parse_addEol h
  obtain ⟨r₂, hparse₂, hmatches₂⟩ := parse_addBol hparse₁
  rw [toList_anchorValue]
  exact ⟨r₂, hparse₂, fun e s i j => (hmatches₂ e s i j).trans (hmatches₁ e s i j)⟩

section Engines

-- the meaning of `\d` and the other classes with a name
variable (named : List Char → Char → Bool)

/-- The dot of Go's `regexp` matches everything but a newline. -/
def re2 : Engine := ⟨(· ≠ '\n'), named⟩

/-- The dot matches a newline. -/
def postgres : Engine := ⟨fun _ => true, named⟩

/-- The operator `~`. -/
def DatabaseMatches (pattern s : String) : Prop :=
  ∃ r, parse pattern.toList = some r ∧ Search (postgres named) r s.toList

/-- A matcher compiles `^(?:...)$`. -/
def MatcherMatches (pattern s : String) : Prop :=
  ∃ r, parse ("^(?:" ++ pattern ++ ")$").toList = some r ∧ Search (re2 named) r s.toList

/-- An alternative of the pattern matches in part: the first from the start of the string on, the
last up to its end, unless the pattern ends with a dollar sign that stands for itself. -/
def MatchesInPart (pattern s : String) : Prop :=
  ∃ r, parse pattern.toList = some r ∧ ∃ i j, i ≤ s.toList.length ∧
    MatchesBetween (postgres named) s.toList (endsAtEol pattern.toList) r i j

/-- The pattern has no bar outside its groups. -/
def single (pattern : String) : Bool :=
  match parse pattern.toList with
  | some (.alt _ _) | none => false
  | some _ => true

theorem ne_alt_of_single {pattern : String} {r : Re} (h : single pattern = true)
    (hparse : parse pattern.toList = some r) (a b : Re) : r ≠ .alt a b := by
  rintro rfl
  simp [single, hparse] at h

variable {named}

theorem matcherMatches_iff {pattern s : String} {r : Re} (h : parse pattern.toList = some r)
    (hs : '\n' ∉ s.toList) :
    MatcherMatches named pattern s ↔ Matches (postgres named) s.toList r 0 s.toList.length := by
  obtain ⟨r', hparse, hsearch⟩ := search_parse_enclosed h
  have hagree : Matches (re2 named) s.toList r = Matches (postgres named) s.toList r := by
    have hnamed : (re2 named).named = (postgres named).named := rfl
    refine matches_congr hnamed (fun c hc => ?_) r
    exact decide_eq_true fun hnewline => hs (hnewline ▸ hc)
  have htext : ("^(?:" ++ pattern ++ ")$").toList =
      "^(?:".toList ++ pattern.toList ++ ")$".toList := by simp
  unfold MatcherMatches
  rw [htext, hparse, ← hagree]
  simp [hsearch]

/-- For a pattern that parses and a string without newline, the database finds what an alternative
matches in part. So it agrees with the matcher exactly if such a string is matched as a whole,
which it always is by a pattern of one alternative without a dollar sign of its own at its end. -/
theorem anchorValue_matches_iff {str s : String} (hvalid : (parse str.toList).isSome)
    (hs : '\n' ∉ s.toList) :
    (DatabaseMatches named (anchorValue str) s ↔ MatchesInPart named str s) ∧
      ((DatabaseMatches named (anchorValue str) s ↔ MatcherMatches named str s) ↔
        (MatchesInPart named str s → MatcherMatches named str s)) ∧
      (single str = true → endsAtEol str.toList = true →
        (DatabaseMatches named (anchorValue str) s ↔ MatcherMatches named str s)) := by
  obtain ⟨r, hparse⟩ := Option.isSome_iff_exists.mp hvalid
  obtain ⟨r', hparse', hmatches⟩ := parse_anchorValue hparse
  have hpart : DatabaseMatches named (anchorValue str) s ↔ MatchesInPart named str s := by
    simp [DatabaseMatches, MatchesInPart, Search, hparse, hparse', hmatches]
  have hmatcher : MatcherMatches named str s ↔ _ := matcherMatches_iff hparse hs
  have hwhole : MatcherMatches named str s → MatchesInPart named str s := fun h =>
    ⟨r, hparse, 0, _, Nat.zero_le _, matchesBetween_whole (hmatcher.mp h)⟩
  refine ⟨hpart, ?_, fun hsingle hend => ?_⟩
  · rw [hpart]
    exact ⟨Iff.mp, fun h => ⟨h, hwhole⟩⟩
  · rw [hpart]
    refine ⟨?_, hwhole⟩
    rintro ⟨_, hr, i, j, -, h⟩
    obtain rfl := Option.some.inj (hparse.symm.trans hr)
    rw [hend, matchesBetween_of_single (ne_alt_of_single hsingle hparse)] at h
    obtain ⟨rfl, h, hj⟩ := h
    rw [hmatcher, ← hj rfl]
    exact h

theorem anchorValue_matches_iff_group :
    (DatabaseMatches (fun _ _ => false) (anchorValue "(a|b)+") "ab" ↔
      MatcherMatches (fun _ _ => false) "(a|b)+" "ab") ∧
    (DatabaseMatches (fun _ _ => false) (anchorValue ".*|b") "ab" ↔
      MatchesInPart (fun _ _ => false) ".*|b" "ab") := by
  have hgroup : (parse "(a|b)+".toList).isSome = true := by decide
  have hbar : (parse ".*|b".toList).isSome = true := by decide
  exact ⟨(anchorValue_matches_iff hgroup (by decide)).2.2 (by decide) (by decide),
    (anchorValue_matches_iff hbar (by decide)).1⟩

end Engines

/-- Every alternative of the pattern starts with `^` and ends with `$`. -/
def anchored (pattern : String) : Bool :=
  match parse pattern.toList with
  | some r => r.startsBol && r.endsEol
  | none => false

/-- The tokens of the text are one alternative. -/
structure OneBranch (text : List Char) (tokens : List Token) (f : Frame) : Prop where
  lex : lex text = some tokens
  build : build [{}] tokens = some [f]
  alts : f.alts = none

theorem OneBranch.addEol {text : List Char} {tokens : List Token} {f : Frame}
    (h : OneBranch text tokens f)
    (hdollar : text.getLast? = some '$' → ∃ rest, tokens = rest ++ [.eol]) :
    ∃ rest f', OneBranch (addEol text) (rest ++ [.eol]) f' := by
  unfold Anchoring.addEol
  split
  · rename_i hlast
    obtain ⟨rest, rfl⟩ := hdollar hlast
    exact ⟨rest, f, h⟩
  · exact ⟨tokens, f.anchor .eol, lex_eol h.lex, build_eol h.build, h.alts⟩

theorem OneBranch.addBol {text : List Char} {tokens : List Token} {f : Frame}
    (h : OneBranch text (tokens ++ [.eol]) f) :
    ∃ rest more f', OneBranch (addBol text) (.bol :: rest) f' ∧ .bol :: rest = more ++ [.eol] := by
  unfold Anchoring.addBol
  split
  · rename_i hfirst
    obtain ⟨rest, hrest⟩ := exists_of_lex_bol hfirst h.lex
    exact ⟨rest, tokens, f, hrest ▸ h, hrest.symm⟩
  · exact ⟨tokens ++ [.eol], .bol :: tokens, f.lead,
      ⟨lex_bol h.lex, build_bol h.build, Frame.alts_lead h.alts⟩, rfl⟩

/-- A pattern without a bar outside its groups is anchored by the edit, unless it ends with
a dollar sign that stands for itself. -/
theorem anchored_anchorValue {str : String} {tokens : List Token} {f : Frame}
    (h : OneBranch str.toList tokens f)
    (hdollar : str.toList.getLast? = some '$' → ∃ rest, tokens = rest ++ [.eol]) :
    anchored (anchorValue str) = true := by
  obtain ⟨_, _, h₁⟩ := h.addEol hdollar
  obtain ⟨rest, more, f', h₂, hends⟩ := h₁.addBol
  have hparse : parse (anchorValue str).toList = some f'.close := by
    rw [toList_anchorValue]
    exact parse_eq_some_iff.mpr ⟨_, f', h₂.lex, h₂.build, rfl⟩
  rw [anchored, hparse]
  exact Bool.and_eq_true_iff.mpr ⟨startsBol_of_single h₂.build h₂.alts,
    endsEol_of_single (hends ▸ h₂.build) h₂.alts⟩

theorem anchored_anchorValue_group : anchored (anchorValue "(a|b)c") = true :=
  anchored_anchorValue ⟨(by decide : lex "(a|b)c".toList = some [.lparen, .set (.char 'a'), .bar,
    .set (.char 'b'), .rparen, .set (.char 'c')]), rfl, rfl⟩ fun h => absurd h (by decide)

/-- `^a|b$` finds an `a` at the start. -/
theorem anchorValue_bar_matches_more :
    (parse "a|b".toList).isSome = true ∧
      DatabaseMatches (fun _ _ => false) (anchorValue "a|b") "ax" ∧
      ¬ MatcherMatches (fun _ _ => false) "a|b" "ax" := by
  have hedited : parse (anchorValue "a|b").toList =
      some (.alt (.cat (.cat .empty .bol) (.set (.char 'a')))
        (.cat (.cat .empty (.set (.char 'b'))) .eol)) := by decide
  have hparse : parse "a|b".toList =
      some (.alt (.cat .empty (.set (.char 'a'))) (.cat .empty (.set (.char 'b')))) := by
    decide
  refine ⟨by rw [hparse]; rfl, ⟨_, hedited, 0, 1, by decide, .inl ?_⟩, ?_⟩
  · exact ⟨0, ⟨0, rfl, rfl, rfl⟩, rfl, 'a', rfl, rfl⟩
  · rw [matcherMatches_iff hparse (by decide)]
    simp [Matches]

end TimescalePrometheus.Query.Anchoring
