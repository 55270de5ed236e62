import Mathlib.Tactic.Common

/-!
Regular expressions with anchors. A match is a pair of positions in the subject, since
whether an anchor holds depends on where it stands.
-/

namespace TimescalePrometheus.Lib.Regex

/-- An item of a bracket expression. -/
inductive Item
  | range (lo hi : Char)
  /-- A class with a name, such as `\d` or `[:alpha:]`. -/
  | named (name : List Char)
  deriving DecidableEq

/-- What stands for one character. -/
inductive CharSet
  | char (c : Char)
  | any
  | bracket (negated : Bool) (items : List Item)
  deriving DecidableEq

/-- Regular expressions with anchors. -/
inductive Re
  | empty
  | set (cs : CharSet)
  | bol
  | eol
  | cat (a b : Re)
  | alt (a b : Re)
  | rep (a : Re) (min : Nat) (max : Option Nat)
  deriving DecidableEq

/-- What engines do not agree on, or leave to the locale. -/
structure Engine where
  dot : Char → Bool
  named : List Char → Char → Bool

def Item.mem (e : Engine) (c : Char) : Item → Bool
  | .range lo hi => lo ≤ c && c ≤ hi
  | .named name => e.named name c

/-- The character is matched by the set. -/
def CharSet.mem (e : Engine) (c : Char) : CharSet → Bool
  | .char d => c = d
  | .any => e.dot c
  | .bracket negated items => (items.any fun item => item.mem e c) != negated

/-- The relation composed with itself `k` times. -/
def Iterate (R : Nat → Nat → Prop) : Nat → Nat → Nat → Prop
  | 0, i, j => i = j
  | k + 1, i, j => ∃ m, R i m ∧ Iterate R k m j

/-- The expression matches the subject from position `i` to position `j`. -/
def Matches (e : Engine) (s : List Char) : Re → Nat → Nat → Prop
  | .empty, i, j => i = j
  | .set cs, i, j => j = i + 1 ∧ ∃ c, s[i]? = some c ∧ cs.mem e c = true
  | .bol, i, j => i = 0 ∧ j = 0
  | .eol, i, j => i = s.length ∧ j = s.length
  | .cat a b, i, j => ∃ m, Matches e s a i m ∧ Matches e s b m j
  | .alt a b, i, j => Matches e s a i j ∨ Matches e s b i j
  | .rep a min max, i, j =>
    ∃ k, min ≤ k ∧ (∀ n ∈ max, k ≤ n) ∧ Iterate (Matches e s a) k i j

/-- There is a match somewhere in the subject. -/
def Search (e : Engine) (r : Re) (s : List Char) : Prop :=
  ∃ i j, i ≤ s.length ∧ Matches e s r i j

variable {e : Engine} {s : List Char} {i j : Nat}

theorem matches_congr {e' : Engine} (hnamed : e.named = e'.named)
    (hdot : ∀ c ∈ s, e.dot c = e'.dot c) (r : Re) : Matches e s r = Matches e' s r := by
  induction r with
  | empty | bol | eol => rfl
  | set cs =>
    have hmem : ∀ c ∈ s, cs.mem e c = cs.mem e' c := by
      intro c hc
      cases cs with
      | char d => rfl
      | any => exact hdot c hc
      | bracket negated items =>
        have hitem : (fun item : Item => item.mem e c) = fun item => item.mem e' c := by
          funext item
          cases item with
          | range lo hi => rfl
          | named name => exact congrFun (congrFun hnamed name) c
        rw [CharSet.mem, CharSet.mem, hitem]
    funext i j
    refine propext (and_congr_right fun _ => exists_congr fun c => and_congr_right fun hc => ?_)
    rw [hmem c (List.mem_of_getElem? hc)]
  | cat a b iha ihb =>
    funext i j
    rw [Matches, Matches, iha, ihb]
  | alt a b iha ihb =>
    funext i j
    rw [Matches, Matches, iha, ihb]
  | rep a min max ih =>
    funext i j
    rw [Matches, Matches, ih]

/-- Every alternative starts with the anchor. -/
def Re.startsBol : Re → Bool
  | .bol => true
  | .cat a b => a.startsBol || (a = .empty && b.startsBol)
  | .alt a b => a.startsBol && b.startsBol
  | _ => false

/-- Every match ends with the anchor. -/
def Re.endsEol : Re → Bool
  | .eol => true
  | .cat a b => b.endsEol || (b = .empty && a.endsEol)
  | .alt a b => a.endsEol && b.endsEol
  | _ => false

theorem eq_zero_of_startsBol {r : Re} (hr : r.startsBol = true) (h : Matches e s r i j) :
    i = 0 := by
  induction r generalizing i j with
  | empty | set cs | eol | rep a min max => cases hr
  | bol => exact h.1
  | cat a b iha ihb =>
    obtain ⟨m, ha, hb⟩ := h
    simp only [Re.startsBol, Bool.or_eq_true, Bool.and_eq_true, decide_eq_true_eq] at hr
    rcases hr with hr | ⟨rfl, hr⟩
    · exact iha hr ha
    · obtain rfl : i = m := ha
      exact ihb hr hb
  | alt a b iha ihb =>
    obtain ⟨hra, hrb⟩ := Bool.and_eq_true_iff.mp hr
    rcases h with h | h
    · exact iha hra h
    · exact ihb hrb h

theorem eq_length_of_endsEol {r : Re} (hr : r.endsEol = true) (h : Matches e s r i j) :
    j = s.length := by
  induction r generalizing i j with
  | empty | set cs | bol | rep a min max => cases hr
  | eol => exact h.2
  | cat a b iha ihb =>
    obtain ⟨m, ha, hb⟩ := h
    simp only [Re.endsEol, Bool.or_eq_true, Bool.and_eq_true, decide_eq_true_eq] at hr
    rcases hr with hr | ⟨rfl, hr⟩
    · exact ihb hr hb
    · obtain rfl : m = j := hb
      exact iha hr ha
  | alt a b iha ihb =>
    obtain ⟨hra, hrb⟩ := Bool.and_eq_true_iff.mp hr
    rcases h with h | h
    · exact iha hra h
    · exact ihb hrb h

theorem search_iff_of_anchored {r : Re} (hbol : r.startsBol = true) (heol : r.endsEol = true) :
    Search e r s ↔ Matches e s r 0 s.length := by
  constructor
  · rintro ⟨i, j, -, h⟩
    obtain rfl := eq_zero_of_startsBol hbol h
    obtain rfl := eq_length_of_endsEol heol h
    exact h
  · intro h
    exact ⟨0, s.length, Nat.zero_le _, h⟩

/-- The anchor at the start of the first alternative. -/
def Re.lead : Re → Re
  | .empty => .cat .empty .bol
  | .cat a b => .cat a.lead b
  | .alt a b => .alt a.lead b
  | r => r

theorem matches_lead (r : Re) : Matches e s r.lead 0 j ↔ Matches e s r 0 j := by
  induction r generalizing j with
  | empty =>
    constructor
    · rintro ⟨m, rfl, -, rfl⟩
      rfl
    · rintro rfl
      exact ⟨0, rfl, rfl, rfl⟩
  | cat a b iha _ => exact exists_congr fun m => and_congr_left fun _ => iha
  | alt a b iha _ => exact or_congr_left iha
  | set cs | bol | eol | rep a min max => rfl

theorem matches_cat_eol (r : Re) :
    Matches e s (.cat r .eol) i j ↔ Matches e s r i j ∧ j = s.length := by
  constructor
  · rintro ⟨m, h, rfl, rfl⟩
    exact ⟨h, rfl⟩
  · rintro ⟨h, rfl⟩
    exact ⟨s.length, h, rfl, rfl⟩

/-- A match of an expression whose first alternative is held to the start of the subject. -/
def MatchesFrom (e : Engine) (s : List Char) : Re → Nat → Nat → Prop
  | .alt a b, i, j => MatchesFrom e s a i j ∨ Matches e s b i j
  | r, i, j => i = 0 ∧ Matches e s r i j

/-- The last alternative is held to the end of the subject besides, if so told. -/
def MatchesBetween (e : Engine) (s : List Char) (toEnd : Bool) : Re → Nat → Nat → Prop
  | .alt a b, i, j => MatchesFrom e s a i j ∨ Matches e s b i j ∧ (toEnd = true → j = s.length)
  | r, i, j => i = 0 ∧ Matches e s r i j ∧ (toEnd = true → j = s.length)

theorem matchesFrom_zero {r : Re} : MatchesFrom e s r 0 j ↔ Matches e s r 0 j := by
  induction r with
  | alt a b iha _ => exact or_congr_left iha
  | _ => exact and_iff_right rfl

theorem matchesFrom_lead {r : Re} : MatchesFrom e s r.lead i j ↔ MatchesFrom e s r i j := by
  induction r with
  | alt a b iha _ => exact or_congr_left iha
  | empty | cat a b =>
    refine and_congr_right ?_
    rintro rfl
    exact matches_lead _
  | _ => rfl

theorem matchesBetween_false {r : Re} :
    MatchesBetween e s false r i j ↔ MatchesFrom e s r i j := by
  cases r <;> simp [MatchesBetween, MatchesFrom]

theorem matchesBetween_whole {toEnd : Bool} {r : Re} (h : Matches e s r 0 s.length) :
    MatchesBetween e s toEnd r 0 s.length := by
  cases r with
  | alt a b => exact h.imp matchesFrom_zero.mpr fun hb => ⟨hb, fun _ => rfl⟩
  | _ => exact ⟨rfl, h, fun _ => rfl⟩

theorem matchesBetween_of_single {toEnd : Bool} {r : Re} (hr : ∀ a b, r ≠ .alt a b) :
    MatchesBetween e s toEnd r i j ↔
      i = 0 ∧ Matches e s r i j ∧ (toEnd = true → j = s.length) := by
  cases r with
  | alt a b => exact absurd rfl (hr a b)
  | _ => rfl

/-- The first alternative starts with the anchor. -/
def Re.firstStartsBol : Re → Bool
  | .alt a _ => a.firstStartsBol
  | r => r.startsBol

theorem firstStartsBol_of_startsBol {r : Re} (h : r.startsBol = true) :
    r.firstStartsBol = true := by
  induction r with
  | alt a b iha _ => exact iha (Bool.and_eq_true_iff.mp h).1
  | _ => exact h

theorem matches_iff_matchesFrom {r : Re} (h : r.firstStartsBol = true) :
    Matches e s r i j ↔ MatchesFrom e s r i j := by
  induction r with
  | alt a b iha _ => exact or_congr_left (iha h)
  | _ => exact (and_iff_right_of_imp (eq_zero_of_startsBol h)).symm

theorem search_enclosed (r : Re) :
    Search e (.cat (.cat (.cat .empty .bol) r) .eol) s ↔ Matches e s r 0 s.length := by
  rw [search_iff_of_anchored (by simp [Re.startsBol]) (by simp [Re.endsEol]), matches_cat_eol,
    and_iff_left rfl]
  constructor
  · rintro ⟨_, ⟨_, rfl, -, rfl⟩, h⟩
    exact h
  · intro h
    exact ⟨0, ⟨0, rfl, rfl, rfl⟩, h⟩

end TimescalePrometheus.Lib.Regex
