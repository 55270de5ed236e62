import Mathlib.Algebra.Order.Ring.Int
import Mathlib.Data.List.Basic
import Mathlib.Data.Set.Function

/-!
Names of tables and columns. PostgreSQL keeps 63 bytes of a name; a name that would
not fit is cut and made unique with the id of the row it belongs to.
-/

namespace TimescalePrometheus.Sql.Names

/-- The longest prefix that fits into the given number of bytes without cutting
a character. -/
def clip : Nat → List Char → List Char
  | _, [] => []
  | bytes, char :: chars =>
    if char.utf8Size ≤ bytes then char :: clip (bytes - char.utf8Size) chars else []

/-- The cast from `text` to `name`. -/
def toName (text : String) : String :=
  String.ofList (clip 63 text.toList)

/-- `pg_name_with_suffix`. -/
def pgNameWithSuffix (fullName suffix : String) : String :=
  toName (String.ofList (fullName.toList.take (62 - (suffix.length + 1))) ++ "_" ++ suffix)

/-- `pg_name_unique`. -/
def pgNameUnique (fullName suffix : String) : String :=
  if fullName.length < 62 then toName fullName else pgNameWithSuffix fullName suffix

/-- Every character takes one byte. -/
def Ascii (text : String) : Prop := ∀ char ∈ text.toList, char.utf8Size = 1

theorem Ascii.append {first second : String} (h : Ascii first) (h' : Ascii second) :
    Ascii (first ++ second) := by
  intro char hchar
  rw [String.toList_append, List.mem_append] at hchar
  exact hchar.elim (h char) (h' char)

theorem ascii_empty : Ascii "" := by
  simp [Ascii]

theorem utf8Size_of_isAlphanum {char : Char} (h : char.isAlphanum || char = '_') :
    char.utf8Size = 1 := by
  have hsmall : char.val ≤ 127 := by
    have h : ((char.isUpper || char.isLower) || char.isDigit || decide (char = '_')) = true := h
    simp only [Bool.or_eq_true, decide_eq_true_eq] at h
    obtain ((hupper | hlower) | hdigit) | rfl := h
    · exact UInt32.le_trans (of_decide_eq_true hupper).2 (by decide)
    · exact UInt32.le_trans (of_decide_eq_true ((Bool.and_eq_true _ _).mp hlower).2) (by decide)
    · exact UInt32.le_trans (of_decide_eq_true ((Bool.and_eq_true _ _).mp hdigit).2) (by decide)
    · decide
  simp [Char.utf8Size, hsmall]

theorem ascii_toString (n : Nat) : Ascii (toString n) := by
  intro char hchar
  rw [Nat.toString_eq_repr, Nat.toList_repr] at hchar
  apply utf8Size_of_isAlphanum
  simp [Char.isAlphanum, Nat.isDigit_of_mem_toDigits (by decide) (by decide) hchar]

theorem clip_eq_take {chars : List Char} (h : ∀ char ∈ chars, char.utf8Size = 1) (bytes : Nat) :
    clip bytes chars = chars.take bytes := by
  induction chars generalizing bytes with
  | nil => simp [clip]
  | cons char chars ih =>
    have hchar : char.utf8Size = 1 := h char List.mem_cons_self
    rw [clip, hchar]
    cases bytes with
    | zero => simp
    | succ bytes =>
      rw [if_pos (Nat.le_add_left 1 bytes), Nat.add_sub_cancel, List.take_succ_cons,
        ih (fun char' hmem => h char' (List.mem_cons_of_mem _ hmem))]

theorem toName_eq_self {text : String} (h : Ascii text) (hlen : text.length ≤ 63) :
    toName text = text := by
  rw [toName, clip_eq_take h, List.take_of_length_le (by rwa [String.length_toList]),
    String.ofList_toList]

theorem pgNameUnique_of_short {fullName : String} (suffix : String) (h : Ascii fullName)
    (hlen : fullName.length < 62) : pgNameUnique fullName suffix = fullName := by
  rw [pgNameUnique, if_pos hlen, toName_eq_self h (by omega)]

theorem toList_pgNameUnique_of_long {fullName suffix : String} (h : Ascii fullName)
    (hsuffix : Ascii suffix) (hlen : 62 ≤ fullName.length) (hshort : suffix.length < 62) :
    (pgNameUnique fullName suffix).toList =
      fullName.toList.take (62 - (suffix.length + 1)) ++ '_' :: suffix.toList := by
  have hascii : Ascii (String.ofList (fullName.toList.take (62 - (suffix.length + 1))) ++ "_" ++
      suffix) := by
    refine (Ascii.append ?_ ?_).append hsuffix
    · intro char hchar
      rw [String.toList_ofList] at hchar
      exact h char (List.mem_of_mem_take hchar)
    · intro char hchar
      obtain rfl : char = '_' := by simpa using hchar
      decide
  rw [pgNameUnique, if_neg (by omega), pgNameWithSuffix, toName_eq_self hascii]
  · simp
  · simp only [String.length_append, String.length_ofList, List.length_take, String.length_toList]
    have : "_".length = 1 := rfl
    omega

theorem length_pgNameUnique_of_long {fullName suffix : String} (h : Ascii fullName)
    (hsuffix : Ascii suffix) (hlen : 62 ≤ fullName.length) (hshort : suffix.length < 62) :
    (pgNameUnique fullName suffix).length = 62 := by
  rw [← String.length_toList, toList_pgNameUnique_of_long h hsuffix hlen hshort]
  simp only [List.length_append, List.length_take, List.length_cons, String.length_toList]
  omega

theorem eq_of_append_cons_eq {α : Type*} [DecidableEq α] {a : α} {front front' back back' : List α}
    (hback : a ∉ back) (hback' : a ∉ back') (h : front ++ a :: back = front' ++ a :: back') :
    back = back' := by
  have hread : ∀ front back : List α, a ∉ back →
      ((front ++ a :: back).reverse.takeWhile fun x => x ≠ a) = back.reverse := by
    intro front back hnot
    have hall : ∀ x ∈ back.reverse, decide (x ≠ a) = true := by
      intro x hx
      simp only [decide_eq_true_eq]
      rintro rfl
      exact hnot (List.mem_reverse.mp hx)
    rw [List.reverse_append, List.reverse_cons, List.append_assoc,
      List.takeWhile_append_of_pos hall]
    simp
  have hreverse := hread front back hback
  rw [h, hread front' back' hback'] at hreverse
  exact (List.reverse_injective hreverse).symm

theorem eq_of_pgNameUnique_eq {fullName fullName' number number' ending : String}
    (h : Ascii fullName) (h' : Ascii fullName') (hnumber : Ascii number)
    (hnumber' : Ascii number') (hending : Ascii ending) (hplain : '_' ∉ number.toList)
    (hplain' : '_' ∉ number'.toList) (hlength : (number ++ ending).length < 62)
    (hlength' : (number' ++ ending).length < 62)
    (heq : pgNameUnique fullName (number ++ ending) = pgNameUnique fullName' (number' ++ ending)) :
    fullName = fullName' ∨ number = number' := by
  have hsuffix := hnumber.append hending
  have hsuffix' := hnumber'.append hending
  by_cases hlen : fullName.length < 62 <;> by_cases hlen' : fullName'.length < 62
  · left
    rwa [pgNameUnique_of_short _ h hlen, pgNameUnique_of_short _ h' hlen'] at heq
  · have hlong := length_pgNameUnique_of_long h' hsuffix' (by omega) hlength'
    rw [← heq, pgNameUnique_of_short _ h hlen] at hlong
    omega
  · have hlong := length_pgNameUnique_of_long h hsuffix (by omega) hlength
    rw [heq, pgNameUnique_of_short _ h' hlen'] at hlong
    omega
  · right
    have hlist := congrArg String.toList heq
    rw [toList_pgNameUnique_of_long h hsuffix (by omega) hlength,
      toList_pgNameUnique_of_long h' hsuffix' (by omega) hlength', String.toList_append,
      String.toList_append, ← List.cons_append, ← List.cons_append, ← List.append_assoc,
      ← List.append_assoc] at hlist
    have hback := eq_of_append_cons_eq hplain hplain' (List.append_cancel_right hlist)
    exact String.toList_inj.mp hback

theorem underscore_not_mem_toString (n : Nat) : '_' ∉ (toString n).toList := by
  rw [Nat.toString_eq_repr, Nat.toList_repr]
  exact Nat.underscore_not_in_toDigits

theorem toString_nat_injective {n n' : Nat} (h : toString n = toString n') : n = n' := by
  have hdigits := congrArg String.toList h
  rw [Nat.toString_eq_repr, Nat.toString_eq_repr, Nat.toList_repr, Nat.toList_repr] at hdigits
  rw [← Nat.ofDigitChars_ten_toDigits (n := n), hdigits, Nat.ofDigitChars_ten_toDigits]

theorem pgNameUnique_eq {fullName fullName' ending : String} {id id' : Nat}
    (h : Ascii fullName) (h' : Ascii fullName') (hending : Ascii ending)
    (hid : (toString id ++ ending).length < 62) (hid' : (toString id' ++ ending).length < 62)
    (heq : pgNameUnique fullName (toString id ++ ending) =
      pgNameUnique fullName' (toString id' ++ ending)) : fullName = fullName' ∨ id = id' :=
  (eq_of_pgNameUnique_eq h h' (ascii_toString id) (ascii_toString id') hending
    (underscore_not_mem_toString id) (underscore_not_mem_toString id') hid hid' heq).imp_right
    toString_nat_injective

theorem toString_negSucc (n : Nat) : toString (Int.negSucc n) = "-" ++ toString (n + 1) := rfl

theorem ascii_toString_int (i : Int) : Ascii (toString i) := by
  cases i with
  | ofNat n => exact ascii_toString n
  | negSucc n =>
    rw [toString_negSucc]
    refine Ascii.append ?_ (ascii_toString _)
    intro char hchar
    obtain rfl : char = '-' := by simpa using hchar
    decide

theorem underscore_not_mem_toString_int (i : Int) : '_' ∉ (toString i).toList := by
  cases i with
  | ofNat n => exact underscore_not_mem_toString n
  | negSucc n =>
    rw [toString_negSucc, String.toList_append, List.mem_append]
    rintro (hsign | hdigits)
    · exact absurd hsign (by decide)
    · exact underscore_not_mem_toString _ hdigits

theorem toString_nat_ne_neg (n : Nat) (text : String) : toString n ≠ "-" ++ text := by
  intro h
  have hmem : '-' ∈ (toString n).toList := by
    rw [h, String.toList_append]
    simp
  rw [Nat.toString_eq_repr, Nat.toList_repr] at hmem
  exact absurd (Nat.isDigit_of_mem_toDigits (by decide) (by decide) hmem) (by decide)

theorem toString_int_injective {i i' : Int} (h : toString i = toString i') : i = i' := by
  cases i <;> cases i'
  case ofNat.ofNat n n' => exact congrArg Int.ofNat (toString_nat_injective h)
  case ofNat.negSucc n n' => exact absurd h (toString_nat_ne_neg n _)
  case negSucc.ofNat n n' => exact absurd h.symm (toString_nat_ne_neg n' _)
  case negSucc.negSucc n n' =>
    rw [toString_negSucc, toString_negSucc] at h
    have hlist := congrArg String.toList h
    rw [String.toList_append, String.toList_append] at hlist
    have hsucc := toString_nat_injective (String.toList_inj.mp (List.append_cancel_left hlist))
    rw [Nat.succ.inj hsucc]

theorem length_toString_nat {n : Nat} (h : n ≤ 2 ^ 31) : (toString n).length ≤ 10 := by
  rw [Nat.toString_eq_repr, Nat.length_repr_le_iff (by decide)]
  omega

theorem length_toString_int {i : Int} (hlo : -2 ^ 31 ≤ i) (hhi : i < 2 ^ 31) :
    (toString i).length ≤ 11 := by
  cases i with
  | ofNat n =>
    have hn : n ≤ 2 ^ 31 := by
      have : Int.ofNat n = (n : Int) := rfl
      omega
    exact (length_toString_nat hn).trans (by decide)
  | negSucc n =>
    have hn : n + 1 ≤ 2 ^ 31 := by omega
    have hlength := length_toString_nat hn
    rw [toString_negSucc, String.length_append]
    have : "-".length = 1 := rfl
    omega

/-- Rows with a name and an id each: the metrics, or the label keys. The id is an `int`. -/
structure NamedRows where
  rows : Set (String × Int)
  distinctNames : Set.InjOn Prod.fst rows
  distinctIds : Set.InjOn Prod.snd rows
  singleByte : ∀ p ∈ rows, Ascii p.1
  int4 : ∀ p ∈ rows, -2 ^ 31 ≤ p.2 ∧ p.2 < 2 ^ 31

/-- What `pg_name_unique` makes of the full names and suffixes of the rows: different names of at
most 62 characters. The full name is kept if it is shorter, and a name that is not kept is
different from all that are. -/
structure UniqueNames (rows : Set (String × Int)) (fullName suffix : String × Int → String) :
    Prop where
  injOn : Set.InjOn (fun p => pgNameUnique (fullName p) (suffix p)) rows
  length_le : ∀ p ∈ rows, (pgNameUnique (fullName p) (suffix p)).length ≤ 62
  unchanged : ∀ p ∈ rows, (fullName p).length < 62 →
    pgNameUnique (fullName p) (suffix p) = fullName p
  apart : ∀ p ∈ rows, ∀ q ∈ rows, 62 ≤ (fullName p).length → (fullName q).length < 62 →
    pgNameUnique (fullName p) (suffix p) ≠ pgNameUnique (fullName q) (suffix q)

section Endings

variable (S : NamedRows) {ending : String} (hending : Ascii ending) (hlen : ending.length ≤ 3)

include hlen in
theorem NamedRows.length_suffix {p : String × Int} (hp : p ∈ S.rows) :
    (toString p.2 ++ ending).length < 62 := by
  have hid := length_toString_int (S.int4 p hp).1 (S.int4 p hp).2
  rw [String.length_append]
  omega

include hending in
theorem NamedRows.unchanged {p : String × Int} (hp : p ∈ S.rows)
    (hshort : (p.1 ++ ending).length < 62) :
    pgNameUnique (p.1 ++ ending) (toString p.2 ++ ending) = p.1 ++ ending :=
  pgNameUnique_of_short _ ((S.singleByte p hp).append hending) hshort

include hending hlen in
theorem NamedRows.length_pgNameUnique {p : String × Int} (hp : p ∈ S.rows) :
    (pgNameUnique (p.1 ++ ending) (toString p.2 ++ ending)).length =
      min (p.1 ++ ending).length 62 := by
  rcases Nat.lt_or_ge (p.1 ++ ending).length 62 with hshort | hlong
  · rw [S.unchanged hending hp hshort]
    omega
  · rw [length_pgNameUnique_of_long ((S.singleByte p hp).append hending)
      ((ascii_toString_int p.2).append hending) hlong (S.length_suffix hlen hp)]
    omega

include hending hlen in
theorem uniqueNames_ending :
    UniqueNames S.rows (fun p => p.1 ++ ending) (fun p => toString p.2 ++ ending) := by
  have hascii : ∀ p ∈ S.rows, Ascii (p.1 ++ ending) :=
    fun p hp => (S.singleByte p hp).append hending
  have hlength := fun p hp => S.length_pgNameUnique hending hlen (p := p) hp
  refine ⟨?_, ?_, fun p hp => S.unchanged hending hp, ?_⟩
  · intro p hp q hq heq
    rcases eq_of_pgNameUnique_eq (hascii p hp) (hascii q hq) (ascii_toString_int p.2)
      (ascii_toString_int q.2) hending (underscore_not_mem_toString_int p.2)
      (underscore_not_mem_toString_int q.2) (S.length_suffix hlen hp) (S.length_suffix hlen hq)
      heq with hname | hid
    · have hlist := congrArg String.toList hname
      rw [String.toList_append, String.toList_append] at hlist
      exact S.distinctNames hp hq (String.toList_inj.mp (List.append_cancel_right hlist))
    · exact S.distinctIds hp hq (toString_int_injective hid)
  · intro p hp
    rw [hlength p hp]
    omega
  · intro p hp q hq hlong hshort heq
    have hsame := congrArg String.length heq
    rw [hlength p hp, hlength q hq] at hsame
    omega

end Endings

/-- The names of tables and value columns, and the names of id columns, are unique, and no
shortened name of the one kind is an unshortened name of the other. -/
theorem pgNameUnique_unique (S : NamedRows) :
    UniqueNames S.rows (fun p => p.1) (fun p => toString p.2) ∧
      UniqueNames S.rows (fun p => p.1 ++ "_id") (fun p => toString p.2 ++ "_id") ∧
      ∀ p ∈ S.rows, ∀ q ∈ S.rows,
        (62 ≤ p.1.length → (q.1 ++ "_id").length < 62 →
          pgNameUnique p.1 (toString p.2) ≠
            pgNameUnique (q.1 ++ "_id") (toString q.2 ++ "_id")) ∧
        (62 ≤ (p.1 ++ "_id").length → q.1.length < 62 →
          pgNameUnique (p.1 ++ "_id") (toString p.2 ++ "_id") ≠
            pgNameUnique q.1 (toString q.2)) := by
  have hid : Ascii "_id" := by
    simp [Ascii, Char.utf8Size]
  have hplain : UniqueNames S.rows (fun p => p.1) (fun p => toString p.2) := by
    simpa only [String.append_empty] using uniqueNames_ending S ascii_empty (by decide)
  have hlength : ∀ p ∈ S.rows,
      (pgNameUnique p.1 (toString p.2)).length = min p.1.length 62 := by
    intro p hp
    simpa only [String.append_empty] using S.length_pgNameUnique ascii_empty (by decide) hp
  have hlengthId := fun p hp => S.length_pgNameUnique hid (by decide) (p := p) hp
  refine ⟨hplain, uniqueNames_ending S hid (by decide), ?_⟩
  intro p hp q hq
  constructor
  · intro hlong hshort heq
    have hsame := congrArg String.length heq
    rw [hlength p hp, hlengthId q hq] at hsame
    omega
  · intro hlong hshort heq
    have hsame := congrArg String.length heq
    rw [hlengthId p hp, hlength q hq] at hsame
    omega

def cpuMem : NamedRows where
  rows := {("cpu", 1), ("mem", 2)}
  distinctNames := by simp [Set.InjOn]
  distinctIds := by simp [Set.InjOn]
  singleByte := by
    rintro p (rfl | rfl) <;> simp [Ascii, Char.utf8Size]
  int4 := by simp

theorem pgNameUnique_unique_cpuMem :
    UniqueNames cpuMem.rows (fun p => p.1) fun p => toString p.2 :=
  (pgNameUnique_unique cpuMem).1

end TimescalePrometheus.Sql.Names
