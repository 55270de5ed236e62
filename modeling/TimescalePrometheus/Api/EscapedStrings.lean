import Mathlib.Data.Bool.AllAny
import TimescalePrometheus.Api.WrittenText
import TimescalePrometheus.Lib.Loops

/-!
`WriteEscapedString` with the indices of its loop: the bytes from `start` to `i` are read and not
yet written.
-/

namespace TimescalePrometheus.Api.Marshal

open Lib.Json Lib.Loops Lib.Utf8

/-- The bytes from `start` to `i` are still to be written. -/
structure Span where
  w : ErrorWrapper
  start : Nat
  i : Nat

section Loop

variable (writer : Writer) (escapeHTML : Bool) (s : Bytes)

/-- `s[start:i]` -/
def Span.pending (p : Span) : Bytes := (s.take p.i).drop p.start

/-- `if start < i { self.WriteStrings(s[start:i]) }` -/
def Span.flush (p : Span) : ErrorWrapper :=
  if p.start < p.i then writeStrings writer p.w [p.pending s] else p.w

/-- One round of the loop of `WriteEscapedString`. -/
def escapeRound (p : Span) : Option Span :=
  s[p.i]?.map fun b =>
    if b < runeSelf then
      if htmlSafeSet b || (!escapeHTML && safeSet b) then { p with i := p.i + 1 }
      else ⟨writeEscape writer (p.flush writer s) b, p.i + 1, p.i + 1⟩
    else
      let (c, size) := decodeRuneInString (s.drop p.i)
      if c = replacement ∧ size = 1 then
        ⟨writeStrings writer (p.flush writer s) [lit "\\ufffd"], p.i + size, p.i + size⟩
      else if c = Char.ofNat 0x2028 ∨ c = Char.ofNat 0x2029 then
        let w := writeStrings writer (p.flush writer s) [lit "\\u202"]
        ⟨writeBytes writer w [hex.getD (c.toNat &&& 0xF) 0], p.i + size, p.i + size⟩
      else { p with i := p.i + size }

/-- What comes behind the loop. -/
def Span.finish (p : Span) : ErrorWrapper :=
  if p.start < s.length then writeStrings writer p.w [s.drop p.start] else p.w

end Loop

section Loop

variable {writer : Writer} {escapeHTML : Bool} {s : Bytes} {p : Span}

theorem pending_of_eq {w : ErrorWrapper} {i : Nat} : Span.pending s ⟨w, i, i⟩ = [] := by
  apply List.drop_of_length_le
  rw [List.length_take]
  exact min_le_left _ _

theorem pending_add (hstart : p.start ≤ p.i) (hi : p.i ≤ s.length) (size : Nat) :
    Span.pending s { p with i := p.i + size } = p.pending s ++ (s.drop p.i).take size := by
  unfold Span.pending
  rw [List.take_add, List.drop_append_of_le_length]
  rw [List.length_take, min_eq_left hi]
  exact hstart

theorem flush_eq (hstart : p.start ≤ p.i) (hi : p.i ≤ s.length) :
    p.flush writer s = flush writer p.w (p.pending s) := by
  have hlength : (p.pending s).length = p.i - p.start := by
    rw [Span.pending, List.length_drop, List.length_take, min_eq_left hi]
  unfold Span.flush flush
  by_cases hlt : p.start < p.i
  · rw [if_pos hlt, if_neg]
    intro hnil
    rw [hnil, List.length_nil] at hlength
    omega
  · rw [if_neg hlt, if_pos]
    apply List.eq_nil_of_length_eq_zero
    omega

theorem size_le (b : UInt8) (rest : Bytes) :
    0 < (decodeRuneInString (b :: rest)).2 ∧
      (decodeRuneInString (b :: rest)).2 ≤ (b :: rest).length := by
  unfold decodeRuneInString
  cases hc : decodeRune (b :: rest) with
  | none => exact ⟨Nat.one_pos, Nat.succ_le_of_lt (Nat.succ_pos _)⟩
  | some c =>
    refine ⟨c.utf8Size_pos, ?_⟩
    have hlength := congrArg List.length (eq_append_of_decodeRune hc)
    rw [List.length_append, String.length_utf8EncodeChar] at hlength
    dsimp only
    omega

variable (writer escapeHTML s) in
/-- The loop is left from there, and with what the recursion writes for the chunk that is pending
and the rest of the string. -/
def Ends (p : Span) (w : ErrorWrapper) (chunk rest : Bytes) : Prop :=
  ∃ q, Exits (escapeRound writer escapeHTML s) p q ∧
    q.finish writer s = escapeLoop writer escapeHTML w chunk rest

theorem ends_of_eq_length (hstart : p.start ≤ p.i) (hi : p.i = s.length) :
    Ends writer escapeHTML s p p.w (p.pending s) [] := by
  refine ⟨p, .done ?_, ?_⟩
  · rw [escapeRound, hi, List.getElem?_eq_none le_rfl]
    rfl
  · have hpending : p.pending s = s.drop p.start := by
      rw [Span.pending, hi, List.take_length]
    rw [escapeLoop, ← flush_eq hstart hi.le, Span.finish, Span.flush, hpending, hi]

theorem ends_of_round {q : Span} {b : UInt8} {rest : Bytes} (size : Nat)
    (hdrop : s.drop p.i = b :: rest) (hround : escapeRound writer escapeHTML s p = some q)
    (hq : q.i = p.i + (size + 1))
    (h : Ends writer escapeHTML s q q.w (q.pending s) (s.drop q.i)) :
    Ends writer escapeHTML s p q.w (q.pending s) (rest.drop size) := by
  obtain ⟨t, hexits, ht⟩ := h
  refine ⟨t, .more hround hexits, ?_⟩
  rw [ht, hq, ← List.drop_drop, hdrop, List.drop_succ_cons]

section Rounds

variable {b : UInt8} {rest : Bytes} (hstart : p.start ≤ p.i) (hdrop : s.drop p.i = b :: rest)
  (ih : ∀ q : Span, q.start ≤ q.i → p.i < q.i → q.i ≤ s.length →
    Ends writer escapeHTML s q q.w (q.pending s) (s.drop q.i))
include hstart hdrop ih

theorem ends_of_ascii (hb : b < runeSelf) :
    Ends writer escapeHTML s p p.w (p.pending s) (b :: rest) := by
  obtain ⟨hi, rfl⟩ := List.getElem?_eq_some_iff.mp (show s[p.i]? = some b by
    rw [← List.head?_drop, hdrop]; rfl)
  have hround : escapeRound writer escapeHTML s p = Option.map _ s[p.i]? := rfl
  rw [List.getElem?_eq_getElem hi, Option.map_some, if_pos hb] at hround
  unfold Ends
  rw [escapeLoop, if_pos hb, ← flush_eq hstart hi.le]
  by_cases hsafe : (htmlSafeSet s[p.i] || (!escapeHTML && safeSet s[p.i])) = true
  · rw [if_pos hsafe] at hround ⊢
    have hpending : Span.pending s { p with i := p.i + 1 } = p.pending s ++ [s[p.i]] := by
      rw [pending_add hstart hi.le, hdrop]
      rfl
    rw [← hpending]
    have hnext := ih { p with i := p.i + 1 } (Nat.le_succ_of_le hstart) (Nat.lt_succ_self _) hi
    exact ends_of_round 0 hdrop hround rfl hnext
  · rw [if_neg hsafe] at hround ⊢
    have hnext := ends_of_round 0 hdrop hround rfl
      (ih _ le_rfl (Nat.lt_succ_self _) hi)
    rw [pending_of_eq] at hnext
    exact hnext

theorem ends_of_wide (hb : ¬b < runeSelf) :
    Ends writer escapeHTML s p p.w (p.pending s) (b :: rest) := by
  have hget : s[p.i]? = some b := by
    rw [← List.head?_drop, hdrop]
    rfl
  have hi := (List.getElem?_eq_some_iff.mp hget).1
  have hlength : rest.length + 1 + p.i = s.length := by
    have hlen := congrArg List.length hdrop
    rw [List.length_drop, List.length_cons] at hlen
    omega
  obtain ⟨hpos, hle⟩ := size_le b rest
  have hround : escapeRound writer escapeHTML s p = Option.map _ s[p.i]? := rfl
  rw [hget, Option.map_some, if_neg hb, hdrop] at hround
  unfold Ends
  rw [escapeLoop, if_neg hb, ← flush_eq hstart hi.le]
  generalize decodeRuneInString (b :: rest) = decoded at hpos hle hround ⊢
  obtain ⟨c, size⟩ := decoded
  rw [List.length_cons] at hle
  obtain ⟨size, rfl⟩ := Nat.exists_eq_add_one_of_ne_zero (Nat.ne_of_gt hpos)
  dsimp only at hle hround ⊢
  rw [Nat.add_sub_cancel]
  -- the rune is written, so that nothing is pending behind it
  have hwritten : ∀ w, escapeRound writer escapeHTML s p =
      some ⟨w, p.i + (size + 1), p.i + (size + 1)⟩ →
      Ends writer escapeHTML s p w [] (rest.drop size) := by
    intro w hround
    have hnext := ends_of_round size hdrop hround rfl (ih _ le_rfl (by simp) (by simp only; omega))
    rw [pending_of_eq] at hnext
    exact hnext
  by_cases herror : c = replacement ∧ size + 1 = 1
  · rw [if_pos herror] at hround ⊢
    exact hwritten _ hround
  rw [if_neg herror] at hround ⊢
  by_cases hsep : c = Char.ofNat 0x2028 ∨ c = Char.ofNat 0x2029
  · rw [if_pos hsep] at hround ⊢
    exact hwritten _ hround
  rw [if_neg hsep] at hround ⊢
  have hpending : Span.pending s { p with i := p.i + (size + 1) } =
      p.pending s ++ b :: rest.take size := by
    rw [pending_add hstart hi.le, hdrop, List.take_succ_cons]
  rw [← hpending]
  have hnext := ih { p with i := p.i + (size + 1) } (Nat.le_add_right_of_le hstart) (by simp)
    (by simp only; omega)
  exact ends_of_round size hdrop hround rfl hnext

end Rounds

theorem ends_of_le (hstart : p.start ≤ p.i) (hi : p.i ≤ s.length) :
    Ends writer escapeHTML s p p.w (p.pending s) (s.drop p.i) := by
  induction hn : s.length - p.i using Nat.strongRecOn generalizing p with
  | _ n ih =>
    have hlater : ∀ q : Span, q.start ≤ q.i → p.i < q.i → q.i ≤ s.length →
        Ends writer escapeHTML s q q.w (q.pending s) (s.drop q.i) :=
      fun q hq hlt hle => ih (s.length - q.i) (by omega) hq hle rfl
    cases hdrop : s.drop p.i with
    | nil =>
      have hle := List.drop_eq_nil_iff.mp hdrop
      exact ends_of_eq_length hstart (le_antisymm hi hle)
    | cons b rest =>
      by_cases hb : b < runeSelf
      · exact ends_of_ascii hstart hdrop hlater hb
      · exact ends_of_wide hstart hdrop hlater hb

end Loop

/-- The characters of a text without its escapes: a backslash and the character behind it. -/
def raw : List Char → List Char
  | [] => []
  | [c] => [c]
  | c :: d :: rest => if c = '\\' then raw rest else c :: raw (d :: rest)

/-- Whatever stands behind the text, its own characters outside of escapes are none that ends a
JSON string or begins an escape. -/
def Closed (text : List Char) : Prop :=
  ∃ plain, (∀ c ∈ plain, c ≠ '"' ∧ c ≠ '\\') ∧ ∀ rest, raw (text ++ rest) = plain ++ raw rest

theorem closed_nil : Closed [] := ⟨[], by simp, fun _ => rfl⟩

theorem Closed.append {text text' : List Char} (h : Closed text) (h' : Closed text') :
    Closed (text ++ text') := by
  obtain ⟨plain, hplain, hraw⟩ := h
  obtain ⟨plain', hplain', hraw'⟩ := h'
  refine ⟨plain ++ plain', ?_, ?_⟩
  · intro c hc
    rcases List.mem_append.mp hc with hc | hc
    · exact hplain c hc
    · exact hplain' c hc
  · intro rest
    rw [List.append_assoc, hraw, hraw', List.append_assoc]

theorem closed_char {c : Char} (hquote : c ≠ '"') (hslash : c ≠ '\\') : Closed [c] := by
  refine ⟨[c], ?_, ?_⟩
  · intro d hd
    rw [List.mem_singleton.mp hd]
    exact ⟨hquote, hslash⟩
  · intro rest
    cases rest with
    | nil => rfl
    | cons d rest => exact if_neg hslash

theorem closed_escape (c : Char) : Closed ['\\', c] :=
  ⟨[], by simp, fun _ => if_pos rfl⟩

theorem closed_flatMap {α : Type} {f : α → List Char} (h : ∀ x, Closed (f x)) (xs : List α) :
    Closed (xs.flatMap f) := by
  induction xs with
  | nil => exact closed_nil
  | cons x xs ih => exact (h x).append ih

theorem Closed.of_raw {text : List Char} (h : Closed text) :
    ∀ c ∈ raw text, c ≠ '"' ∧ c ≠ '\\' := by
  obtain ⟨plain, hplain, hraw⟩ := h
  have htext := hraw []
  rw [List.append_nil, raw, List.append_nil] at htext
  rw [htext]
  exact hplain

/-- A character that may stand in a script of an HTML page and in a JSON string. -/
def HtmlSafe (c : Char) : Prop :=
  0x20 ≤ c.toNat ∧ c ≠ '<' ∧ c ≠ '>' ∧ c ≠ '&' ∧ c ≠ Char.ofNat 0x2028 ∧ c ≠ Char.ofNat 0x2029

instance : DecidablePred HtmlSafe := fun _ => inferInstanceAs (Decidable (_ ∧ _))

theorem hexChar_mem (n : Nat) : hexChar n ∈ "0123456789abcdef".toList := by
  unfold hexChar
  rw [List.getD_eq_getElem?_getD]
  cases h : "0123456789abcdef".toList[n]? with
  | none => decide
  | some c => exact List.mem_of_getElem? h

theorem hexChar_safe (n : Nat) :
    HtmlSafe (hexChar n) ∧ hexChar n ≠ '"' ∧ hexChar n ≠ '\\' := by
  have hall : ∀ c ∈ "0123456789abcdef".toList, HtmlSafe c ∧ c ≠ '"' ∧ c ≠ '\\' :=
    List.all_iff_forall_prop.mp (by decide)
  exact hall _ (hexChar_mem n)

/-- The text is made of escapes and of safe characters, which are neither quotes nor
backslashes. -/
structure SafeText (text : List Char) : Prop where
  closed : Closed text
  safe : ∀ c ∈ text, HtmlSafe c

theorem SafeText.append {text text' : List Char} (h : SafeText text) (h' : SafeText text') :
    SafeText (text ++ text') := by
  refine ⟨h.closed.append h'.closed, ?_⟩
  intro c hc
  rcases List.mem_append.mp hc with hc | hc
  · exact h.safe c hc
  · exact h'.safe c hc

theorem safeText_char {c : Char} (h : HtmlSafe c) (hquote : c ≠ '"') (hslash : c ≠ '\\') :
    SafeText [c] := by
  refine ⟨closed_char hquote hslash, ?_⟩
  intro d hd
  rw [List.mem_singleton.mp hd]
  exact h

theorem safeText_escape {c : Char} (h : HtmlSafe c) : SafeText ['\\', c] := by
  refine ⟨closed_escape c, ?_⟩
  intro d hd
  rw [List.mem_cons, List.mem_singleton] at hd
  rcases hd with rfl | rfl
  · decide
  · exact h

theorem safeText_chars {text : List Char}
    (h : ∀ c ∈ text, HtmlSafe c ∧ c ≠ '"' ∧ c ≠ '\\') : SafeText text := by
  induction text with
  | nil => exact ⟨closed_nil, by simp⟩
  | cons c text ih =>
    obtain ⟨hsafe, hquote, hslash⟩ := h c List.mem_cons_self
    exact (safeText_char hsafe hquote hslash).append
      (ih fun d hd => h d (List.mem_cons_of_mem _ hd))

theorem safeText_unicode {text : List Char}
    (h : text.all fun c => HtmlSafe c ∧ c ≠ '"' ∧ c ≠ '\\') :
    SafeText (['\\', 'u'] ++ text) := by
  apply (safeText_escape (by decide)).append
  exact safeText_chars (List.all_iff_forall_prop.mp h)

theorem safeText_escapeChar (c : Char) : SafeText (escapeChar c) := by
  unfold escapeChar
  split_ifs with hslash hquote hn hr ht hascii hsep
  · exact safeText_escape (by decide)
  · exact safeText_escape (by decide)
  · exact safeText_escape (by decide)
  · exact safeText_escape (by decide)
  · exact safeText_escape (by decide)
  · apply SafeText.append
    · exact safeText_unicode (by decide)
    · apply safeText_chars
      simp only [List.mem_cons, List.not_mem_nil, or_false]
      rintro d (rfl | rfl)
      · exact hexChar_safe _
      · exact hexChar_safe _
  · apply SafeText.append
    · exact safeText_unicode (by decide)
    · exact safeText_char (hexChar_safe _).1 (hexChar_safe _).2.1 (hexChar_safe _).2.2
  · simp only [not_or, not_lt] at hascii hsep
    exact safeText_char ⟨hascii.1, hascii.2.1, hascii.2.2.1, hascii.2.2.2, hsep.1, hsep.2⟩
      hquote hslash

theorem safeText_escapeText (s : Bytes) : SafeText (escapeText s) := by
  have hrune : ∀ r, SafeText (escapeRune r) := by
    intro r
    cases r with
    | none => exact safeText_unicode (by decide)
    | some c => exact safeText_escapeChar c
  refine ⟨closed_flatMap (fun r => (hrune r).closed) _, ?_⟩
  intro c hc
  obtain ⟨r, -, hr⟩ := List.mem_flatMap.mp hc
  exact (hrune r).safe c hr

/-- The characters of a string: its runes, and the replacement character for each byte at which
no rune begins. -/
inductive Replaced : Bytes → List Char → Prop
  | nil : Replaced [] []
  | rune (c : Char) {s : Bytes} {cs : List Char} (h : Replaced s cs) :
      Replaced (String.utf8EncodeChar c ++ s) (c :: cs)
  | byte (b : UInt8) {s : Bytes} {cs : List Char}
      (hnone : ∀ c rest, b :: s ≠ String.utf8EncodeChar c ++ rest) (h : Replaced s cs) :
      Replaced (b :: s) (replacement :: cs)

theorem replaced_textOf (s : Bytes) : Replaced s (textOf s) := by
  unfold textOf
  induction s using runes.induct with
  | case1 =>
    rw [runes]
    exact .nil
  | case2 b rest hnone ih =>
    rw [runes, hnone]
    refine .byte b ?_ ih
    intro c rest' heq
    rw [heq, decodeRune_encodeChar_append] at hnone
    contradiction
  | case3 b rest c hsome ih =>
    rw [runes, hsome]
    have hdrop : rest.drop (c.utf8Size - 1) = (b :: rest).drop c.utf8Size := by
      rw [← Nat.sub_add_cancel c.utf8Size_pos]
      rfl
    dsimp only
    rw [hdrop] at ih ⊢
    have hrune := Replaced.rune c ih
    rw [← eq_append_of_decodeRune hsome] at hrune
    exact hrune

/-- For a writer that never fails and any string: the loop is left, what it has written is safe,
and it is read back as the string, with the replacement character for every byte that is not part
of a rune. -/
theorem writeEscapedString_reads_back (w : ErrorWrapper) (s : Bytes) :
    let w₀ : ErrorWrapper := { w with err := none }
    ∃ q text cs, Exits (escapeRound neverFails true s) ⟨w₀, 0, 0⟩ q ∧
      q.finish neverFails s = writeEscapedString neverFails w₀ s true ∧
      (q.finish neverFails s).err = none ∧ (q.finish neverFails s).out = w.out ++ encode text ∧
      ((∀ c ∈ text, HtmlSafe c) ∧ ∀ c ∈ raw text, c ≠ '"' ∧ c ≠ '\\') ∧
      Spells text cs ∧ Replaced s cs ∧ ∀ ds, s = encode ds → cs = ds := by
  intro w₀
  have hends : Ends neverFails true s ⟨w₀, 0, 0⟩ w₀ (Span.pending s ⟨w₀, 0, 0⟩) (s.drop 0) :=
    ends_of_le le_rfl (Nat.zero_le _)
  rw [pending_of_eq] at hends
  obtain ⟨q, hexits, hfinish⟩ := hends
  have hwritten : q.finish neverFails s = writeEscapedString neverFails w₀ s true := hfinish
  have hwrote := wrote_writeEscapedString (w := w₀) rfl s
  have hsafe := safeText_escapeText s
  refine ⟨q, escapeText s, textOf s, hexits, hwritten, ?_, ?_, ⟨hsafe.safe, hsafe.closed.of_raw⟩,
    spells_escapeText s, replaced_textOf s, ?_⟩
  · rw [hwritten]
    exact hwrote.err
  · rw [hwritten]
    exact hwrote.out
  · rintro ds rfl
    exact textOf_encode ds

end TimescalePrometheus.Api.Marshal
