import TimescalePrometheus.Api.Marshal

/-!
What the pieces of the writer write to an `io.Writer` that never fails, as characters.
-/

namespace TimescalePrometheus.Api.Marshal

open Lib.Json Lib.Utf8

/-- The writer goes on without an error and has received the text on top of what it had. -/
structure Wrote (w w' : ErrorWrapper) (text : List Char) : Prop where
  err : w'.err = none
  out : w'.out = w.out ++ encode text

theorem Wrote.trans {w w' w'' : ErrorWrapper} {text text' : List Char} (h : Wrote w w' text)
    (h' : Wrote w' w'' text') : Wrote w w'' (text ++ text') :=
  ⟨h'.err, by rw [h'.out, h.out, encode_append, List.append_assoc]⟩

theorem Wrote.congr {w w' : ErrorWrapper} {text text' : List Char} (h : Wrote w w' text)
    (htext : text = text') : Wrote w w' text' :=
  htext ▸ h

theorem wrote_write {w : ErrorWrapper} (h : w.err = none) (s : List Char) :
    Wrote w (write neverFails w (encode s)) s :=
  ⟨h, rfl⟩

theorem wrote_writeStrings {w : ErrorWrapper} (h : w.err = none) (strings : List (List Char)) :
    Wrote w (writeStrings neverFails w (strings.map encode)) strings.flatten := by
  have hloop : ∀ {w : ErrorWrapper}, w.err = none →
      Wrote w (writeEach neverFails w (strings.map encode)) strings.flatten := by
    induction strings with
    | nil =>
      intro w h
      exact ⟨h, by simp [writeEach]⟩
    | cons s strings ih =>
      intro w h
      have hs := wrote_write h s
      simp only [List.map_cons, writeEach, hs.err, Option.isSome_none, Bool.false_eq_true,
        if_false]
      exact hs.trans (ih hs.err)
  rw [writeStrings, h]
  exact hloop h

theorem wrote_lit {w : ErrorWrapper} (h : w.err = none) (s : String) :
    Wrote w (writeStrings neverFails w [lit s]) s.toList := by
  have hstrings := wrote_writeStrings h [s.toList]
  rwa [List.flatten_singleton] at hstrings

theorem wrote_writeBytes {w : ErrorWrapper} (h : w.err = none) {b : Bytes} {text : List Char}
    (hb : b = encode text) : Wrote w (writeBytes neverFails w b) text := by
  rw [writeBytes, h]
  exact ⟨h, by rw [hb]; rfl⟩

def comma (i : Nat) : List Char := if i = 0 then [] else [',']

theorem opening_eq {s rest : String} (hs : s.toList = ',' :: rest.toList) (i : Nat) :
    opening s i = encode (comma i ++ rest.toList) := by
  unfold opening comma lit
  split
  · rw [hs]
    rfl
  · rw [hs]
    rfl

theorem wrote_opening {w : ErrorWrapper} (h : w.err = none) (s rest : String)
    (hs : s.toList = ',' :: rest.toList) (i : Nat) :
    Wrote w (writeStrings neverFails w [opening s i]) (comma i ++ rest.toList) := by
  have hstrings := wrote_writeStrings h [comma i ++ rest.toList]
  rwa [List.flatten_singleton, List.map_singleton, ← opening_eq hs] at hstrings

theorem intercalate_cons_eq_flatMap (t : List Char) (ts : List (List Char)) :
    [','].intercalate (t :: ts) = t ++ ts.flatMap fun t => ',' :: t := by
  induction ts generalizing t with
  | nil => simp
  | cons t' ts ih => simp [List.intercalate_cons_cons, ih]

/-- A loop over elements whose bodies keep an invariant and write one element each, all but the
first after a comma. -/
theorem out_foldl_zipIdx {σ α : Type} (out : σ → Bytes) (inv : σ → Prop)
    {body : σ → α × Nat → σ} {item : α → List Char} {xs : List α}
    (hbody : ∀ s x i, x ∈ xs → inv s → inv (body s (x, i)) ∧
      out (body s (x, i)) = out s ++ encode (comma i ++ item x)) {s : σ} (hs : inv s) :
    inv (xs.zipIdx.foldl body s) ∧
      out (xs.zipIdx.foldl body s) = out s ++ encode ([','].intercalate (xs.map item)) := by
  have hlater : ∀ (ys : List α) (k : Nat) (s : σ), (∀ y ∈ ys, y ∈ xs) → inv s →
      inv ((ys.zipIdx (k + 1)).foldl body s) ∧ out ((ys.zipIdx (k + 1)).foldl body s) =
        out s ++ encode (ys.flatMap fun y => ',' :: item y) := by
    intro ys
    induction ys with
    | nil =>
      intro k s _ hs
      exact ⟨hs, by simp⟩
    | cons y ys ih =>
      intro k s hys hs
      obtain ⟨hinv, hout⟩ := hbody s y (k + 1) (hys y (by simp)) hs
      obtain ⟨hinv', hout'⟩ := ih (k + 1) _ (fun z hz => hys z (by simp [hz])) hinv
      rw [List.zipIdx_cons, List.foldl_cons]
      exact ⟨hinv', by rw [hout', hout]; simp [comma]⟩
  cases xs with
  | nil => exact ⟨hs, by simp⟩
  | cons x xs =>
    obtain ⟨hinv, hout⟩ := hbody s x 0 (by simp) hs
    obtain ⟨hinv', hout'⟩ := hlater xs 0 _ (fun z hz => by simp [hz]) hinv
    rw [List.zipIdx_cons, List.foldl_cons]
    refine ⟨hinv', ?_⟩
    rw [hout', hout, List.map_cons, intercalate_cons_eq_flatMap]
    simp [comma, List.flatMap_map]

def hexChar (n : Nat) : Char := "0123456789abcdef".toList.getD n '0'

/-- The escapes of the JSON encoder, with those for HTML. -/
def escapeChar (c : Char) : List Char :=
  if c = '\\' then "\\\\".toList
  else if c = '"' then "\\\"".toList
  else if c = '\n' then "\\n".toList
  else if c = '\r' then "\\r".toList
  else if c = '\t' then "\\t".toList
  else if c.toNat < 0x20 ∨ c = '<' ∨ c = '>' ∨ c = '&' then
    "\\u00".toList ++ [hexChar (c.toNat / 16), hexChar (c.toNat % 16)]
  else if c = Char.ofNat 0x2028 ∨ c = Char.ofNat 0x2029 then
    "\\u202".toList ++ [hexChar (c.toNat % 16)]
  else [c]

/-- A byte that begins no rune is written as the replacement character. -/
def escapeRune : Option Char → List Char
  | none => "\\ufffd".toList
  | some c => escapeChar c

/-- The escaped string. -/
def escapeText (s : Bytes) : List Char := (runes s).flatMap escapeRune

theorem wrote_flush {w : ErrorWrapper} (h : w.err = none) (chunk : List Char) :
    Wrote w (flush neverFails w (encode chunk)) chunk := by
  unfold flush
  split
  · rename_i hnil
    exact ⟨h, by simp [hnil]⟩
  · have hstrings := wrote_writeStrings h [chunk]
    rwa [List.flatten_singleton] at hstrings

theorem escapeChar_of_htmlSafe {b : UInt8} (h : htmlSafeSet b = true) :
    b < 128 ∧ escapeChar (asciiChar b) = [asciiChar b] := by
  have hall : ∀ n < 256, htmlSafeSet (UInt8.ofNat n) = true →
      UInt8.ofNat n < 128 ∧
        escapeChar (asciiChar (UInt8.ofNat n)) = [asciiChar (UInt8.ofNat n)] := by
    decide +kernel
  have hb := hall b.toNat b.toNat_lt
  rw [UInt8.ofNat_toNat] at hb
  exact hb h

theorem escapeChar_of_not_htmlSafe {b : UInt8} (hb : b < 128) (h : htmlSafeSet b = false)
    (hplain : b ≠ 0x5C ∧ b ≠ 0x22 ∧ b ≠ 0x0A ∧ b ≠ 0x0D ∧ b ≠ 0x09) :
    ∃ digits, [hex.getD (b >>> 4).toNat 0, hex.getD (b &&& 0xF).toNat 0] = encode digits ∧
      escapeChar (asciiChar b) = "\\u00".toList ++ digits := by
  refine ⟨[hexChar (b.toNat / 16), hexChar (b.toNat % 16)], ?_⟩
  revert b
  have hall : ∀ n < 128, ∀ b, b = UInt8.ofNat n → htmlSafeSet b = false →
      b ≠ 0x5C ∧ b ≠ 0x22 ∧ b ≠ 0x0A ∧ b ≠ 0x0D ∧ b ≠ 0x09 →
      [hex.getD (b >>> 4).toNat 0, hex.getD (b &&& 0xF).toNat 0] =
          encode [hexChar (b.toNat / 16), hexChar (b.toNat % 16)] ∧
        escapeChar (asciiChar b) =
          "\\u00".toList ++ [hexChar (b.toNat / 16), hexChar (b.toNat % 16)] := by
    simp only [forall_eq]
    decide +kernel
  intro b hb
  exact hall b.toNat hb b (UInt8.ofNat_toNat).symm

theorem wrote_writeEscape {w : ErrorWrapper} (h : w.err = none) {b : UInt8} (hb : b < 128)
    (hsafe : htmlSafeSet b = false) :
    Wrote w (writeEscape neverFails w b) (escapeChar (asciiChar b)) := by
  unfold writeEscape
  split_ifs with h1 h2 h3 h4 h5
  · exact h1 ▸ wrote_lit h _
  · exact h2 ▸ wrote_lit h _
  · exact h3 ▸ wrote_lit h _
  · exact h4 ▸ wrote_lit h _
  · exact h5 ▸ wrote_lit h _
  · obtain ⟨digits, hdigits, htext⟩ := escapeChar_of_not_htmlSafe hb hsafe ⟨h1, h2, h3, h4, h5⟩
    have hopen := wrote_lit h "\\u00"
    rw [htext]
    exact hopen.trans (wrote_writeBytes hopen.err hdigits)

theorem le_toNat_of_decodeRune {b : UInt8} {rest : Bytes} {c : Char} (hb : ¬b < 128)
    (h : decodeRune (b :: rest) = some c) : 128 ≤ c.toNat := by
  by_contra hlt
  have heq := eq_append_of_decodeRune h
  rw [encodeChar_ascii (Nat.lt_of_not_le hlt), List.cons_append] at heq
  have hc := Nat.lt_of_not_le hlt
  rw [(List.cons.inj heq).1] at hb
  apply hb
  rw [UInt8.lt_iff_toNat_lt, UInt8.toNat_ofNat_of_lt' (Nat.lt_trans hc (by decide))]
  exact hc

theorem escapeText_none {b : UInt8} {rest : Bytes} (h : decodeRune (b :: rest) = none) :
    escapeText (b :: rest) = "\\ufffd".toList ++ escapeText rest := by
  rw [escapeText, runes, h]
  rfl

theorem escapeText_some {b : UInt8} {rest : Bytes} {c : Char}
    (h : decodeRune (b :: rest) = some c) :
    escapeText (b :: rest) = escapeChar c ++ escapeText (rest.drop (c.utf8Size - 1)) := by
  rw [escapeText, runes, h]
  rfl

theorem wrote_escapeLoop_wide {w : ErrorWrapper} (h : w.err = none) (chunk : List Char)
    {b : UInt8} {rest : Bytes} {c : Char} (hb : ¬b < 128) (hc : decodeRune (b :: rest) = some c)
    (ih : ∀ {w : ErrorWrapper}, w.err = none → ∀ chunk : List Char,
      Wrote w (escapeLoop neverFails true w (encode chunk) (rest.drop (c.utf8Size - 1)))
        (chunk ++ escapeText (rest.drop (c.utf8Size - 1)))) :
    Wrote w (escapeLoop neverFails true w (encode chunk) (b :: rest))
      (chunk ++ escapeText (b :: rest)) := by
  have hwide := le_toNat_of_decodeRune hb hc
  have herror : ¬(c = replacement ∧ c.utf8Size = 1) := by
    rintro ⟨rfl, hsize⟩
    exact absurd hsize (by decide)
  rw [escapeLoop, if_neg (show ¬b < runeSelf from hb), escapeText_some hc]
  simp only [decodeRuneInString, hc, if_neg herror]
  split_ifs with hsep
  · have hflush := wrote_flush h chunk
    have hlit := wrote_lit hflush.err "\\u202"
    have hdigit : [hex.getD (c.toNat &&& 0xF) 0] = encode [hexChar (c.toNat % 16)] ∧
        escapeChar c = "\\u202".toList ++ [hexChar (c.toNat % 16)] := by
      rcases hsep with rfl | rfl <;> decide
    have hbytes := wrote_writeBytes hlit.err hdigit.1
    rw [hdigit.2]
    simpa using hflush.trans (hlit.trans (hbytes.trans (ih hbytes.err [])))
  · have hne : ∀ d : Char, d.toNat < 128 → c ≠ d := by
      rintro d hd rfl
      omega
    have hplain : escapeChar c = [c] := by
      simp [escapeChar, hne, hsep, show ¬c.toNat < 0x20 by omega]
    have hchunk : encode chunk ++ b :: rest.take (c.utf8Size - 1) = encode (chunk ++ [c]) := by
      simp [cons_take_of_decodeRune hc]
    rw [hchunk, hplain]
    simpa using ih h (chunk ++ [c])

theorem wrote_escapeLoop {w : ErrorWrapper} (h : w.err = none) (chunk : List Char) (s : Bytes) :
    Wrote w (escapeLoop neverFails true w (encode chunk) s) (chunk ++ escapeText s) := by
  induction s using runes.induct generalizing w chunk with
  | case1 =>
    rw [escapeLoop, escapeText, runes, List.flatMap_nil, List.append_nil]
    exact wrote_flush h chunk
  | case2 b rest hnone ih =>
    have hb : ¬b < 128 := fun hb => by
      rw [decodeRune_ascii hb] at hnone
      cases hnone
    have hflush := wrote_flush h chunk
    have hlit := wrote_lit hflush.err "\\ufffd"
    rw [escapeLoop, if_neg (show ¬b < runeSelf from hb), escapeText_none hnone]
    simp only [decodeRuneInString, hnone, and_self, if_true]
    exact hflush.trans (hlit.trans (ih hlit.err []))
  | case3 b rest c hsome ih =>
    rcases Classical.em (b < 128) with hb | hb
    · cases (decodeRune_ascii hb rest).symm.trans hsome
      have hsize : (asciiChar b).utf8Size - 1 = 0 := by
        rw [← String.length_utf8EncodeChar, encodeChar_asciiChar hb]
        rfl
      rw [hsize] at ih
      rw [escapeLoop, if_pos (show b < runeSelf from hb), escapeText_some hsome, hsize]
      cases hsafe : htmlSafeSet b with
      | true =>
        have hchunk : encode chunk ++ [b] = encode (chunk ++ [asciiChar b]) := by
          simp [encodeChar_asciiChar hb]
        rw [Bool.true_or, if_pos rfl, hchunk, (escapeChar_of_htmlSafe hsafe).2]
        simpa using ih h (chunk ++ [asciiChar b])
      | false =>
        have hflush := wrote_flush h chunk
        have hescape := wrote_writeEscape hflush.err hb hsafe
        exact hflush.trans (hescape.trans (ih hescape.err []))
    · exact wrote_escapeLoop_wide h chunk hb hsome ih

theorem wrote_writeEscapedString {w : ErrorWrapper} (h : w.err = none) (s : Bytes) :
    Wrote w (writeEscapedString neverFails w s true) (escapeText s) := by
  rw [writeEscapedString, h]
  exact wrote_escapeLoop h [] s

/-- A string as its characters, with the replacement character for what is none. -/
def textOf (s : Bytes) : List Char := (runes s).map fun r => r.getD replacement

theorem codeUnit_ascii {n : Nat} (hn : n < 128) :
    codeUnit ['0', '0', hexChar (n / 16), hexChar (n % 16)] = some (n, []) := by
  revert n
  decide +kernel

theorem spellsChar_escapeChar (c : Char) : SpellsChar (escapeChar c) c := by
  unfold escapeChar
  split_ifs with h1 h2 h3 h4 h5 hascii hsep
  · exact h1 ▸ spellsChar_escape fun _ => rfl
  · exact h2 ▸ spellsChar_escape fun _ => rfl
  · exact h3 ▸ spellsChar_escape fun _ => rfl
  · exact h4 ▸ spellsChar_escape fun _ => rfl
  · exact h5 ▸ spellsChar_escape fun _ => rfl
  · have hlt : c.toNat < 128 := by
      rcases hascii with h | rfl | rfl | rfl
      · omega
      all_goals decide
    have hspells := spellsChar_unicode (codeUnit_ascii hlt) (Or.inl (by omega))
    rwa [Char.ofNat_toNat] at hspells
  · rcases hsep with rfl | rfl
    · exact spellsChar_unicode (show codeUnit ['2', '0', '2', '8'] = some (0x2028, []) by decide)
        (by decide)
    · exact spellsChar_unicode (show codeUnit ['2', '0', '2', '9'] = some (0x2029, []) by decide)
        (by decide)
  · exact spellsChar_plain ⟨h2, h1, Nat.le_of_not_lt fun h => hascii (Or.inl h)⟩

theorem spells_escapeText (s : Bytes) : Spells (escapeText s) (textOf s) := by
  refine spells_flatMap (runes s) fun r _ => ?_
  cases r with
  | none =>
    exact spellsChar_unicode (show codeUnit ['f', 'f', 'f', 'd'] = some (0xFFFD, []) by decide)
      (by decide)
  | some c => exact spellsChar_escapeChar c

theorem textOf_encode (cs : List Char) : textOf (encode cs) = cs := by
  simp [textOf, runes_encode, Function.comp_def]

theorem toNat_lt_of_numberChar {c : Char} (h : isNumberChar c = true) : c.toNat < 128 := by
  by_contra hge
  have hne : ∀ d : Char, d.toNat < 128 → c ≠ d := by
    rintro d hd rfl
    exact hge hd
  have hdigit : isDigit c = false := by
    simp only [isDigit, Bool.and_eq_false_iff, decide_eq_false_iff_not]
    right
    intro hle
    have : c.toNat ≤ 57 := hle
    omega
  simp [isNumberChar, classify, hne, hdigit] at h

theorem encode_chars_of_isNumber {b : Bytes} (h : isNumber (chars b) = true) :
    encode (chars b) = b := by
  refine encode_map_asciiChar fun x hx => ?_
  have hchar := toNat_lt_of_numberChar (numberChar_of_isNumber h _ (List.mem_map_of_mem hx))
  rwa [toNat_asciiChar] at hchar

/-- A time as it is written. -/
def timeText (strconv : Strconv) (t : Int64) : List Char := chars (jsonFloat strconv (seconds t)).1

/-- A value as it is written. -/
def valueText (strconv : Strconv) (v : Float) : List Char := chars (strconv.appendFloat v .f)

theorem cleanUp_buffer (fmt : Fmt) (b : Bytes) :
    (∃ tail, (cleanUp fmt b).2 = (cleanUp fmt b).1 ++ tail) ∧
      (cleanUp fmt b).2.length = b.length := by
  unfold cleanUp
  split
  · rename_i d rest hrev
    refine ⟨⟨[d], rfl⟩, ?_⟩
    have hlen := congrArg List.length hrev
    simp only [List.length_reverse, List.length_cons] at hlen
    simp [hlen]
  · exact ⟨⟨[], by simp⟩, rfl⟩

theorem isNumber_cleanUp (fmt : Fmt) {b : Bytes} (h : isNumber (chars b) = true) :
    isNumber (chars (cleanUp fmt b).1) = true := by
  unfold cleanUp
  split
  · rename_i d rest hrev
    have hb : b = rest.reverse ++ [101, 45, 48, d] := by
      rw [← List.reverse_reverse b, hrev]
      simp
    have hlast : ∀ (q : Number) (c : NumberChar),
        ((((q.next .exp).next .minus).next .zero).next c).accepted = true →
          (((q.next .exp).next .minus).next c).accepted = true := by
      intro q c
      cases q <;> cases c <;> decide
    rw [hb] at h
    simp only [isNumber, chars, List.map_append, List.foldl_append, List.map_cons, List.map_nil,
      List.foldl_cons, List.foldl_nil, List.reverse_cons, List.append_assoc, List.cons_append,
      List.nil_append] at h ⊢
    exact hlast _ _ h
  · exact h

section Prints

variable {strconv : Strconv} {p : Point} (hp : strconv.Prints p)
include hp

theorem isNumber_timeText : isNumber (timeText strconv p.t) = true :=
  isNumber_cleanUp _ hp.time_number

theorem encode_timeText : encode (timeText strconv p.t) = (jsonFloat strconv (seconds p.t)).1 :=
  encode_chars_of_isNumber (isNumber_timeText hp)

theorem encode_valueText : encode (valueText strconv p.v) = strconv.appendFloat p.v .f :=
  encode_map_asciiChar fun b hb => (hp.value_plain b hb).1

theorem spells_valueText : Spells (valueText strconv p.v) (valueText strconv p.v) := by
  refine spells_plain fun c hc => ?_
  obtain ⟨b, hb, rfl⟩ := List.mem_map.mp hc
  exact (hp.value_plain b hb).2

theorem wrote_writeFloat {w : ErrorWrapper} (h : w.err = none) :
    Wrote w (writeFloat neverFails strconv w p.v) (valueText strconv p.v) := by
  have hbytes := wrote_writeBytes (w := { w with floatScratch := strconv.appendFloat p.v .f }) h
    (encode_valueText hp).symm
  exact ⟨hbytes.err, hbytes.out⟩

theorem wrote_writeJsonFloat {w : ErrorWrapper} (h : w.err = none) :
    Wrote w (writeJsonFloat neverFails strconv w (seconds p.t)).1 (timeText strconv p.t) := by
  have hbytes := fun scratch => wrote_writeBytes (w := { w with jsonScratch := scratch }) h
    (encode_timeText hp).symm
  exact ⟨(hbytes _).err, (hbytes _).out⟩

end Prints

section Scratch

variable (writer : Writer)

@[simp] theorem jsonScratch_write (w : ErrorWrapper) (b : Bytes) :
    (write writer w b).jsonScratch = w.jsonScratch := by
  unfold write
  split <;> rfl

@[simp] theorem jsonScratch_writeStrings (w : ErrorWrapper) (strings : List Bytes) :
    (writeStrings writer w strings).jsonScratch = w.jsonScratch := by
  have hloop : ∀ w, (writeEach writer w strings).jsonScratch = w.jsonScratch := by
    induction strings with
    | nil => exact fun w => rfl
    | cons s strings ih =>
      intro w
      simp only [writeEach]
      split
      · exact jsonScratch_write writer w s
      · rw [ih, jsonScratch_write]
  unfold writeStrings
  split
  · rfl
  · exact hloop w

@[simp] theorem jsonScratch_writeBytes (w : ErrorWrapper) (b : Bytes) :
    (writeBytes writer w b).jsonScratch = w.jsonScratch := by
  unfold writeBytes
  split
  · rfl
  · exact jsonScratch_write writer w b

@[simp] theorem jsonScratch_writeFloat (strconv : Strconv) (w : ErrorWrapper) (v : Float) :
    (writeFloat writer strconv w v).jsonScratch = w.jsonScratch :=
  jsonScratch_writeBytes writer { w with floatScratch := _ } _

@[simp] theorem jsonScratch_flush (w : ErrorWrapper) (chunk : Bytes) :
    (flush writer w chunk).jsonScratch = w.jsonScratch := by
  unfold flush
  split
  · rfl
  · exact jsonScratch_writeStrings writer w _

@[simp] theorem jsonScratch_writeEscape (w : ErrorWrapper) (b : UInt8) :
    (writeEscape writer w b).jsonScratch = w.jsonScratch := by
  unfold writeEscape
  split_ifs <;> simp

theorem jsonScratch_escapeLoop (escapeHTML : Bool) (w : ErrorWrapper) (chunk s : Bytes) :
    (escapeLoop writer escapeHTML w chunk s).jsonScratch = w.jsonScratch := by
  fun_induction escapeLoop writer escapeHTML w chunk s with
  | case1 w chunk => exact jsonScratch_flush writer w chunk
  | case2 w chunk b rest _ _ ih => exact ih
  | case3 w chunk b rest _ _ ih => simp [ih]
  | case4 w chunk b rest _ c size _ _ ih => simp [ih]
  | case5 w chunk b rest _ c size _ _ _ w' ih =>
    rw [ih, jsonScratch_writeBytes]
    simp [w']
  | case6 w chunk b rest _ c size _ _ _ ih => exact ih

@[simp] theorem jsonScratch_writeEscapedString (w : ErrorWrapper) (s : Bytes)
    (escapeHTML : Bool) :
    (writeEscapedString writer w s escapeHTML).jsonScratch = w.jsonScratch := by
  unfold writeEscapedString
  split
  · rfl
  · exact jsonScratch_escapeLoop writer escapeHTML w [] s

@[simp] theorem jsonScratch_marshalLabels (w : ErrorWrapper) (labels : List Label) :
    (marshalLabels writer w labels).jsonScratch = w.jsonScratch := by
  unfold marshalLabels
  induction labels.zipIdx generalizing w with
  | nil => rfl
  | cons label labels ih =>
    rw [List.foldl_cons, ih]
    simp [marshalLabel]

end Scratch

theorem jsonScratch_writeJsonFloat {strconv : Strconv} {p : Point} (hp : strconv.Prints p)
    (writer : Writer) (w : ErrorWrapper) :
    (writeJsonFloat writer strconv w (seconds p.t)).2 = (encode (timeText strconv p.t)).length ∧
      (writeJsonFloat writer strconv w (seconds p.t)).1.jsonScratch.take
        (writeJsonFloat writer strconv w (seconds p.t)).2 = encode (timeText strconv p.t) := by
  rw [encode_timeText hp]
  refine ⟨rfl, ?_⟩
  obtain ⟨⟨tail, htail⟩, hlen⟩ := cleanUp_buffer (jsonFmt (seconds p.t))
    (strconv.appendFloat (seconds p.t) (jsonFmt (seconds p.t)))
  have hfits : (jsonFloat strconv (seconds p.t)).2.length ≤ 64 := hlen ▸ hp.time_length
  simp only [writeJsonFloat, jsonScratch_writeBytes, if_pos hfits]
  rw [show (jsonFloat strconv (seconds p.t)).2 = (jsonFloat strconv (seconds p.t)).1 ++ tail
      from htail, List.append_assoc, List.take_left' rfl]

def labelText (l : Label) : List Char :=
  member (escapeText (encode l.name.toList)) (quoted (escapeText (encode l.value.toList)))

def labelsText (labels : List Label) : List Char := braces (labels.map labelText)

variable (strconv : Strconv)

def pointText (p : Point) : List Char :=
  brackets [timeText strconv p.t, quoted (valueText strconv p.v)]

def seriesText (s : Series) : List Char :=
  braces [member "metric".toList (labelsText s.metric),
    member "values".toList (brackets (s.points.elems.map (pointText strconv)))]

def sampleText (s : Sample) : List Char :=
  braces [member "metric".toList (labelsText s.metric),
    member "value".toList (pointText strconv s.point)]

theorem wrote_loop {α : Type} {body : ErrorWrapper → α × Nat → ErrorWrapper}
    {item : α → List Char} {xs : List α}
    (hbody : ∀ x ∈ xs, ∀ (i : Nat) {w : ErrorWrapper}, w.err = none →
      Wrote w (body w (x, i)) (comma i ++ item x))
    {w : ErrorWrapper} (h : w.err = none) :
    Wrote w (xs.zipIdx.foldl body w) ([','].intercalate (xs.map item)) := by
  obtain ⟨herr, hout⟩ := out_foldl_zipIdx ErrorWrapper.out (fun w => w.err = none)
    (fun w x i hx hw => ⟨(hbody x hx i hw).err, (hbody x hx i hw).out⟩) h
  exact ⟨herr, hout⟩

theorem wrote_marshalLabel {w : ErrorWrapper} (label : Label) (i : Nat) (h : w.err = none) :
    Wrote w (marshalLabel neverFails w (label, i)) (comma i ++ labelText label) := by
  have h1 := wrote_opening h ",\"" "\"" rfl i
  have h2 := wrote_writeEscapedString h1.err (encode label.name.toList)
  have h3 := wrote_lit h2.err "\":\""
  have h4 := wrote_writeEscapedString h3.err (encode label.value.toList)
  have h5 := wrote_lit h4.err "\""
  exact (h1.trans (h2.trans (h3.trans (h4.trans h5)))).congr
    (by simp [labelText, member, quoted])

theorem wrote_marshalLabels {w : ErrorWrapper} (h : w.err = none) (labels : List Label) :
    Wrote w (marshalLabels neverFails w labels) ([','].intercalate (labels.map labelText)) :=
  wrote_loop (fun label _ i _ => wrote_marshalLabel label i) h

theorem wrote_marshalPoint {strconv : Strconv} {w : ErrorWrapper} {p : Point}
    (hp : strconv.Prints p) (i : Nat) (h : w.err = none) :
    Wrote w (marshalPoint neverFails strconv w (p, i)) (comma i ++ pointText strconv p) := by
  have h1 := wrote_opening h ",[" "[" rfl i
  have h2 := wrote_writeJsonFloat hp h1.err
  have h3 := wrote_lit h2.err ",\""
  have h4 := wrote_writeFloat hp h3.err
  have h5 := wrote_lit h4.err "\"]"
  exact (h1.trans (h2.trans (h3.trans (h4.trans h5)))).congr
    (by simp [pointText, brackets, quoted, List.intercalate_cons_cons])

theorem wrote_marshalSeries {strconv : Strconv} {w : ErrorWrapper} {series : Series}
    (hpoints : ∀ p ∈ series.points.elems, strconv.Prints p) (i : Nat) (h : w.err = none) :
    Wrote w (marshalSeries neverFails strconv w (series, i))
      (comma i ++ seriesText strconv series) := by
  have h1 := wrote_opening h ",\x7b\"metric\":\x7b" "\x7b\"metric\":\x7b" rfl i
  have h2 := wrote_marshalLabels h1.err series.metric
  have h3 := wrote_lit h2.err "\x7d,\"values\":["
  have h4 := wrote_loop (fun p hp i _ => wrote_marshalPoint (hpoints p hp) i) h3.err
  have h5 := wrote_lit h4.err "]\x7d"
  exact (h1.trans (h2.trans (h3.trans (h4.trans h5)))).congr
    (by simp [seriesText, labelsText, brackets, braces, member, List.intercalate_cons_cons])

/-- In the loop over a vector with one time, nothing is cached yet or that time is. -/
structure Cached (t : Int64) (w : ErrorWrapper) (floatLen : Nat) : Prop where
  err : w.err = none
  scratch : floatLen = 0 ∨ floatLen = (encode (timeText strconv t)).length ∧
    w.jsonScratch.take floatLen = encode (timeText strconv t)

theorem wrote_marshalTime {strconv : Strconv} {p : Point} (hp : strconv.Prints p)
    {w : ErrorWrapper} {floatLen : Nat} (h : Cached strconv p.t w floatLen) :
    Wrote w (marshalTime neverFails strconv w floatLen p.t).1 (timeText strconv p.t) ∧
      Cached strconv p.t (marshalTime neverFails strconv w floatLen p.t).1
        (marshalTime neverFails strconv w floatLen p.t).2 := by
  unfold marshalTime
  split
  · have hwrote := wrote_writeJsonFloat hp h.err
    exact ⟨hwrote, hwrote.err, Or.inr (jsonScratch_writeJsonFloat hp neverFails w)⟩
  · rename_i hpos
    obtain ⟨hlen, hscratch⟩ := h.scratch.resolve_left hpos
    have hwrote : Wrote w (writeCachedJsonFloat neverFails w floatLen) (timeText strconv p.t) :=
      wrote_writeBytes h.err hscratch
    refine ⟨hwrote, hwrote.err, Or.inr ⟨hlen, ?_⟩⟩
    rw [writeCachedJsonFloat, jsonScratch_writeBytes]
    exact hscratch

theorem Cached.of_wrote {strconv : Strconv} {t : Int64} {w w' : ErrorWrapper} {floatLen : Nat}
    {text : List Char} (h : Cached strconv t w floatLen) (hwrote : Wrote w w' text)
    (hscratch : w'.jsonScratch = w.jsonScratch) : Cached strconv t w' floatLen :=
  ⟨hwrote.err, hscratch ▸ h.scratch⟩

theorem wrote_marshalSample {strconv : Strconv} {t : Int64} {s : ErrorWrapper × Nat}
    {sample : Sample} (hp : strconv.Prints sample.point) (i : Nat) (ht : sample.point.t = t)
    (h : Cached strconv t s.1 s.2) :
    Wrote s.1 (marshalSample neverFails strconv s (sample, i)).1
        (comma i ++ sampleText strconv sample) ∧
      Cached strconv t (marshalSample neverFails strconv s (sample, i)).1
        (marshalSample neverFails strconv s (sample, i)).2 := by
  subst ht
  have h1 := wrote_opening h.err ",\x7b\"metric\":\x7b" "\x7b\"metric\":\x7b" rfl i
  have h2 := wrote_marshalLabels h1.err sample.metric
  have h3 := wrote_lit h2.err "\x7d,\"value\":["
  have hbefore := h.of_wrote (h1.trans (h2.trans h3)) (by simp)
  obtain ⟨h4, htime⟩ := wrote_marshalTime hp hbefore
  have h5 := wrote_lit h4.err ",\""
  have h6 := wrote_writeFloat hp h5.err
  have h7 := wrote_lit h6.err "\""
  have h8 := wrote_lit h7.err "]\x7d"
  have hafter := htime.of_wrote (h5.trans (h6.trans (h7.trans h8))) (by simp)
  have hall := h1.trans (h2.trans (h3.trans (h4.trans (h5.trans (h6.trans (h7.trans h8))))))
  exact ⟨hall.congr (by simp [sampleText, pointText, labelsText, brackets, braces, member, quoted,
    List.intercalate_cons_cons]), hafter⟩

def warningText (warning : Bytes) : List Char := quoted (escapeText warning)

/-- The member `data`. -/
def dataText (resultType : String) (result : List (List Char)) : List Char :=
  braces [member "resultType".toList (quoted resultType.toList),
    member "result".toList (brackets result)]

/-- The members of a response; without warnings there is none for them. -/
def responseMembers (data : List Char) (warnings : List Bytes) : List (List Char) :=
  member "status".toList (quoted "success".toList) :: member "data".toList data ::
    if warnings = [] then []
    else [member "warnings".toList (brackets (warnings.map warningText))]

theorem wrote_marshalWarning {w : ErrorWrapper} (warning : Bytes) (i : Nat) (h : w.err = none) :
    Wrote w (marshalWarning neverFails w (warning, i)) (comma i ++ warningText warning) := by
  have h1 := wrote_opening h ",\"" "\"" rfl i
  have h2 := wrote_writeEscapedString h1.err warning
  have h3 := wrote_lit h2.err "\""
  exact (h1.trans (h2.trans h3)).congr (by simp [warningText, quoted])

theorem wrote_marshalCommonHeader :
    Wrote {} (marshalCommonHeader neverFails {}) "\x7b\"status\":\"success\",\"data\":".toList :=
  wrote_lit rfl _

theorem wrote_response {data : List Char} {w : ErrorWrapper} (warnings : List Bytes)
    (h : Wrote (marshalCommonHeader neverFails {}) w data) :
    Wrote {} (marshalCommonFooter neverFails w warnings)
      (braces (responseMembers data warnings) ++ ['\n']) := by
  unfold marshalCommonFooter
  cases warnings with
  | nil =>
    have hend := wrote_lit h.err "\x7d\n"
    exact (wrote_marshalCommonHeader.trans (h.trans hend)).congr
      (by simp [responseMembers, braces, member, quoted, List.intercalate_cons_cons])
  | cons warning warnings =>
    have h1 := wrote_lit h.err ",\"warnings\":["
    have h2 := wrote_loop (fun text (_ : text ∈ warning :: warnings) i _ =>
      wrote_marshalWarning text i) h1.err
    have h3 := wrote_lit h2.err "]"
    have h4 := wrote_lit h3.err "\x7d\n"
    exact (wrote_marshalCommonHeader.trans (h.trans (h1.trans (h2.trans (h3.trans h4))))).congr
      (by simp [responseMembers, brackets, braces, member, quoted, List.intercalate_cons_cons])

theorem wrote_marshalMatrixData {strconv : Strconv} {w : ErrorWrapper} (h : w.err = none)
    {data : Matrix} (hdata : ∀ s ∈ data.elems, ∀ p ∈ s.points.elems, strconv.Prints p) :
    Wrote w (marshalMatrixData neverFails strconv w data)
      (dataText "matrix" (data.elems.map (seriesText strconv))) := by
  have h1 := wrote_writeStrings h
    ["\x7b\"resultType\":\"".toList, "matrix".toList, "\",\"result\":[".toList]
  have h2 := wrote_loop (fun s hs i _ => wrote_marshalSeries (hdata s hs) i) h1.err
  have h3 := wrote_lit h2.err "]\x7d"
  exact (h1.trans (h2.trans h3)).congr
    (by simp [dataText, brackets, braces, member, quoted, List.intercalate_cons_cons])

theorem wrote_marshalVectorData {strconv : Strconv} {w : ErrorWrapper} (h : w.err = none)
    {data : Vector} {t : Int64} (hdata : ∀ sample ∈ data.elems, strconv.Prints sample.point)
    (ht : ∀ sample ∈ data.elems, sample.point.t = t) :
    Wrote w (marshalVectorData neverFails strconv w data)
      (dataText "vector" (data.elems.map (sampleText strconv))) := by
  have h1 := wrote_writeStrings h
    ["\x7b\"resultType\":\"".toList, "vector".toList, "\",\"result\":[".toList]
  obtain ⟨hcached, hout⟩ := out_foldl_zipIdx (fun s : ErrorWrapper × Nat => s.1.out)
    (fun s => Cached strconv t s.1 s.2)
    (fun s x i hx hs => ⟨(wrote_marshalSample (hdata x hx) i (ht x hx) hs).2,
      (wrote_marshalSample (hdata x hx) i (ht x hx) hs).1.out⟩)
    (s := (_, 0)) ⟨h1.err, Or.inl rfl⟩
  have h2 := Wrote.mk hcached.err hout
  have h3 := wrote_lit h2.err "]\x7d"
  exact (h1.trans (h2.trans h3)).congr
    (by simp [dataText, brackets, braces, member, quoted, List.intercalate_cons_cons])

end TimescalePrometheus.Api.Marshal
