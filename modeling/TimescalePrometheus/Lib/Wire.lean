import TimescalePrometheus.Lib.LengthPrefixed

/-!
Decoders for the protobuf wire format as they are generated for a message: one loop that reads a
tag, hands the field to its own reader and keeps what it does not know.
-/

namespace TimescalePrometheus.Lib.Wire

open Lib.LengthPrefixed (Bytes)

/-- The errors of the generated code. -/
inductive WireError
  | unexpectedEOF
  | intOverflow
  | invalidLength
  | unexpectedEndOfGroup
  | illegalWireType (wireType : Nat)
  | endGroup (message : String)
  | illegalTag (message : String) (fieldNum : Int) (wire : Nat)
  | wrongWireType (wireType : Nat) (field : String)
  deriving DecidableEq

/-- As `Error` prints it. -/
def WireError.text : WireError → String
  | unexpectedEOF => "unexpected EOF"
  | intOverflow => "proto: integer overflow"
  | invalidLength => "proto: negative length found during unmarshaling"
  | unexpectedEndOfGroup => "proto: unexpected end of group"
  | illegalWireType wireType => "proto: illegal wireType " ++ toString wireType
  | endGroup message => "proto: " ++ message ++ ": wiretype end group for non-group"
  | illegalTag message fieldNum wire =>
    "proto: " ++ message ++ ": illegal tag " ++ toString fieldNum ++ " (wire type " ++
      toString wire ++ ")"
  | wrongWireType wireType field =>
    "proto: wrong wireType = " ++ toString wireType ++ " for field " ++ field

/-- The bits that are read, and the index after them. The loop gives up once the shift has
reached 64, that is after ten bytes. -/
def varint (dAtA : Bytes) : Nat → Nat → UInt64 → Nat → UInt64 × Except WireError Nat
  | 0, _, v, _ => (v, .error .intOverflow)
  | rounds + 1, shift, v, i =>
    match dAtA[i]? with
    | none => (v, .error .unexpectedEOF)
    | some b =>
      let v := v ||| ((b &&& 0x7F).toUInt64 <<< shift.toUInt64)
      if b < 0x80 then (v, .ok (i + 1)) else varint dAtA rounds (shift + 7) v (i + 1)

/-- At most ten bytes. -/
def readVarint (dAtA : Bytes) (i : Nat) : UInt64 × Except WireError Nat :=
  varint dAtA 10 0 0 i

theorem lt_of_varint {dAtA : Bytes} {rounds shift : Nat} {v : UInt64} {i j : Nat}
    (h : (varint dAtA rounds shift v i).2 = .ok j) : i < j := by
  induction rounds generalizing shift v i with
  | zero => cases h
  | succ rounds ih =>
    simp only [varint] at h
    split at h
    · cases h
    · split at h
      · cases h
        exact Nat.lt_succ_self i
      · exact Nat.lt_of_succ_lt (ih h)

/-- `i + n` as an index of `l` bytes. -/
def advance (l i n : Nat) : Except WireError Nat :=
  if 2 ^ 63 ≤ i + n then .error .invalidLength
  else if l < i + n then .error .unexpectedEOF
  else .ok (i + n)

theorem advance_ok {l i n j : Nat} (h : advance l i n = .ok j) : j = i + n := by
  unfold advance at h
  split_ifs at h
  cases h
  rfl

/-- A length that is not negative as a signed number, and the index after it. -/
def readLength (dAtA : Bytes) (i : Nat) : Except WireError (Nat × Nat) :=
  match readVarint dAtA i with
  | (_, .error err) => .error err
  | (v, .ok j) => if 2 ^ 63 ≤ v.toNat then .error .invalidLength else .ok (v.toNat, j)

theorem lt_of_readLength {dAtA : Bytes} {i n j : Nat} (h : readLength dAtA i = .ok (n, j)) :
    i < j := by
  unfold readLength at h
  split at h
  · cases h
  · rename_i v j' hread
    split_ifs at h
    cases h
    exact lt_of_varint (congrArg Prod.snd hread)

/-- What stands after the tag of an unknown field: the depth of groups and the index. -/
def skipValue (dAtA : Bytes) (wireType depth i : Nat) : Except WireError (Nat × Nat) :=
  match wireType with
  | 0 => (readVarint dAtA i).2.map (depth, ·)
  | 1 => .ok (depth, i + 8)
  | 2 => (readLength dAtA i).map fun (n, j) => (depth, j + n)
  | 3 => .ok (depth + 1, i)
  | 4 => if depth = 0 then .error .unexpectedEndOfGroup else .ok (depth - 1, i)
  | 5 => .ok (depth, i + 4)
  | _ => .error (.illegalWireType wireType)

theorem le_of_skipValue {dAtA : Bytes} {wireType depth i depth' j : Nat}
    (h : skipValue dAtA wireType depth i = .ok (depth', j)) : i ≤ j := by
  unfold skipValue at h
  split at h
  · cases hread : (readVarint dAtA i).2 with
    | error err => simp [hread, Except.map] at h
    | ok k =>
      obtain ⟨-, rfl⟩ : depth = depth' ∧ k = j := by simpa [hread, Except.map] using h
      exact Nat.le_of_lt (lt_of_varint hread)
  · cases h
    omega
  · cases hread : readLength dAtA i with
    | error err => simp [hread, Except.map] at h
    | ok result =>
      obtain ⟨n, k⟩ := result
      obtain ⟨-, rfl⟩ : depth = depth' ∧ k + n = j := by simpa [hread, Except.map] using h
      have := lt_of_readLength hread
      omega
  · cases h
    omega
  · split_ifs at h
    cases h
    omega
  · cases h
    omega
  · cases h

def skipFrom (dAtA : Bytes) (depth i : Nat) : Except WireError Nat :=
  if _hi : i < dAtA.length then
    match _htag : readVarint dAtA i with
    | (_, .error err) => .error err
    | (wire, .ok j) =>
      match _hvalue : skipValue dAtA (wire &&& 0x7).toNat depth j with
      | .error err => .error err
      | .ok (depth, k) =>
        if 2 ^ 63 ≤ k then .error .invalidLength
        else if depth = 0 then .ok k
        else skipFrom dAtA depth k
  else .error .unexpectedEOF
termination_by dAtA.length - i
decreasing_by
  have := lt_of_varint (congrArg Prod.snd _htag)
  have := le_of_skipValue _hvalue
  omega

/-- The length of a field that is not known. -/
def skip (dAtA : Bytes) : Except WireError Nat := skipFrom dAtA 0 0

theorem lt_of_skipFrom {dAtA : Bytes} {depth i n : Nat} (h : skipFrom dAtA depth i = .ok n) :
    i < n := by
  fun_induction skipFrom dAtA depth i with
  | case1 | case2 | case3 | case6 => cases h
  | case4 depth i _ wire j htag _ k hvalue =>
    cases h
    exact Nat.lt_of_lt_of_le (lt_of_varint (congrArg Prod.snd htag)) (le_of_skipValue hvalue)
  | case5 depth i _ wire j htag depth' k hvalue _ _ ih =>
    have hij := lt_of_varint (congrArg Prod.snd htag)
    have hjk := le_of_skipValue hvalue
    exact Nat.lt_trans (Nat.lt_of_lt_of_le hij hjk) (ih h)

/-- A known field. Reading can change the message before it fails. -/
structure Field (μ : Type) where
  name : String
  wireType : Nat
  read : Bytes → Nat → μ → μ × Except WireError Nat
  progress : ∀ {dAtA : Bytes} {i j : Nat} {m : μ}, (read dAtA i m).2 = .ok j → i ≤ j

/-- A message with its fields. -/
structure Schema (μ : Type) where
  message : String
  field? : Int → Option (Field μ)
  unrecognized : Bytes → μ → μ

section Loop

variable {μ ν : Type}

/-- One round of the loop: a tag and its field. -/
def Schema.readField (s : Schema μ) (dAtA : Bytes) (i : Nat) (m : μ) : μ × Except WireError Nat :=
  match readVarint dAtA i with
  | (_, .error err) => (m, .error err)
  | (wire, .ok j) =>
    let fieldNum := (wire >>> 3).toUInt32.toInt32.toInt
    let wireType := (wire &&& 0x7).toNat
    if wireType = 4 then (m, .error (.endGroup s.message))
    else if fieldNum ≤ 0 then (m, .error (.illegalTag s.message fieldNum wire.toNat))
    else
      match s.field? fieldNum with
      | some f =>
        if wireType ≠ f.wireType then (m, .error (.wrongWireType wireType f.name))
        else f.read dAtA j m
      | none =>
        match skip (dAtA.drop i) with
        | .error err => (m, .error err)
        | .ok n =>
          match advance dAtA.length i n with
          | .error err => (m, .error err)
          | .ok j => (s.unrecognized ((dAtA.drop i).take n) m, .ok j)

theorem lt_of_readField {s : Schema μ} {dAtA : Bytes} {i j : Nat} {m : μ}
    (h : (s.readField dAtA i m).2 = .ok j) : i < j := by
  unfold Schema.readField at h
  split at h
  · cases h
  · rename_i wire k htag
    have hk := lt_of_varint (congrArg Prod.snd htag)
    dsimp only at h
    split_ifs at h
    split at h
    · split_ifs at h
      exact Nat.lt_of_lt_of_le hk (Field.progress _ h)
    · split at h
      · cases h
      · rename_i n hskip
        split at h
        · cases h
        · rename_i j' hadvance
          cases h
          have hn := lt_of_skipFrom hskip
          have hj := advance_ok hadvance
          omega

def Schema.unmarshalFrom (s : Schema μ) (dAtA : Bytes) (i : Nat) (m : μ) : μ × Option WireError :=
  if _hi : i < dAtA.length then
    match _hround : s.readField dAtA i m with
    | (m, .error err) => (m, some err)
    | (m, .ok j) => s.unmarshalFrom dAtA j m
  else (m, if dAtA.length < i then some .unexpectedEOF else none)
termination_by dAtA.length - i
decreasing_by
  have := lt_of_readField (congrArg Prod.snd _hround)
  omega

theorem Schema.unmarshalFrom_of_ok {s : Schema μ} {dAtA : Bytes} {i j : Nat} {m m' : μ}
    (hi : i < dAtA.length) (h : s.readField dAtA i m = (m', .ok j)) :
    s.unmarshalFrom dAtA i m = s.unmarshalFrom dAtA j m' := by
  rw [Schema.unmarshalFrom, dif_pos hi]
  split
  · simp_all
  · simp_all

theorem Schema.unmarshalFrom_of_error {s : Schema μ} {dAtA : Bytes} {i : Nat} {m m' : μ}
    {err : WireError} (hi : i < dAtA.length) (h : s.readField dAtA i m = (m', .error err)) :
    s.unmarshalFrom dAtA i m = (m', some err) := by
  rw [Schema.unmarshalFrom, dif_pos hi]
  split
  · simp_all
  · simp_all

/-- `Unmarshal`, into what is there. -/
def Schema.unmarshal (s : Schema μ) (dAtA : Bytes) (m : μ) : μ × Option WireError :=
  s.unmarshalFrom dAtA 0 m

/-- The two readers do the same, on a message and on its view. -/
structure Field.Views (view : μ → ν) (f : Field μ) (g : Field ν) : Prop where
  name : f.name = g.name
  wireType : f.wireType = g.wireType
  read : ∀ dAtA i m, Prod.map view id (f.read dAtA i m) = g.read dAtA i (view m)

structure Schema.Views (view : μ → ν) (s : Schema μ) (t : Schema ν) : Prop where
  message : s.message = t.message
  field : ∀ n, Option.Rel (Field.Views view) (s.field? n) (t.field? n)
  unrecognized : ∀ b m, view (s.unrecognized b m) = t.unrecognized b (view m)

variable {view : μ → ν} {s : Schema μ} {t : Schema ν}

theorem Schema.Views.readField (h : Schema.Views view s t) (dAtA : Bytes) (i : Nat) (m : μ) :
    Prod.map view id (s.readField dAtA i m) = t.readField dAtA i (view m) := by
  unfold Schema.readField
  split
  · rfl
  · rename_i wire j _
    dsimp only
    rw [h.message]
    split_ifs
    · rfl
    · rfl
    · have hfield := h.field (wire >>> 3).toUInt32.toInt32.toInt
      revert hfield
      generalize s.field? (wire >>> 3).toUInt32.toInt32.toInt = f?
      generalize t.field? (wire >>> 3).toUInt32.toInt32.toInt = g?
      rintro (hviews | _)
      · rename_i f g
        dsimp only
        rw [hviews.wireType, hviews.name]
        split_ifs
        · rfl
        · exact hviews.read dAtA j m
      · dsimp only
        split
        · rfl
        · split
          · rfl
          · rw [Prod.map, h.unrecognized]
            rfl

theorem Schema.Views.unmarshalFrom (h : Schema.Views view s t) (dAtA : Bytes) (i : Nat) (m : μ) :
    Prod.map view id (s.unmarshalFrom dAtA i m) = t.unmarshalFrom dAtA i (view m) := by
  fun_induction s.unmarshalFrom dAtA i m with
  | case1 i m hi m' err hround =>
    have hview := h.readField dAtA i m
    rw [hround] at hview
    exact (unmarshalFrom_of_error hi hview.symm).symm
  | case2 i m hi m' j hround ih =>
    have hview := h.readField dAtA i m
    rw [hround] at hview
    rw [ih, unmarshalFrom_of_ok hi hview.symm]
  | case3 i m hi => rw [Schema.unmarshalFrom, dif_neg hi, Prod.map, id]

theorem Schema.Views.unmarshal (h : Schema.Views view s t) (dAtA : Bytes) (m : μ) :
    Prod.map view id (s.unmarshal dAtA m) = t.unmarshal dAtA (view m) :=
  h.unmarshalFrom dAtA 0 m

end Loop

section Fields

variable {μ ν : Type}

/-- A field with a length; `decode` is given its bytes. -/
def messageField (name : String) (decode : Bytes → μ → μ × Option WireError) : Field μ where
  name := name
  wireType := 2
  read dAtA i m :=
    match readLength dAtA i with
    | .error err => (m, .error err)
    | .ok (n, j) =>
      match advance dAtA.length j n with
      | .error err => (m, .error err)
      | .ok k =>
        match decode ((dAtA.drop j).take n) m with
        | (m, some err) => (m, .error err)
        | (m, none) => (m, .ok k)
  progress := by
    intro dAtA i j m h
    split at h
    · cases h
    · rename_i n start hlength
      split at h
      · cases h
      · rename_i k hadvance
        split at h
        · cases h
        · cases h
          have hstart := lt_of_readLength hlength
          have hend := advance_ok hadvance
          omega

/-- A field of type string. -/
def bytesField (name : String) (set : Bytes → μ → μ) : Field μ :=
  messageField name fun b m => (set b m, none)

def littleEndian64 (b : Bytes) : UInt64 :=
  b.foldr (fun byte v => (v <<< 8) ||| byte.toUInt64) 0

/-- A field of type double. -/
def fixed64Field (name : String) (set : UInt64 → μ → μ) : Field μ where
  name := name
  wireType := 1
  read dAtA i m :=
    if dAtA.length < i + 8 then (m, .error .unexpectedEOF)
    else (set (littleEndian64 ((dAtA.drop i).take 8)) m, .ok (i + 8))
  progress := by
    intro dAtA i j m h
    split_ifs at h
    cases h
    exact Nat.le_add_right i 8

/-- The bits are set as they are read, also those before an error. -/
def varintField (name : String) (set : UInt64 → μ → μ) : Field μ where
  name := name
  wireType := 0
  read dAtA i m := (set (readVarint dAtA i).1 m, (readVarint dAtA i).2)
  progress h := Nat.le_of_lt (lt_of_varint h)

theorem messageField_views {view : μ → ν} (name : String)
    {decode : Bytes → μ → μ × Option WireError} {decode' : Bytes → ν → ν × Option WireError}
    (h : ∀ b m, Prod.map view id (decode b m) = decode' b (view m)) :
    Field.Views view (messageField name decode) (messageField name decode') where
  name := rfl
  wireType := rfl
  read dAtA i m := by
    simp only [messageField]
    split
    · rfl
    · split
      · rfl
      · rw [← h]
        cases hdecode : decode ((dAtA.drop _).take _) m with
        | mk m' err => cases err <;> rfl

end Fields

end TimescalePrometheus.Lib.Wire
