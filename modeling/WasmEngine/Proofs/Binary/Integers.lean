import WasmEngine.Proofs.Leb128.Splitting

/-!
# Which integers are read

A cursor takes an integer off the front when the bytes of one are there and their number is one of the type that is
asked for (`TakesRuns`). Of a number of 64 bits a tenth byte may be cut off.
-/

namespace WasmEngine.Reader

open Leb128 (groupLimit groupSum splitGroups twosComplement signedValue unsignedValue)

variable {α β : Type}

/-- Reading integers of at most `limit` bytes: a relation says which values the bytes may stand for. -/
structure TakesRuns (limit : Nat) (denotes : List UInt8 → α → Prop) (read : Read α) : Prop where
  /-- It takes the bytes of an integer and moves past them. -/
  ok_iff : ∀ reader value next, read reader = .ok value next ↔
    ∃ groups, reader.rest = groups ++ next.rest ∧ next.position = reader.position + groups.length ∧
      Form.IsRun groups ∧ groups.length ≤ limit ∧ denotes groups value
  /-- There are too few bytes to tell. -/
  underrun_iff : ∀ reader next, read reader = .error .underrun next ↔
    next = reader ∧ reader.rest.length < limit ∧ ∀ byte ∈ reader.rest, 0x80 ≤ byte
  /-- All other failures. -/
  overflow : ∀ reader, (∀ value next, read reader ≠ .ok value next) →
    ¬(reader.rest.length < limit ∧ ∀ byte ∈ reader.rest, 0x80 ≤ byte) → read reader = .error .lebOverflow reader

/-! ## Bytes, numbers and narrowing -/

section Groups

variable {maxBits limit : Nat} (hlimit : groupLimit maxBits = limit + 1)

include hlimit

theorem groups_eq_ok_iff {reader next : Reader} {found : List UInt8} :
    groups maxBits reader = .ok found next ↔
      splitGroups (limit + 1) reader.rest = .ok (found, next.rest) ∧
        next.position = reader.position + found.length := by
  obtain ⟨position, rest⟩ := next
  rw [groups, hlimit]
  cases splitGroups (limit + 1) reader.rest with
  | ok split =>
    obtain ⟨front, back⟩ := split
    constructor
    · intro h
      cases h
      exact ⟨rfl, rfl⟩
    · rintro ⟨hsplit, hposition⟩
      cases hsplit
      cases hposition
      rfl
  | error fault => simp

theorem groups_eq_error_iff {reader next : Reader} {error : Error} :
    groups maxBits reader = .error error next ↔
      next = reader ∧ ∃ fault, splitGroups (limit + 1) reader.rest = .error fault ∧ error = .ofLeb128 fault := by
  rw [groups, hlimit]
  cases splitGroups (limit + 1) reader.rest with
  | ok split => simp
  | error fault => simp [and_comm, eq_comm]

/-- The bytes of an integer themselves. -/
theorem takesRuns_groups : TakesRuns (limit + 1) (fun found value => found = value) (groups maxBits) where
  ok_iff reader value next := by
    rw [groups_eq_ok_iff hlimit, Leb128.splitGroups_eq_ok_iff]
    constructor
    · rintro ⟨⟨hrest, hrun, hlength⟩, hposition⟩
      exact ⟨value, hrest, hposition, hrun, hlength, rfl⟩
    · rintro ⟨found, hrest, hposition, hrun, hlength, rfl⟩
      exact ⟨⟨hrest, hrun, hlength⟩, hposition⟩
  underrun_iff reader next := by
    rw [groups_eq_error_iff hlimit, ← Leb128.splitGroups_eq_unexpectedEnd_iff]
    refine and_congr_right fun _ => ?_
    constructor
    · rintro ⟨fault, hsplit, herror⟩
      obtain rfl | rfl := Leb128.overflow_or_unexpectedEnd_of_splitGroups hsplit
      · cases herror
      · exact hsplit
    · intro hsplit
      exact ⟨.unexpectedEnd, hsplit, rfl⟩
  overflow reader hnone hshort := by
    cases hsplit : splitGroups (limit + 1) reader.rest with
    | ok split => exact absurd ((groups_eq_ok_iff hlimit).2 ⟨hsplit, rfl⟩) (hnone split.1 ⟨_, split.2⟩)
    | error fault =>
      refine (groups_eq_error_iff hlimit).2 ⟨rfl, fault, hsplit, ?_⟩
      obtain rfl | rfl := Leb128.overflow_or_unexpectedEnd_of_splitGroups hsplit
      · rfl
      · exact absurd (Leb128.splitGroups_eq_unexpectedEnd_iff.1 hsplit) hshort

end Groups

namespace TakesRuns

variable {limit : Nat} {denotes denotes' : List UInt8 → α → Prop} {read : Read α}

theorem congr (h : TakesRuns limit denotes read)
    (hiff : ∀ groups value, Form.IsRun groups → groups.length ≤ limit →
      (denotes groups value ↔ denotes' groups value)) :
    TakesRuns limit denotes' read where
  ok_iff reader value next := by
    rw [h.ok_iff]
    refine exists_congr fun groups => and_congr_right fun _ => and_congr_right fun _ => ?_
    refine and_congr_right fun hrun => and_congr_right fun hlength => hiff groups value hrun hlength
  underrun_iff := h.underrun_iff
  overflow := h.overflow

theorem narrow (h : TakesRuns limit denotes read) (narrowing : α → Option β) :
    TakesRuns limit (fun groups result => ∃ value, denotes groups value ∧ narrowing value = some result)
      (narrow narrowing read) where
  ok_iff reader result next := by
    have hnarrow : Reader.narrow narrowing read reader = .ok result next ↔
        ∃ value, read reader = .ok value next ∧ narrowing value = some result := by
      unfold Reader.narrow
      cases read reader with
      | error error stopped => simp
      | ok value between => cases hvalue : narrowing value <;> simp [hvalue, and_comm]
    rw [hnarrow]
    constructor
    · rintro ⟨value, hread, hvalue⟩
      obtain ⟨groups, hrest, hposition, hrun, hlength, hdenotes⟩ := (h.ok_iff reader value next).1 hread
      exact ⟨groups, hrest, hposition, hrun, hlength, value, hdenotes, hvalue⟩
    · rintro ⟨groups, hrest, hposition, hrun, hlength, value, hdenotes, hvalue⟩
      exact ⟨value, (h.ok_iff reader value next).2 ⟨groups, hrest, hposition, hrun, hlength, hdenotes⟩, hvalue⟩
  underrun_iff reader next := by
    rw [← h.underrun_iff]
    unfold Reader.narrow
    cases read reader with
    | error error stopped => simp
    | ok value between => cases hvalue : narrowing value <;> simp [hvalue]
  overflow reader hnone hshort := by
    unfold Reader.narrow at hnone ⊢
    cases hread : read reader with
    | error error stopped =>
      have hstay := h.overflow reader (by simp [hread]) hshort
      rw [hread] at hstay
      cases hstay
      rfl
    | ok value between =>
      rw [hread] at hnone
      cases hvalue : narrowing value with
      | none => simp [hvalue]
      | some result => simp [hvalue] at hnone

theorem map (h : TakesRuns limit denotes read) (change : α → β) :
    TakesRuns limit (fun groups result => ∃ value, denotes groups value ∧ change value = result)
      (do return change (← read)) := by
  have hnarrow : (do return change (← read)) = Reader.narrow (fun value => some (change value)) read := by
    funext reader
    unfold Reader.narrow
    cases hread : read reader with
    | ok value next => exact run_bind_of_ok hread
    | error error stopped => exact run_bind_of_error hread
  rw [hnarrow]
  refine (h.narrow _).congr fun groups result _ _ => ?_
  simp

theorem underrun_or_lebOverflow (h : TakesRuns limit denotes read) {reader stopped : Reader} {error : Error}
    (hread : read reader = .error error stopped) : error = .underrun ∨ error = .lebOverflow := by
  by_cases hshort : reader.rest.length < limit ∧ ∀ byte ∈ reader.rest, 0x80 ≤ byte
  · cases hread.symm.trans ((h.underrun_iff reader reader).2 ⟨rfl, hshort⟩)
    exact .inl rfl
  · cases hread.symm.trans (h.overflow reader (by simp [hread]) hshort)
    exact .inr rfl

/-- Where all bytes of integers have values, only bytes without an end are refused. -/
theorem lebOverflow_iff (h : TakesRuns (limit + 1) denotes read)
    (htotal : ∀ groups, Form.IsRun groups → groups.length ≤ limit + 1 → ∃ value, denotes groups value)
    (reader next : Reader) :
    read reader = .error .lebOverflow next ↔
      next = reader ∧ limit + 1 ≤ reader.rest.length ∧ ∀ byte ∈ reader.rest.take (limit + 1), 0x80 ≤ byte := by
  have hok : (∃ value next, read reader = .ok value next) ↔ ∃ byte ∈ reader.rest.take (limit + 1), byte < 0x80 := by
    rw [← Leb128.exists_splitGroups_iff]
    constructor
    · rintro ⟨value, next, hread⟩
      obtain ⟨groups, hrest, -, hrun, hlength, -⟩ := (h.ok_iff reader value next).1 hread
      exact ⟨(groups, next.rest), Leb128.splitGroups_eq_ok_iff.2 ⟨hrest, hrun, hlength⟩⟩
    · rintro ⟨found, hsplit⟩
      obtain ⟨hrest, hrun, hlength⟩ := Leb128.splitGroups_eq_ok_iff.1 hsplit
      obtain ⟨value, hvalue⟩ := htotal found.1 hrun hlength
      exact ⟨value, ⟨_, found.2⟩, (h.ok_iff reader value _).2 ⟨found.1, hrest, rfl, hrun, hlength, hvalue⟩⟩
  constructor
  · intro herror
    have hnone (value : α) (next : Reader) : read reader ≠ .ok value next := by simp [herror]
    have hmore : ∀ byte ∈ reader.rest.take (limit + 1), 0x80 ≤ byte := by
      intro byte hbyte
      refine UInt8.not_lt.1 fun hlast => ?_
      obtain ⟨value, next, hread⟩ := hok.2 ⟨byte, hbyte, hlast⟩
      exact hnone value next hread
    have hlong : ¬(reader.rest.length < limit + 1 ∧ ∀ byte ∈ reader.rest, 0x80 ≤ byte) := by
      intro hshort
      cases herror.symm.trans ((h.underrun_iff reader reader).2 ⟨rfl, hshort⟩)
    have hstay := h.overflow reader hnone hlong
    refine ⟨?_, Nat.le_of_not_lt fun hshort => hlong ⟨hshort, ?_⟩, hmore⟩
    · cases herror.symm.trans hstay
      rfl
    · rwa [List.take_of_length_le hshort.le] at hmore
  · rintro ⟨rfl, hlength, hmore⟩
    refine h.overflow next (fun value after hread => ?_) fun hshort => Nat.not_lt.2 hlength hshort.1
    obtain ⟨byte, hbyte, hlast⟩ := hok.1 ⟨value, after, hread⟩
    exact UInt8.not_le.2 hlast (hmore byte hbyte)

end TakesRuns

/-! ## Numbers that fit -/

section Numbers

variable {groups : List UInt8}

/-- Nine bytes have 63 bits. -/
theorem unsignedValue_lt_of_length (h : groups.length ≤ 9) : unsignedValue groups < 2 ^ 63 :=
  Nat.lt_of_lt_of_le (Leb128.unsignedValue_lt_two_pow groups) (Nat.pow_le_pow_right (by decide) (by omega))

theorem signedValue_range_of_length (h : groups.length ≤ 9) :
    -0x8000000000000000 ≤ signedValue groups ∧ signedValue groups < 0x8000000000000000 := by
  have hlt := Leb128.unsignedValue_lt_two_pow groups
  have hpow : 2 ^ (7 * groups.length) ≤ 2 ^ 63 := Nat.pow_le_pow_right (by decide) (by omega)
  rw [signedValue, Nat.pow_eq]
  split <;> omega

theorem toNat_unsignedValue (h : groups.length ≤ 9) :
    (UInt64.ofNat (unsignedValue groups)).toNat = groupSum groups := by
  rw [UInt64.toNat_ofNat_of_lt' (Nat.lt_trans (unsignedValue_lt_of_length h) (by decide)),
    Leb128.unsignedValue_eq_groupSum]

theorem toInt_signedValue (h : groups.length ≤ 9) :
    (Int64.ofInt (signedValue groups)).toInt = twosComplement groups := by
  obtain ⟨hlow, hhigh⟩ := signedValue_range_of_length h
  rw [← Leb128.signedValue_eq_twosComplement, Int64.toInt_ofInt_of_le (by omega) (by omega)]

end Numbers

theorem takesRuns_unsigned {maxBits limit : Nat} (hlimit : groupLimit maxBits = limit + 1) :
    TakesRuns (limit + 1) (fun groups value => UInt64.ofNat (unsignedValue groups) = value) (unsigned maxBits) :=
  ((takesRuns_groups hlimit).map _).congr fun groups value _ _ => by simp

theorem takesRuns_signed {maxBits limit : Nat} (hlimit : groupLimit maxBits = limit + 1) :
    TakesRuns (limit + 1) (fun groups value => Int64.ofInt (signedValue groups) = value) (signed maxBits) :=
  ((takesRuns_groups hlimit).map _).congr fun groups value _ _ => by simp

/-! ## Narrow numbers -/

/-- A read whose values are numbers of bytes, narrowed to the values that have the same number. -/
theorem TakesRuns.narrow_exact {limit : Nat} {value : List UInt8 → α} {read : Read α}
    (h : TakesRuns limit (fun groups wide => value groups = wide) read) {narrowing : α → Option β} {γ : Type}
    {number : α → γ} {number' : β → γ}
    (hnarrow : ∀ wide result, narrowing wide = some result ↔ number' result = number wide)
    {exact : List UInt8 → γ} (hexact : ∀ groups, groups.length ≤ limit → number (value groups) = exact groups) :
    TakesRuns limit (fun groups result => number' result = exact groups) (Reader.narrow narrowing read) := by
  refine (h.narrow narrowing).congr fun groups result _ hlength => ?_
  rw [exists_eq_left', hnarrow, hexact groups hlength]

section Narrowing

/-- What fits is kept. -/
theorem ite_eq_some_iff {fits same : Prop} [Decidable fits] {kept result : β} (hfits : same → fits)
    (hkept : fits → (kept = result ↔ same)) : (if fits then some kept else none) = some result ↔ same := by
  split
  · rename_i h
    rw [Option.some_inj, hkept h]
  · rename_i h
    simp [mt hfits h]

theorem narrow_uint8 (wide : UInt64) (result : UInt8) :
    (if wide.toNat < 0x100 then some wide.toUInt8 else none) = some result ↔ result.toNat = wide.toNat := by
  have hlt := result.toNat_lt
  refine ite_eq_some_iff (fun h => by omega) fun h => ?_
  rw [← UInt8.toNat_inj, UInt64.toNat_toUInt8]
  omega

theorem narrow_uint32 (wide : UInt64) (result : UInt32) :
    (if wide.toNat < 0x100000000 then some wide.toUInt32 else none) = some result ↔ result.toNat = wide.toNat := by
  have hlt := result.toNat_lt
  refine ite_eq_some_iff (fun h => by omega) fun h => ?_
  rw [← UInt32.toNat_inj, UInt64.toNat_toUInt32]
  omega

theorem narrow_int8 (wide : Int64) (result : Int8) :
    (if -0x80 ≤ wide.toInt ∧ wide.toInt < 0x80 then some wide.toInt8 else none) = some result ↔
      result.toInt = wide.toInt := by
  have hlow := result.le_toInt
  have hhigh := result.toInt_lt
  refine ite_eq_some_iff (fun h => by omega) fun h => ?_
  rw [← Int8.toInt_inj, Int64.toInt_toInt8, Int.bmod_eq_of_le (by omega) (by omega), eq_comm]

theorem narrow_int32 (wide : Int64) (result : Int32) :
    (if -0x80000000 ≤ wide.toInt ∧ wide.toInt < 0x80000000 then some wide.toInt32 else none) = some result ↔
      result.toInt = wide.toInt := by
  have hlow := result.le_toInt
  have hhigh := result.toInt_lt
  refine ite_eq_some_iff (fun h => by omega) fun h => ?_
  rw [← Int32.toInt_inj, Int64.toInt_toInt32, Int.bmod_eq_of_le (by omega) (by omega), eq_comm]

end Narrowing

theorem takesRuns_varU32 : TakesRuns 5 (fun groups (value : UInt32) => value.toNat = groupSum groups) varU32 :=
  (takesRuns_unsigned rfl).narrow_exact narrow_uint32 fun _ h => toNat_unsignedValue (by omega)

/-- Numbers of seven and of 32 bits are read exactly: the bytes stand for a number of the type, or they are refused. One
byte is enough for seven bits, and five are for 32. -/
theorem narrow_reads :
    TakesRuns 1 (fun groups (value : UInt8) => value.toNat = groupSum groups) varU7 ∧
    TakesRuns 1 (fun groups (value : Int8) => value.toInt = twosComplement groups) varI7 ∧
    TakesRuns 5 (fun groups (value : UInt32) => value.toNat = groupSum groups) varU32 ∧
    TakesRuns 5 (fun groups (value : Int32) => value.toInt = twosComplement groups) varI32 :=
  ⟨(takesRuns_unsigned rfl).narrow_exact narrow_uint8 fun _ h => toNat_unsignedValue (by omega),
    (takesRuns_signed rfl).narrow_exact narrow_int8 fun _ h => toInt_signedValue (by omega),
    (takesRuns_unsigned rfl).narrow_exact narrow_uint32 fun _ h => toNat_unsignedValue (by omega),
    (takesRuns_signed rfl).narrow_exact narrow_int32 fun _ h => toInt_signedValue (by omega)⟩

/-! ## Wide numbers -/

/-- A run of ten bytes carries 63 bits and the digit of the last byte. -/
theorem exists_tenth {groups : List UInt8} (hrun : Form.IsRun groups) (hlength : groups.length = 10) :
    ∃ front last, groups = front ++ [last] ∧ last < 0x80 ∧ groups[9]? = some last ∧
      unsignedValue groups = unsignedValue front + last.toNat * 2 ^ 63 ∧ unsignedValue front < 2 ^ 63 := by
  obtain ⟨front, last, rfl, hlast⟩ := Leb128.exists_last_of_isRun hrun
  have hfront : front.length = 9 := by simpa using hlength
  have hlow := Leb128.unsignedValue_lt_two_pow front
  have hvalue := Leb128.unsignedValue_concat front hlast
  rw [hfront] at hlow hvalue
  exact ⟨front, last, rfl, hlast, by simp [hfront], hvalue, hlow⟩

/-- Ten bytes carry an unsigned number of 64 bits if the last one adds only one bit. -/
theorem groupSum_mod_eq_iff {groups : List UInt8} (hrun : Form.IsRun groups) (hlength : groups.length ≤ 10) :
    groupSum groups % 2 ^ 64 = groupSum groups ↔ groups[9]?.all (· ≤ 1) := by
  rw [← Leb128.unsignedValue_eq_groupSum, Nat.mod_eq_iff_lt (by decide)]
  rcases Nat.lt_or_eq_of_le hlength with hshort | hten
  · have hlt := unsignedValue_lt_of_length (Nat.le_of_lt_succ hshort)
    rw [List.getElem?_eq_none (by omega), Option.all_none, eq_self, iff_true]
    omega
  · obtain ⟨front, last, -, -, hlast, hvalue, hlow⟩ := exists_tenth hrun hten
    rw [hlast, Option.all_some, decide_eq_true_iff, UInt8.le_iff_toNat_le, hvalue]
    change _ ↔ last.toNat ≤ 1
    omega

theorem bmod_eq_self_iff (value : Int) :
    value.bmod (2 ^ 64) = value ↔ -0x8000000000000000 ≤ value ∧ value < 0x8000000000000000 := by
  constructor
  · intro h
    have hlow := @Int.le_bmod value (2 ^ 64) (by decide)
    have hhigh := @Int.bmod_lt value (2 ^ 64) (by decide)
    omega
  · rintro ⟨hlow, hhigh⟩
    exact Int.bmod_eq_of_le (by omega) (by omega)

/-- Ten bytes carry a signed number of 64 bits if the last one repeats the sign. -/
theorem twosComplement_bmod_eq_iff {groups : List UInt8} (hrun : Form.IsRun groups) (hlength : groups.length ≤ 10) :
    (twosComplement groups).bmod (2 ^ 64) = twosComplement groups ↔
      groups[9]?.all fun last => last = 0 ∨ last = 0x7F := by
  rw [← Leb128.signedValue_eq_twosComplement, bmod_eq_self_iff]
  rcases Nat.lt_or_eq_of_le hlength with hshort | hten
  · rw [List.getElem?_eq_none (by omega), Option.all_none, eq_self, iff_true]
    exact signedValue_range_of_length (Nat.le_of_lt_succ hshort)
  · obtain ⟨front, last, hgroups, hsmall, hlast, hvalue, hlow⟩ := exists_tenth hrun hten
    have hsigned := Leb128.signedValue_concat front hsmall
    rw [← hgroups, hvalue, hten] at hsigned
    have hsmall : last.toNat < 128 := hsmall
    rw [hlast, Option.all_some, decide_eq_true_iff, ← UInt8.toNat_inj, ← UInt8.toNat_inj, hsigned]
    change _ ↔ last.toNat = 0 ∨ last.toNat = 127
    split <;> omega

theorem takesRuns_varU64 :
    TakesRuns (9 + 1) (fun groups (value : UInt64) => value.toNat = groupSum groups % 2 ^ 64) varU64 := by
  refine (takesRuns_unsigned rfl).congr fun groups value _ _ => ?_
  rw [← UInt64.toNat_inj, UInt64.toNat_ofNat', Leb128.unsignedValue_eq_groupSum, eq_comm]

theorem takesRuns_varI64 :
    TakesRuns (9 + 1) (fun groups (value : Int64) => value.toInt = (twosComplement groups).bmod (2 ^ 64)) varI64 := by
  refine (takesRuns_signed rfl).congr fun groups value _ _ => ?_
  rw [← Int64.toInt_inj, Int64.toInt_ofInt, Leb128.signedValue_eq_twosComplement, eq_comm]
  rfl

/-- Numbers of 64 bits are read modulo 2⁶⁴. The number is exact unless there is a tenth byte that has bits which do not
fit. Such bytes are not refused: those that are have no end among the first ten. -/
theorem wide_reads (reader next : Reader) :
    (∀ value : UInt64, varU64 reader = .ok value next ↔
      ∃ groups, reader.rest = groups ++ next.rest ∧ next.position = reader.position + groups.length ∧
        Form.IsRun groups ∧ groups.length ≤ 10 ∧ value.toNat = groupSum groups % 2 ^ 64 ∧
        (value.toNat = groupSum groups ↔ groups[9]?.all (· ≤ 1))) ∧
    (∀ value : Int64, varI64 reader = .ok value next ↔
      ∃ groups, reader.rest = groups ++ next.rest ∧ next.position = reader.position + groups.length ∧
        Form.IsRun groups ∧ groups.length ≤ 10 ∧ value.toInt = (twosComplement groups).bmod (2 ^ 64) ∧
        (value.toInt = twosComplement groups ↔ groups[9]?.all fun last => last = 0 ∨ last = 0x7F)) ∧
    (varU64 reader = .error .lebOverflow next ↔
      next = reader ∧ 10 ≤ reader.rest.length ∧ ∀ byte ∈ reader.rest.take 10, 0x80 ≤ byte) ∧
    (varI64 reader = .error .lebOverflow next ↔
      next = reader ∧ 10 ≤ reader.rest.length ∧ ∀ byte ∈ reader.rest.take 10, 0x80 ≤ byte) := by
  refine ⟨fun value => ?_, fun value => ?_, ?_, ?_⟩
  · rw [takesRuns_varU64.ok_iff]
    refine exists_congr fun groups => and_congr_right fun _ => and_congr_right fun _ => ?_
    refine and_congr_right fun hrun => and_congr_right fun hlength => ⟨fun hvalue => ⟨hvalue, ?_⟩, And.left⟩
    rw [hvalue, groupSum_mod_eq_iff hrun hlength]
  · rw [takesRuns_varI64.ok_iff]
    refine exists_congr fun groups => and_congr_right fun _ => and_congr_right fun _ => ?_
    refine and_congr_right fun hrun => and_congr_right fun hlength => ⟨fun hvalue => ⟨hvalue, ?_⟩, And.left⟩
    rw [hvalue, twosComplement_bmod_eq_iff hrun hlength]
  · refine takesRuns_varU64.lebOverflow_iff (fun groups _ _ => ?_) reader next
    exact ⟨.ofNat (groupSum groups), UInt64.toNat_ofNat'⟩
  · refine takesRuns_varI64.lebOverflow_iff (fun groups _ _ => ?_) reader next
    exact ⟨.ofInt (twosComplement groups), Int64.toInt_ofInt⟩

/-- Two in a tenth byte is a number of 65 bits: it is read as zero. -/
theorem wide_reads_truncate :
    varU64 ⟨0, List.replicate 9 0x80 ++ [0x02]⟩ = .ok 0 ⟨10, []⟩ ∧
      groupSum (List.replicate 9 0x80 ++ [0x02]) = 2 ^ 64 ∧
    varI64 ⟨0, List.replicate 9 0x80 ++ [0x02]⟩ = .ok 0 ⟨10, []⟩ ∧
      twosComplement (List.replicate 9 0x80 ++ [0x02]) = 2 ^ 64 := by
  refine ⟨rfl, ?_, rfl, ?_⟩
  · rw [← Leb128.unsignedValue_eq_groupSum]
    decide
  · rw [← Leb128.signedValue_eq_twosComplement]
    decide

end WasmEngine.Reader
