import Mathlib.Data.Nat.Bitwise
import Mathlib.Tactic.Ring
import WasmEngine.Proofs.Leb128.Splitting

/-!
# Reading with a register

A processor shifts the seven bits of each byte to their place in a register of 64 bits. `collectUnsigned` and
`collectSigned` do that with shifts that have no result from 64 bits on; up to 70 bits they always have one.
-/

namespace WasmEngine.Leb128

variable {register : UInt64} {maxBits : Nat}

/-! ## Slices -/

/-- Reading integers of at most `limit` bytes off a slice: a relation says which values the bytes may stand for. -/
structure ReadsRuns {α : Type} (limit : Nat) (denotes : List UInt8 → α → Prop)
    (read : EStateM Fault (List UInt8) α) : Prop where
  /-- It takes the bytes of an integer and gives what they stand for. -/
  ok_iff : ∀ slice value rest, read slice = .ok value rest ↔
    ∃ groups, slice = groups ++ rest ∧ Form.IsRun groups ∧ groups.length ≤ limit ∧ denotes groups value
  /-- It succeeds if one of the first `limit` bytes can be the last. -/
  succeeds_iff : ∀ slice, (∃ value rest, read slice = .ok value rest) ↔ ∃ byte ∈ slice.take limit, byte < 0x80
  /-- There are enough bytes, and none of them is the last. -/
  overflow_iff : ∀ slice rest, read slice = .error .overflow rest ↔
    rest = slice ∧ limit ≤ slice.length ∧ ∀ byte ∈ slice.take limit, 0x80 ≤ byte
  /-- There are too few bytes to tell. -/
  unexpectedEnd_iff : ∀ slice rest, read slice = .error .unexpectedEnd rest ↔
    rest = slice ∧ slice.length < limit ∧ ∀ byte ∈ slice, 0x80 ≤ byte
  /-- Nothing else goes wrong. -/
  fault_cases : ∀ slice fault rest, read slice = .error fault rest → fault = .overflow ∨ fault = .unexpectedEnd

section OnSlice

variable {α : Type} {read : List UInt8 → Except Fault (α × List UInt8)} {limit : Nat} {denote : List UInt8 → α}
  (hread : ∀ input, read input = (splitGroups limit input).map fun found => (denote found.1, found.2))

include hread

theorem onSlice_eq_ok_iff {slice rest : List UInt8} {value : α} :
    onSlice read slice = .ok value rest ↔
      ∃ groups, splitGroups limit slice = .ok (groups, rest) ∧ denote groups = value := by
  rw [onSlice, hread]
  cases splitGroups limit slice with
  | ok found => simp [Except.map, Prod.ext_iff, and_comm]
  | error fault => simp [Except.map]

theorem onSlice_eq_error_iff {slice rest : List UInt8} {fault : Fault} :
    onSlice read slice = .error fault rest ↔ rest = slice ∧ splitGroups limit slice = .error fault := by
  rw [onSlice, hread]
  cases splitGroups limit slice with
  | ok found => simp [Except.map]
  | error stopped => simp [Except.map, and_comm, eq_comm]

end OnSlice

/-- A read that splits off a run and says what it stands for. -/
theorem readsRuns_onSlice {α : Type} {read : List UInt8 → Except Fault (α × List UInt8)} {limit : Nat}
    (denote : List UInt8 → α)
    (hread : ∀ input, read input = (splitGroups (limit + 1) input).map fun found => (denote found.1, found.2))
    {denotes : List UInt8 → α → Prop} (hdenotes : ∀ groups value, denotes groups value ↔ denote groups = value) :
    ReadsRuns (limit + 1) denotes (onSlice read) where
  ok_iff slice value rest := by
    rw [onSlice_eq_ok_iff hread]
    refine exists_congr fun groups => ?_
    rw [splitGroups_eq_ok_iff, hdenotes, and_assoc, and_assoc]
  succeeds_iff slice := by
    rw [← exists_splitGroups_iff]
    constructor
    · rintro ⟨value, rest, hok⟩
      obtain ⟨groups, hsplit, -⟩ := (onSlice_eq_ok_iff hread).1 hok
      exact ⟨_, hsplit⟩
    · rintro ⟨found, hsplit⟩
      exact ⟨denote found.1, found.2, (onSlice_eq_ok_iff hread).2 ⟨found.1, hsplit, rfl⟩⟩
  overflow_iff slice rest := by
    rw [onSlice_eq_error_iff hread, splitGroups_eq_overflow_iff]
  unexpectedEnd_iff slice rest := by
    rw [onSlice_eq_error_iff hread, splitGroups_eq_unexpectedEnd_iff]
  fault_cases slice fault rest h :=
    overflow_or_unexpectedEnd_of_splitGroups ((onSlice_eq_error_iff hread).1 h).2

/-! ## Registers -/

/-- A word of 64 bits shifted to the left. There is no shift by 64 bits or more. -/
def shiftLeft? (word : UInt64) (amount : Nat) : Option UInt64 :=
  if amount < 64 then some (word <<< UInt64.ofNat amount) else none

/-- Puts the bits of an integer into a register, from the bit `shift` on. Gives the last byte and what follows too. -/
def collect (maxBits shift : Nat) (register : UInt64) :
    List UInt8 → Option (Except Fault (UInt64 × UInt8 × List UInt8))
  | [] => some (.error .unexpectedEnd)
  | byte :: rest =>
    (shiftLeft? (byte &&& 0x7F).toUInt64 shift).bind fun bits =>
      if byte &&& 0x80 = 0 then some (.ok (register ||| bits, byte, rest))
      else if maxBits ≤ shift + 7 then some (.error .overflow)
      else collect maxBits (shift + 7) (register ||| bits) rest

/-- Reads an unsigned integer with a register. -/
def collectUnsigned (maxBits : Nat) (input : List UInt8) : Option (Except Fault (UInt64 × List UInt8)) :=
  (collect maxBits 0 0 input).map fun result => result.map fun found => (found.1, found.2.2)

/-- Fills a register with the sign of the last byte, if there is room above the bits that were read. -/
def extendSign (register : UInt64) (last : UInt8) (bits : Nat) : Option UInt64 :=
  if bits < 64 ∧ last &&& 0x40 ≠ 0 then (shiftLeft? (~~~0) bits).map fun sign => register ||| sign else some register

/-- Reads a signed integer with a register. -/
def collectSigned (maxBits : Nat) (input : List UInt8) : Option (Except Fault (Int64 × List UInt8)) :=
  (collect maxBits 0 0 input).bind fun
    | .error fault => some (.error fault)
    | .ok (register, last, rest) =>
      (extendSign register last (7 * (input.length - rest.length))).map fun word => .ok (word.toInt64, rest)

/-! ### Bits -/

theorem and_two_pow_eq_zero_iff {n i : Nat} (h : n < 2 ^ (i + 1)) : n &&& 2 ^ i = 0 ↔ n < 2 ^ i := by
  rw [Nat.and_two_pow]
  constructor
  · intro hzero
    by_contra hge
    rw [Nat.testBit_of_two_pow_le_and_two_pow_add_one_gt (Nat.le_of_not_lt hge) h] at hzero
    simp at hzero
  · intro hlt
    rw [Nat.testBit_lt_two_pow hlt]
    simp

theorem and_continuation_eq_zero_iff (byte : UInt8) : byte &&& 0x80 = 0 ↔ byte < 0x80 := by
  rw [← UInt8.toNat_inj, UInt8.toNat_and, UInt8.lt_iff_toNat_lt]
  exact and_two_pow_eq_zero_iff byte.toNat_lt

theorem and_sign_eq_zero_iff {byte : UInt8} (h : byte < 0x80) : byte &&& 0x40 = 0 ↔ byte.toNat < 64 := by
  rw [← UInt8.toNat_inj, UInt8.toNat_and]
  have hlt : byte.toNat < 2 ^ (6 + 1) := h
  exact and_two_pow_eq_zero_iff hlt

theorem toNat_low_bits (byte : UInt8) : (byte &&& 0x7F).toUInt64.toNat = byte.toNat % 128 := by
  rw [UInt8.toNat_toUInt64, UInt8.toNat_and]
  exact Nat.and_two_pow_sub_one_eq_mod byte.toNat 7

/-- Bits that are put above the others count with their weight; those that do not fit are lost. -/
theorem toNat_or_shiftLeft {word : UInt64} {shift : Nat} (hshift : shift < 64)
    (hregister : register.toNat < 2 ^ shift) :
    (register ||| word <<< UInt64.ofNat shift).toNat = (register.toNat + word.toNat * 2 ^ shift) % 2 ^ 64 := by
  have hsplit : 2 ^ 64 = 2 ^ shift * 2 ^ (64 - shift) := by
    rw [← Nat.pow_add, Nat.add_sub_cancel' hshift.le]
  have hshifted : word.toNat * 2 ^ shift % 2 ^ 64 = 2 ^ shift * (word.toNat % 2 ^ (64 - shift)) := by
    rw [Nat.mul_comm, hsplit, Nat.mul_mod_mul_left]
  have hfits : 2 ^ shift * (word.toNat % 2 ^ (64 - shift)) + register.toNat < 2 ^ 64 := by
    have hlow := Nat.mod_lt word.toNat (Nat.two_pow_pos (64 - shift))
    have hnext := Nat.mul_le_mul_left (2 ^ shift) hlow
    rw [Nat.mul_succ, ← hsplit] at hnext
    omega
  rw [UInt64.toNat_or, UInt64.toNat_shiftLeft, UInt64.toNat_ofNat_of_lt' (Nat.lt_trans hshift (by decide)),
    Nat.mod_eq_of_lt hshift, Nat.shiftLeft_eq, hshifted, Nat.or_comm, ← Nat.two_pow_add_eq_or_of_lt hregister,
    ← Nat.mod_eq_of_lt hfits, Nat.add_comm register.toNat, Nat.add_mod (word.toNat * _), hshifted,
    Nat.mod_eq_of_lt register.toNat_lt]

theorem eq_ofNat_of_toNat {word : UInt64} {value : Nat} (h : word.toNat = value % 2 ^ 64) : word = UInt64.ofNat value :=
  UInt64.toNat_inj.1 (h.trans UInt64.toNat_ofNat'.symm)

/-! ### The loop -/

/-- The next byte adds its digit to the register. -/
theorem toNat_next {done : Nat} (hregister : register.toNat < 2 ^ (7 * done)) (hshift : 7 * done < 64) (byte : UInt8) :
    let next := register ||| (byte &&& 0x7F).toUInt64 <<< UInt64.ofNat (7 * done)
    next.toNat = (register.toNat + byte.toNat % 128 * 2 ^ (7 * done)) % 2 ^ 64 ∧ next.toNat < 2 ^ (7 * (done + 1)) := by
  have hnext := @toNat_or_shiftLeft register (byte &&& 0x7F).toUInt64 _ hshift hregister
  rw [toNat_low_bits] at hnext
  refine ⟨hnext, ?_⟩
  have hpow : 2 ^ (7 * (done + 1)) = 2 ^ (7 * done) * 128 := Nat.pow_add 2 (7 * done) 7
  have hdigit := Nat.mul_le_mul_right (2 ^ (7 * done)) (show byte.toNat % 128 ≤ 127 by omega)
  have hmod := Nat.mod_le (register.toNat + byte.toNat % 128 * 2 ^ (7 * done)) (2 ^ 64)
  omega

/-- What the register holds in the end does not depend on the bytes that are in it already. -/
theorem ofNat_next {register next byte : Nat} {done : Nat} (groups : List UInt8)
    (hnext : next = (register + byte % 128 * 2 ^ (7 * done)) % 2 ^ 64) :
    UInt64.ofNat (next + unsignedValue groups * 2 ^ (7 * (done + 1))) =
      UInt64.ofNat (register + (byte % 128 + 128 * unsignedValue groups) * 2 ^ (7 * done)) := by
  have hpow : 2 ^ (7 * (done + 1)) = 2 ^ (7 * done) * 128 := Nat.pow_add 2 (7 * done) 7
  refine eq_ofNat_of_toNat ?_
  rw [UInt64.toNat_ofNat', hnext, Nat.mod_add_mod, hpow]
  congr 1
  ring

/-- After `done` bytes, with their digits in the register, the loop goes on to the end of the run. -/
theorem collect_eq (hbits : maxBits ≤ 70) {done : Nat} (hdone : done < groupLimit maxBits)
    (hregister : register.toNat < 2 ^ (7 * done)) (input : List UInt8) :
    collect maxBits (7 * done) register input =
      some ((splitGroups (groupLimit maxBits - done) input).map fun found =>
        (UInt64.ofNat (register.toNat + unsignedValue found.1 * 2 ^ (7 * done)), found.1.getLastD 0, found.2)) := by
  induction input generalizing done register with
  | nil => rfl
  | cons byte rest ih =>
    -- Ten bytes are allowed at most, so the last shift is by 63 bits.
    have hshift : 7 * done < 64 := by
      rw [groupLimit] at hdone
      omega
    obtain ⟨hnext, hbelow⟩ := toNat_next hregister hshift byte
    rw [collect, shiftLeft?, if_pos hshift, Option.bind_some]
    generalize register ||| (byte &&& 0x7F).toUInt64 <<< UInt64.ofNat (7 * done) = next at hnext hbelow ⊢
    by_cases hlast : byte < 0x80
    · have hvalue : next = UInt64.ofNat (register.toNat + unsignedValue [byte] * 2 ^ (7 * done)) :=
        eq_ofNat_of_toNat hnext
      rw [if_pos ((and_continuation_eq_zero_iff byte).2 hlast), splitGroups_last hlast, hvalue]
      rfl
    · rw [if_neg (mt (and_continuation_eq_zero_iff byte).1 hlast)]
      by_cases hlong : maxBits ≤ 7 * done + 7
      · have hone : groupLimit maxBits - done = 1 := by
          rw [groupLimit] at hdone ⊢
          omega
        rw [if_pos hlong, hone, splitGroups_long hlast]
        rfl
      · obtain ⟨more, hmore⟩ : ∃ more, groupLimit maxBits = done + (more + 2) := by
          refine ⟨groupLimit maxBits - done - 2, ?_⟩
          rw [groupLimit] at hdone ⊢
          omega
        rw [if_neg hlong, ← Nat.mul_succ 7 done, ih (by omega) hbelow, hmore, Nat.add_sub_cancel_left,
          show done + (more + 2) - (done + 1) = more + 1 by omega, splitGroups_more hlast]
        cases hsplit : splitGroups (more + 1) rest with
        | error fault => rfl
        | ok found =>
          obtain ⟨groups, tail⟩ := found
          obtain ⟨first, others, rfl⟩ := List.exists_cons_of_ne_nil (ne_nil_of_splitGroups hsplit)
          simp only [Except.map, ofNat_next _ hnext, List.getLastD_cons, unsignedValue.eq_2 byte]

theorem collect_zero_eq (hbits : maxBits ≤ 70) (input : List UInt8) :
    collect maxBits 0 0 input =
      some ((splitGroups (groupLimit maxBits) input).map fun found =>
        (UInt64.ofNat (unsignedValue found.1), found.1.getLastD 0, found.2)) := by
  have hdone : 0 < groupLimit maxBits := by
    rw [groupLimit]
    omega
  have h := @collect_eq 0 maxBits hbits 0 hdone (by decide) input
  simpa using h

/-- The register holds the number when the last byte has been put into it. -/
theorem collectUnsigned_eq (hbits : maxBits ≤ 70) (input : List UInt8) :
    collectUnsigned maxBits input = some (readUnsigned maxBits input) := by
  rw [collectUnsigned, collect_zero_eq hbits, readUnsigned]
  cases splitGroups (groupLimit maxBits) input with
  | error fault => rfl
  | ok found => rfl

/-! ### The sign -/

theorem toInt64_eq_ofInt {word : UInt64} {value : Int} (h : (word.toNat : Int) % 2 ^ 64 = value % 2 ^ 64) :
    word.toInt64 = Int64.ofInt value := by
  have hword : word.toInt64.toInt = (word.toNat : Int).bmod (2 ^ 64) := BitVec.toInt_eq_toNat_bmod word.toBitVec
  have hmod : (word.toNat : Int) % (2 ^ 64 : Nat) = value % (2 ^ 64 : Nat) := h
  rw [← Int64.toInt_inj, hword, Int64.toInt_ofInt, show Int64.size = 2 ^ 64 from rfl, Int.bmod, Int.bmod,
    hmod]

/-- Filling the register with the sign makes it the signed number. -/
theorem extendSign_eq (front : List UInt8) {last : UInt8} (h : last < 0x80) :
    (extendSign (UInt64.ofNat (unsignedValue (front ++ [last]))) last (7 * (front ++ [last]).length)).map
      UInt64.toInt64 = some (Int64.ofInt (signedValue (front ++ [last]))) := by
  have hlt := unsignedValue_lt_two_pow (front ++ [last])
  rw [signedValue_concat front h]
  generalize unsignedValue (front ++ [last]) = value at hlt ⊢
  generalize 7 * (front ++ [last]).length = bits at hlt ⊢
  have hmod : ((UInt64.ofNat value).toNat : Int) % 2 ^ 64 = value % 2 ^ 64 := by
    rw [UInt64.toNat_ofNat']
    omega
  by_cases hsign : last.toNat < 64
  · rw [extendSign, if_neg (fun hboth => hboth.2 ((and_sign_eq_zero_iff h).2 hsign)), if_pos hsign]
    exact congrArg some (toInt64_eq_ofInt hmod)
  · rw [if_neg hsign]
    by_cases hbits : bits < 64
    · have hregister : (UInt64.ofNat value).toNat = value :=
        UInt64.toNat_ofNat_of_lt' (Nat.lt_trans hlt (Nat.pow_lt_pow_right (by decide) hbits))
      have hword := @toNat_or_shiftLeft (.ofNat value) (~~~0) bits hbits (by rwa [hregister])
      rw [hregister, show (~~~(0 : UInt64)).toNat = 2 ^ 64 - 1 by decide] at hword
      rw [extendSign, if_pos ⟨hbits, mt (and_sign_eq_zero_iff h).1 hsign⟩, shiftLeft?, if_pos hbits]
      refine congrArg some (toInt64_eq_ofInt ?_)
      rw [hword]
      omega
    · have hpow : 2 ^ bits = 2 ^ 64 * 2 ^ (bits - 64) := by
        rw [← Nat.pow_add, Nat.add_sub_cancel' (Nat.le_of_not_lt hbits)]
      rw [extendSign, if_neg (fun hboth => hbits hboth.1)]
      refine congrArg some (toInt64_eq_ofInt ?_)
      omega

theorem collectSigned_eq (hbits : maxBits ≤ 70) (input : List UInt8) :
    collectSigned maxBits input = some (readSigned maxBits input) := by
  rw [collectSigned, collect_zero_eq hbits, readSigned]
  cases hsplit : splitGroups (groupLimit maxBits) input with
  | error fault => rfl
  | ok found =>
    obtain ⟨groups, rest⟩ := found
    obtain ⟨front, last, rfl, hlast⟩ := exists_last_of_isRun (isRun_of_splitGroups hsplit)
    obtain rfl := append_of_splitGroups hsplit
    obtain ⟨word, hword, hvalue⟩ := Option.map_eq_some_iff.1 (extendSign_eq front hlast)
    simp only [Except.map, Option.bind_some, List.getLastD_concat]
    rw [@List.length_append _ _ rest, Nat.add_sub_cancel, hword, ← hvalue]
    rfl

/-- A signed number is the run with its sign extended, unless it fills the register. -/
theorem toBitVec_signedValue (groups : List UInt8) :
    (Int64.ofInt (signedValue groups)).toBitVec =
      if 7 * groups.length < 64 then (BitVec.ofNat (7 * groups.length) (groupSum groups)).signExtend 64
      else BitVec.ofNat 64 (groupSum groups) := by
  by_cases hbits : 7 * groups.length < 64
  · rw [if_pos hbits, signedValue_eq_twosComplement]
    rfl
  · have hpow : 2 ^ (7 * groups.length) = 2 ^ 64 * 2 ^ (7 * groups.length - 64) := by
      rw [← Nat.pow_add, Nat.add_sub_cancel' (Nat.le_of_not_lt hbits)]
    have hlost : signedValue groups % (2 ^ 64 : Nat) = (groupSum groups : Int) % (2 ^ 64 : Nat) := by
      rw [signedValue, ← unsignedValue_eq_groupSum, Nat.pow_eq]
      split <;> omega
    rw [if_neg hbits, Int64.toBitVec_ofInt, ← BitVec.toNat_inj, BitVec.toNat_ofInt, BitVec.toNat_ofNat, hlost]
    omega

/-- Integers of at most 70 bits are read as `ReadsRuns` says: an unsigned one modulo 2⁶⁴, a signed one with its sign
extended if it leaves room for that. A register does the same and never has to be shifted by 64 bits. -/
theorem bounded_reads {maxBits : Nat} (hbits : maxBits ≤ 70) :
    ReadsRuns (max 1 ((maxBits + 6) / 7)) (fun groups (value : UInt64) => value.toNat = groupSum groups % 2 ^ 64)
      (onSlice (readUnsigned maxBits)) ∧
    ReadsRuns (max 1 ((maxBits + 6) / 7))
      (fun groups (value : Int64) => value.toBitVec =
        if 7 * groups.length < 64 then (BitVec.ofNat (7 * groups.length) (groupSum groups)).signExtend 64
        else BitVec.ofNat 64 (groupSum groups))
      (onSlice (readSigned maxBits)) ∧
    ∀ input, collectUnsigned maxBits input = some (readUnsigned maxBits input) ∧
      collectSigned maxBits input = some (readSigned maxBits input) := by
  refine ⟨?_, ?_, fun input => ⟨collectUnsigned_eq hbits input, collectSigned_eq hbits input⟩⟩
  all_goals
    obtain ⟨limit, hlimit, -⟩ := exists_groupLimit maxBits
    rw [← groupLimit, hlimit]
  · refine readsRuns_onSlice (fun groups => UInt64.ofNat (unsignedValue groups)) (fun input => ?_) ?_
    · rw [readUnsigned, hlimit]
      cases splitGroups (limit + 1) input <;> rfl
    · intro groups value
      rw [← UInt64.toNat_inj, UInt64.toNat_ofNat', unsignedValue_eq_groupSum, eq_comm]
  · refine readsRuns_onSlice (fun groups => Int64.ofInt (signedValue groups)) (fun input => ?_) ?_
    · rw [readSigned, hlimit]
      cases splitGroups (limit + 1) input <;> rfl
    · intro groups value
      rw [← Int64.toBitVec_inj, toBitVec_signedValue, eq_comm]

/-- Of a tenth byte, one bit fits. -/
theorem bounded_reads_seventy :
    (70 : Nat) ≤ 70 ∧
      onSlice (readUnsigned 70) (List.replicate 9 0x80 ++ [0x03, 0xFF]) = .ok 0x8000000000000000 [0xFF] := by
  refine ⟨by decide, ((bounded_reads (by decide)).1.ok_iff _ _ _).2 ⟨List.replicate 9 0x80 ++ [0x03], rfl, ?_, ?_, ?_⟩⟩
  · decide
  · decide
  · rw [← unsignedValue_eq_groupSum]
    decide

end WasmEngine.Leb128
