import Mathlib.Algebra.BigOperators.Fin
import WasmEngine.Proofs.Leb128.RoundTrip

/-!
# What is at the front of the input

Which bytes an integer takes up and which number they carry: a sum of digits (`groupSum`), or in two's complement the
same bits read with their sign (`twosComplement`).
-/

namespace WasmEngine.Leb128

/-! ## Numbers -/

/-- The number that bytes carry: each has a digit of seven bits, the lowest comes first. -/
def groupSum (groups : List UInt8) : Nat :=
  ∑ i : Fin groups.length, (groups.get i).toNat % 128 * 128 ^ (i : Nat)

/-- The number that the same bits are in two's complement. -/
def twosComplement (groups : List UInt8) : Int :=
  (BitVec.ofNat (7 * groups.length) (groupSum groups)).toInt

theorem unsignedValue_eq_groupSum (groups : List UInt8) : unsignedValue groups = groupSum groups := by
  induction groups with
  | nil => rfl
  | cons byte groups ih =>
    have hsum : groupSum (byte :: groups) = byte.toNat % 128 * 128 ^ 0 +
        ∑ i : Fin groups.length, (groups.get i).toNat % 128 * 128 ^ (i.val + 1) :=
      Fin.sum_univ_succ fun i : Fin (groups.length + 1) => ((byte :: groups).get i).toNat % 128 * 128 ^ i.val
    rw [unsignedValue, ih, hsum, groupSum, Finset.mul_sum, pow_zero, mul_one]
    refine congrArg _ (Finset.sum_congr rfl fun i _ => ?_)
    rw [pow_succ, mul_comm 128, mul_assoc]

theorem unsignedValue_lt_two_pow (groups : List UInt8) : unsignedValue groups < 2 ^ (7 * groups.length) := by
  rw [pow_mul]
  exact unsignedValue_lt groups

theorem signedValue_eq_twosComplement (groups : List UInt8) : signedValue groups = twosComplement groups := by
  rw [twosComplement, BitVec.toInt_eq_toNat_cond, BitVec.toNat_ofNat, ← unsignedValue_eq_groupSum,
    Nat.mod_eq_of_lt (unsignedValue_lt_two_pow groups), signedValue, Nat.pow_eq]
  split <;> split <;> omega

/-! ## Runs -/

theorem exists_last_of_isRun {groups : List UInt8} (h : Form.IsRun groups) :
    ∃ front last, groups = front ++ [last] ∧ last < 0x80 := by
  induction groups with
  | nil => exact h.elim
  | cons byte groups ih =>
    rw [Form.IsRun] at h
    split at h
    · rename_i hlast
      exact ⟨[], byte, by rw [h, List.nil_append], hlast⟩
    · obtain ⟨front, last, rfl, hlast⟩ := ih h
      exact ⟨byte :: front, last, rfl, hlast⟩

/-- The last byte of a run has the highest digit. -/
theorem unsignedValue_concat (front : List UInt8) {last : UInt8} (h : last < 0x80) :
    unsignedValue (front ++ [last]) = unsignedValue front + last.toNat * 2 ^ (7 * front.length) := by
  have hlast : last.toNat < 128 := h
  induction front with
  | nil => simp [unsignedValue, Nat.mod_eq_of_lt hlast]
  | cons byte front ih =>
    rw [List.cons_append, unsignedValue, unsignedValue, ih, List.length_cons, Nat.mul_succ, Nat.pow_add, Nat.mul_add,
      ← Nat.add_assoc, Nat.mul_comm 128 (_ * _), Nat.mul_assoc]

/-- The sign of a run is the highest bit of its last digit. -/
theorem signedValue_concat (front : List UInt8) {last : UInt8} (h : last < 0x80) :
    signedValue (front ++ [last]) =
      if last.toNat < 64 then (unsignedValue (front ++ [last]) : Int)
      else (unsignedValue (front ++ [last]) : Int) - (2 ^ (7 * (front ++ [last]).length) : Nat) := by
  have hlow := unsignedValue_lt_two_pow front
  have hpow : 2 ^ (7 * (front.length + 1)) = 2 ^ (7 * front.length) * 128 := Nat.pow_add 2 (7 * front.length) 7
  have hiff : 2 ^ (7 * (front ++ [last]).length) ≤ 2 * unsignedValue (front ++ [last]) ↔ ¬last.toNat < 64 := by
    rw [List.length_append, List.length_singleton, hpow, unsignedValue_concat front h]
    by_cases hsign : last.toNat < 64
    · have hdigit := Nat.mul_le_mul_right (2 ^ (7 * front.length)) (Nat.le_sub_one_of_lt hsign)
      omega
    · have hdigit := Nat.mul_le_mul_right (2 ^ (7 * front.length)) (Nat.le_of_not_lt hsign)
      omega
  rw [signedValue, Nat.pow_eq]
  by_cases hsign : last.toNat < 64
  · rw [if_neg (fun hle => hiff.1 hle hsign), if_pos hsign]
  · rw [if_pos (hiff.2 hsign), if_neg hsign]

section Splitting

variable {byte : UInt8} {limit : Nat} {input groups rest : List UInt8}

theorem splitGroups_last (h : byte < 0x80) : splitGroups limit (byte :: rest) = .ok ([byte], rest) := by
  rw [splitGroups, if_pos h]

theorem splitGroups_long (h : ¬byte < 0x80) : splitGroups 1 (byte :: rest) = .error .overflow := by
  rw [splitGroups, if_neg h, if_pos (Nat.le_refl 1)]

theorem splitGroups_more (h : ¬byte < 0x80) :
    splitGroups (limit + 2) (byte :: rest) =
      (splitGroups (limit + 1) rest).map fun found => (byte :: found.1, found.2) := by
  rw [splitGroups, if_neg h, if_neg (by omega), show limit + 2 - 1 = limit + 1 from rfl]
  cases splitGroups (limit + 1) rest with
  | ok found => rfl
  | error fault => rfl

theorem length_le_of_splitGroups (h : splitGroups (limit + 1) input = .ok (groups, rest)) :
    groups.length ≤ limit + 1 := by
  induction input generalizing limit groups rest with
  | nil => cases h
  | cons byte tail ih =>
    by_cases hlast : byte < 0x80
    · rw [splitGroups_last hlast] at h
      cases h
      exact Nat.succ_le_succ (Nat.zero_le limit)
    · cases limit with
      | zero =>
        rw [splitGroups_long hlast] at h
        cases h
      | succ limit =>
        rw [splitGroups_more hlast] at h
        cases hsplit : splitGroups (limit + 1) tail with
        | error fault =>
          rw [hsplit] at h
          cases h
        | ok found =>
          rw [hsplit] at h
          cases h
          exact Nat.succ_le_succ (ih hsplit)

/-- A run is found where there is one that is short enough. -/
theorem splitGroups_eq_ok_iff :
    splitGroups (limit + 1) input = .ok (groups, rest) ↔
      input = groups ++ rest ∧ Form.IsRun groups ∧ groups.length ≤ limit + 1 := by
  constructor
  · intro h
    exact ⟨(append_of_splitGroups h).symm, isRun_of_splitGroups h, length_le_of_splitGroups h⟩
  · rintro ⟨rfl, hrun, hlength⟩
    exact Reader.splitGroups_append hrun hlength rest

/-- No run is found where all bytes that may belong to one have the continuation bit. -/
theorem splitGroups_eq_error_iff {fault : Fault} :
    splitGroups (limit + 1) input = .error fault ↔
      (∀ byte ∈ input.take (limit + 1), 0x80 ≤ byte) ∧
        (limit < input.length ∧ fault = .overflow ∨ input.length ≤ limit ∧ fault = .unexpectedEnd) := by
  induction input generalizing limit with
  | nil => simp [splitGroups, eq_comm]
  | cons byte tail ih =>
    rw [List.take_succ_cons, List.forall_mem_cons, List.length_cons]
    by_cases hlast : byte < 0x80
    · simp [splitGroups_last hlast, UInt8.not_le.2 hlast]
    · have hmore : 0x80 ≤ byte := UInt8.not_lt.1 hlast
      cases limit with
      | zero => simp [splitGroups_long hlast, hmore, eq_comm]
      | succ limit =>
        have hmap : splitGroups (limit + 2) (byte :: tail) = .error fault ↔
            splitGroups (limit + 1) tail = .error fault := by
          rw [splitGroups_more hlast]
          cases splitGroups (limit + 1) tail <;> simp [Except.map]
        rw [hmap, ih]
        simp [hmore]

theorem splitGroups_eq_overflow_iff :
    splitGroups (limit + 1) input = .error .overflow ↔
      limit + 1 ≤ input.length ∧ ∀ byte ∈ input.take (limit + 1), 0x80 ≤ byte := by
  rw [splitGroups_eq_error_iff]
  constructor
  · rintro ⟨hmore, ⟨hlength, -⟩ | ⟨-, hfault⟩⟩
    · exact ⟨hlength, hmore⟩
    · cases hfault
  · rintro ⟨hlength, hmore⟩
    exact ⟨hmore, .inl ⟨hlength, rfl⟩⟩

/-- The input ended too early if the continuation bit is all that its bytes show. -/
theorem splitGroups_eq_unexpectedEnd_iff :
    splitGroups (limit + 1) input = .error .unexpectedEnd ↔
      input.length < limit + 1 ∧ ∀ byte ∈ input, 0x80 ≤ byte := by
  rw [splitGroups_eq_error_iff]
  constructor
  · rintro ⟨hmore, ⟨-, hfault⟩ | ⟨hlength, -⟩⟩
    · cases hfault
    · rw [List.take_of_length_le (by omega)] at hmore
      exact ⟨Nat.lt_succ_of_le hlength, hmore⟩
  · rintro ⟨hlength, hmore⟩
    exact ⟨fun byte hbyte => hmore byte (List.mem_of_mem_take hbyte), .inr ⟨Nat.le_of_lt_succ hlength, rfl⟩⟩

theorem overflow_or_unexpectedEnd_of_splitGroups {fault : Fault} (h : splitGroups (limit + 1) input = .error fault) :
    fault = .overflow ∨ fault = .unexpectedEnd :=
  (splitGroups_eq_error_iff.1 h).2.imp And.right And.right

theorem exists_splitGroups_iff :
    (∃ found, splitGroups (limit + 1) input = .ok found) ↔ ∃ byte ∈ input.take (limit + 1), byte < 0x80 := by
  constructor
  · rintro ⟨found, hfound⟩
    by_contra hnone
    have hmore : ∀ byte ∈ input.take (limit + 1), 0x80 ≤ byte :=
      fun byte hbyte => UInt8.not_lt.1 fun hlast => hnone ⟨byte, hbyte, hlast⟩
    rcases Nat.lt_or_ge limit input.length with hlong | hshort
    · cases hfound.symm.trans (splitGroups_eq_error_iff.2 ⟨hmore, .inl ⟨hlong, rfl⟩⟩)
    · cases hfound.symm.trans (splitGroups_eq_error_iff.2 ⟨hmore, .inr ⟨hshort, rfl⟩⟩)
  · rintro ⟨byte, hbyte, hlast⟩
    cases hsplit : splitGroups (limit + 1) input with
    | ok found => exact ⟨found, rfl⟩
    | error fault => exact absurd ((splitGroups_eq_error_iff.1 hsplit).1 byte hbyte) (UInt8.not_le.2 hlast)

end Splitting

end WasmEngine.Leb128
