import Mathlib.Algebra.Ring.Int.Defs
import WasmEngine.Proofs.Binary.Reading
import WasmEngine.Proofs.Leb128.Writing

/-!
# Reading back what was written

The reader gives back the number, asks for more on any part of its encoding, and knows no shorter one. Both rest on how
many bytes the writer takes: at most `n` exactly when the number fits into `n` groups of seven bits.
-/

namespace WasmEngine.Leb128

variable {groups word : List UInt8}

/-- What makes a word the encoding of a value for a reader of a given width. -/
structure Encodes {α : Type} (read : Nat → List UInt8 → Except Fault (α × List UInt8)) (width : Nat) (value : α)
    (word : List UInt8) : Prop where
  /-- The reader gives the value and leaves exactly what follows the word. -/
  read_append : ∀ rest, read width (word ++ rest) = .ok (value, rest)
  /-- A part of the word is not enough. -/
  read_front : ∀ front, front <+: word → front ≠ word → read width front = .error .unexpectedEnd
  /-- Whatever reads as the value at full width takes at least as many bytes as the word. -/
  shortest : ∀ input rest, read 64 input = .ok (value, rest) →
    ∃ groups, input = groups ++ rest ∧ word.length ≤ groups.length

/-! ## Runs -/

theorem isRun_of_splitGroups {limit : Nat} {input rest : List UInt8}
    (h : splitGroups limit input = .ok (groups, rest)) : Form.IsRun groups := by
  induction input generalizing limit groups rest with
  | nil => simp [splitGroups] at h
  | cons byte tail ih =>
    rw [splitGroups] at h
    split at h
    · rename_i hlast
      simp only [Except.ok.injEq, Prod.mk.injEq] at h
      simp [← h.1, Form.IsRun, hlast]
    · rename_i hmore
      split at h
      · simp at h
      · split at h
        · rename_i inner after found
          simp only [Except.ok.injEq, Prod.mk.injEq] at h
          simpa [← h.1, Form.IsRun, hmore] using ih found
        · simp at h

/-- A run that breaks off is waited for. -/
theorem splitGroups_front {front back : List UInt8} (hrun : Form.IsRun (front ++ back)) (hback : back ≠ []) {limit : Nat}
    (hlimit : (front ++ back).length ≤ limit) : splitGroups limit front = .error .unexpectedEnd := by
  induction front generalizing limit with
  | nil => rfl
  | cons byte front ih =>
    have hlength : 0 < back.length := List.length_pos_iff.2 hback
    rw [List.cons_append, Form.IsRun] at hrun
    simp only [List.cons_append, List.length_cons, List.length_append] at hlimit
    split at hrun
    · exact absurd (List.append_eq_nil_iff.1 hrun).2 hback
    · rw [splitGroups, if_neg ‹_›, if_neg (by omega), ih hrun (by rw [List.length_append]; omega)]

@[simp]
theorem toNat_lastByte (bits : Nat) : (lastByte bits).toNat = bits % 128 := by
  rw [lastByte, UInt8.toNat_ofNat']
  omega

@[simp]
theorem toNat_moreByte (bits : Nat) : (moreByte bits).toNat = bits % 128 + 128 := by
  rw [moreByte, UInt8.toNat_ofNat']
  omega

theorem isRun_lastByte (bits : Nat) : Form.IsRun [lastByte bits] := by
  have hlast : lastByte bits < 0x80 := by
    rw [UInt8.lt_iff_toNat_lt, toNat_lastByte]
    exact Nat.mod_lt _ (by decide)
  simp [Form.IsRun, hlast]

theorem isRun_moreByte (bits : Nat) (h : Form.IsRun word) : Form.IsRun (moreByte bits :: word) := by
  have hmore : ¬moreByte bits < 0x80 := by
    rw [UInt8.lt_iff_toNat_lt, toNat_moreByte]
    simp
  simpa [Form.IsRun, hmore] using h

theorem length_pos_of_isRun (h : Form.IsRun word) : 0 < word.length := by
  cases word with
  | nil => exact h.elim
  | cons byte word => exact Nat.succ_pos _

/-! ## Unsigned numbers -/

theorem unsignedValue_lt (groups : List UInt8) : unsignedValue groups < 128 ^ groups.length := by
  induction groups with
  | nil => decide
  | cons byte groups ih =>
    rw [unsignedValue, List.length_cons, Nat.pow_succ]
    omega

theorem isRun_encodeUnsigned (value : Nat) : Form.IsRun (encodeUnsigned value) := by
  fun_induction encodeUnsigned value with
  | case1 value hsmall => exact isRun_lastByte value
  | case2 value hlarge ih => exact isRun_moreByte value ih

theorem unsignedValue_encodeUnsigned (value : Nat) : unsignedValue (encodeUnsigned value) = value := by
  fun_induction encodeUnsigned value with
  | case1 value hsmall =>
    simp only [unsignedValue, toNat_lastByte]
    omega
  | case2 value hlarge ih =>
    rw [unsignedValue, toNat_moreByte, ih]
    omega

/-- The writer takes at most `n + 1` bytes for the numbers of `n + 1` groups and no others. -/
theorem length_encodeUnsigned_le_iff (value n : Nat) : (encodeUnsigned value).length ≤ n + 1 ↔ value < 128 ^ (n + 1) := by
  fun_induction encodeUnsigned value generalizing n with
  | case1 value hsmall =>
    have hpow : 0 < 128 ^ n := Nat.pow_pos (by decide)
    simp only [List.length_singleton, Nat.pow_succ]
    omega
  | case2 value hlarge ih =>
    cases n with
    | zero =>
      have hlength := length_pos_of_isRun (isRun_encodeUnsigned (value / 128))
      simp only [List.length_cons]
      omega
    | succ n =>
      rw [List.length_cons, Nat.add_le_add_iff_right, ih, Nat.pow_succ _ (n + 1), Nat.div_lt_iff_lt_mul (by decide)]

/-- A number of 32 bits is written in a form in which such numbers are read. -/
theorem encodeUnsigned_mem_u32 {value : Nat} (h : value < 0x100000000) : encodeUnsigned value ∈ Form.u32 value := by
  have hlength : (encodeUnsigned value).length ≤ 4 + 1 :=
    (length_encodeUnsigned_le_iff value 4).2 (Nat.lt_trans h (by decide))
  exact ⟨⟨isRun_encodeUnsigned value, hlength⟩, unsignedValue_encodeUnsigned value, h⟩

theorem putUnsigned_eq (value : Nat) (before : List UInt8) :
    putUnsigned value { written := before } =
      .ok (encodeUnsigned value).length { written := before ++ encodeUnsigned value } := by
  rw [putUnsigned_eq_putWord, putWord_growing]

/-! ## Signed numbers -/

/-- The weight of a bit above the groups. -/
theorem two_pow_groups (n : Nat) : Nat.pow 2 (7 * n) = 128 ^ n :=
  Nat.pow_mul 2 7 n

theorem signedValue_singleton (byte : UInt8) :
    signedValue [byte] = if 64 ≤ byte.toNat % 128 then (byte.toNat % 128 : Int) - 128 else (byte.toNat % 128 : Int) := by
  simp only [signedValue, two_pow_groups, unsignedValue, List.length_singleton]
  split <;> split <;> omega

/-- The sign is decided by the last byte, so a byte in front of a run only adds its digit. -/
theorem signedValue_cons (byte : UInt8) (h : 0 < groups.length) :
    signedValue (byte :: groups) = (byte.toNat % 128 : Int) + 128 * signedValue groups := by
  obtain ⟨n, hn⟩ := Nat.exists_eq_add_one_of_ne_zero h.ne'
  simp only [signedValue, two_pow_groups, unsignedValue, List.length_cons, hn, Nat.pow_succ]
  split <;> split <;> omega

theorem signedValue_range {n : Nat} (h : groups.length = n + 1) :
    -(64 * 128 ^ n : Int) ≤ signedValue groups ∧ signedValue groups < 64 * 128 ^ n := by
  have hlt := unsignedValue_lt groups
  have hcast : ((128 ^ n : Nat) : Int) = 128 ^ n := by norm_cast
  simp only [signedValue, two_pow_groups, h, Nat.pow_succ] at hlt ⊢
  split <;> omega

theorem isRun_encodeSigned (value : Int) : Form.IsRun (encodeSigned value) := by
  fun_induction encodeSigned value with
  | case1 value hsmall => exact isRun_lastByte _
  | case2 value hlarge ih => exact isRun_moreByte _ ih

theorem fitsOneGroup_iff (value : Int) : fitsOneGroup value ↔ -64 ≤ value ∧ value < 64 := by
  simp [fitsOneGroup]

theorem signedValue_encodeSigned (value : Int) : signedValue (encodeSigned value) = value := by
  fun_induction encodeSigned value with
  | case1 value hsmall =>
    rw [fitsOneGroup_iff] at hsmall
    rw [signedValue_singleton, toNat_lastByte]
    split <;> omega
  | case2 value hlarge ih =>
    rw [signedValue_cons _ (length_pos_of_isRun (isRun_encodeSigned _)), toNat_moreByte, ih]
    omega

/-- The writer takes at most `n + 1` bytes for the numbers of `n + 1` groups, and no others. -/
theorem length_encodeSigned_le_iff (value : Int) (n : Nat) :
    (encodeSigned value).length ≤ n + 1 ↔ -(64 * 128 ^ n : Int) ≤ value ∧ value < 64 * 128 ^ n := by
  fun_induction encodeSigned value generalizing n with
  | case1 value hsmall =>
    rw [fitsOneGroup_iff] at hsmall
    have hpow : (0 : Int) < 128 ^ n := Int.pow_pos (by decide)
    simp only [List.length_singleton]
    omega
  | case2 value hlarge ih =>
    rw [fitsOneGroup_iff] at hlarge
    cases n with
    | zero =>
      have hlength := length_pos_of_isRun (isRun_encodeSigned (value / 128))
      simp only [List.length_cons]
      omega
    | succ n =>
      rw [List.length_cons, Nat.add_le_add_iff_right, ih, pow_succ]
      omega

theorem putSigned_eq (value : Int) (before : List UInt8) :
    putSigned value { written := before } =
      .ok (encodeSigned value).length { written := before ++ encodeSigned value } := by
  rw [putSigned_eq_putWord, putWord_growing]

/-! ## Both readers -/

theorem exists_groupLimit (width : Nat) : ∃ n, groupLimit width = n + 1 ∧ width ≤ 7 * (n + 1) := by
  refine ⟨groupLimit width - 1, ?_⟩
  rw [groupLimit]
  omega

/-- What a reader needs: the word is a run of the value, short enough for the width, and no shorter run denotes it. -/
theorem encodes_of_run {α : Type} {read : Nat → List UInt8 → Except Fault (α × List UInt8)} (denote : List UInt8 → α)
    (hread : ∀ width input, read width input =
      (splitGroups (groupLimit width) input).map fun found => (denote found.1, found.2))
    {width : Nat} {value : α} (hrun : Form.IsRun word) (hlength : word.length ≤ groupLimit width)
    (hvalue : denote word = value)
    (hshortest : ∀ groups, Form.IsRun groups → denote groups = value → word.length ≤ groups.length) :
    Encodes read width value word where
  read_append rest := by
    rw [hread, Reader.splitGroups_append hrun hlength, Except.map, hvalue]
  read_front := by
    rintro front ⟨back, rfl⟩ hfront
    have hback : back ≠ [] := by
      rintro rfl
      exact hfront (List.append_nil _).symm
    rw [hread, splitGroups_front hrun hback hlength, Except.map]
  shortest := by
    intro input rest h
    rw [hread] at h
    cases hsplit : splitGroups (groupLimit 64) input with
    | error fault =>
      rw [hsplit] at h
      cases h
    | ok found =>
      obtain ⟨groups, rest'⟩ := found
      rw [hsplit] at h
      cases h
      exact ⟨groups, (append_of_splitGroups hsplit).symm, hshortest groups (isRun_of_splitGroups hsplit) rfl⟩

theorem encodes_unsigned (value : UInt64) {width : Nat} (hvalue : value.toNat < 2 ^ width) :
    Encodes readUnsigned width value (encodeUnsigned value.toNat) := by
  refine encodes_of_run (fun groups => UInt64.ofNat (unsignedValue groups)) ?_ (isRun_encodeUnsigned _) ?_ ?_ ?_
  · intro width input
    rw [readUnsigned]
    split <;> simp [Except.map, *]
  · obtain ⟨n, hn, hwidth⟩ := exists_groupLimit width
    rw [hn, length_encodeUnsigned_le_iff, ← two_pow_groups]
    exact Nat.lt_of_lt_of_le hvalue (Nat.pow_le_pow_right (by decide) hwidth)
  · rw [unsignedValue_encodeUnsigned, UInt64.ofNat_toNat]
  · intro groups hgroups hdenotes
    obtain ⟨n, hn⟩ := Nat.exists_eq_add_one_of_ne_zero (length_pos_of_isRun hgroups).ne'
    have hlt := unsignedValue_lt groups
    have hmax : (encodeUnsigned value.toNat).length ≤ 9 + 1 :=
      (length_encodeUnsigned_le_iff _ _).2 (Nat.lt_trans value.toNat_lt (by decide))
    -- Nine groups are still exact: only a tenth one can lose bits.
    by_cases hshort : n + 1 ≤ 9
    · have hexact : value.toNat = unsignedValue groups := by
        rw [← hdenotes, UInt64.toNat_ofNat_of_lt']
        exact Nat.lt_of_lt_of_le hlt (hn ▸ Nat.le_trans (Nat.pow_le_pow_right (by decide) hshort) (by decide))
      rw [hn, length_encodeUnsigned_le_iff, hexact, ← hn]
      exact hlt
    · omega

theorem encodes_signed (value : Int64) {width : Nat} (hwidth : 1 ≤ width) (hlow : -2 ^ (width - 1) ≤ value.toInt)
    (hhigh : value.toInt < 2 ^ (width - 1)) : Encodes readSigned width value (encodeSigned value.toInt) := by
  refine encodes_of_run (fun groups => Int64.ofInt (signedValue groups)) ?_ (isRun_encodeSigned _) ?_ ?_ ?_
  · intro width input
    rw [readSigned]
    split <;> simp [Except.map, *]
  · obtain ⟨n, hn, hgroups⟩ := exists_groupLimit width
    have hpow : (2 : Int) ^ (width - 1) ≤ 64 * 128 ^ n := by
      have hnat : 2 ^ (width - 1) ≤ 64 * 128 ^ n :=
        calc 2 ^ (width - 1) ≤ 2 ^ (6 + 7 * n) := Nat.pow_le_pow_right (by decide) (by omega)
          _ = 64 * 128 ^ n := by rw [Nat.pow_add, Nat.pow_mul]
      exact_mod_cast hnat
    rw [hn, length_encodeSigned_le_iff]
    omega
  · rw [signedValue_encodeSigned, Int64.ofInt_toInt]
  · intro groups hgroups hdenotes
    obtain ⟨n, hn⟩ := Nat.exists_eq_add_one_of_ne_zero (length_pos_of_isRun hgroups).ne'
    obtain ⟨hmin, hmax⟩ := signedValue_range hn
    have hvalue := value.toInt_lt
    have hvalue' := value.le_toInt
    have hten : (encodeSigned value.toInt).length ≤ 9 + 1 := by
      rw [length_encodeSigned_le_iff]
      omega
    by_cases hshort : n + 1 ≤ 9
    · have hpow : (128 : Int) ^ n ≤ 128 ^ 8 := by
        exact_mod_cast Nat.pow_le_pow_right (by decide) (by omega)
      have hexact : value.toInt = signedValue groups := by
        rw [← hdenotes, Int64.toInt_ofInt_of_le (by omega) (by omega)]
      rw [hn, length_encodeSigned_le_iff, hexact]
      exact ⟨hmin, hmax⟩
    · omega

/-- Writing a number that fits a width, behind whatever was written before, writes its shortest encoding: reading at
that width gives the number back and leaves what follows, and needs every byte. -/
theorem written_encodes :
    (∀ (value : UInt64) (width : Nat), 1 ≤ width → width ≤ 64 → value.toNat < 2 ^ width →
      ∃ word, Encodes readUnsigned width value word ∧
        ∀ before, putUnsigned value.toNat { written := before } = .ok word.length { written := before ++ word }) ∧
    ∀ (value : Int64) (width : Nat), 1 ≤ width → width ≤ 64 →
      -2 ^ (width - 1) ≤ value.toInt → value.toInt < 2 ^ (width - 1) →
      ∃ word, Encodes readSigned width value word ∧
        ∀ before, putSigned value.toInt { written := before } = .ok word.length { written := before ++ word } := by
  refine ⟨fun value width _ _ hvalue => ?_, fun value width hwidth _ hlow hhigh => ?_⟩
  · exact ⟨_, encodes_unsigned value hvalue, putUnsigned_eq _⟩
  · exact ⟨_, encodes_signed value hwidth hlow hhigh, putSigned_eq _⟩

/-- The numbers with the longest encodings are among them. -/
theorem written_encodes_extremes :
    (∃ word, Encodes readUnsigned 64 0xFFFFFFFFFFFFFFFF word ∧
      ∀ before, putUnsigned (0xFFFFFFFFFFFFFFFF : UInt64).toNat { written := before } =
        .ok word.length { written := before ++ word }) ∧
    ∃ word, Encodes readSigned 64 Int64.minValue word ∧
      ∀ before, putSigned Int64.minValue.toInt { written := before } =
        .ok word.length { written := before ++ word } :=
  ⟨written_encodes.1 0xFFFFFFFFFFFFFFFF 64 (by decide) (by decide) (by decide),
    written_encodes.2 Int64.minValue 64 (by decide) (by decide) (by decide) (by decide)⟩

end WasmEngine.Leb128
