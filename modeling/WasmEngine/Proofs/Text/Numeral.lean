import WasmEngine.Value

/-!
# Numbers are read back from decimal text

The decimal digits of a number denote it, nothing is trimmed of them, and a number that fits a width is read as a value
of that width: `Value.ofText?_toString`.
-/

namespace WasmEngine

namespace Text

variable {text : List Char}

theorem digitsValue_eq (digits : List Char) : digitsValue digits = Nat.ofDigitChars 10 digits 0 := by
  unfold digitsValue Nat.ofDigitChars
  refine congrArg (fun step => digits.foldl step 0) (funext fun value => funext fun c => ?_)
  rw [Nat.mul_comm]
  rfl

/-- Decimal digits are in a range of codes. -/
theorem isDecimal_of_mem_toDigits {n : Nat} {c : Char} (h : c ∈ Nat.toDigits 10 n) : isDecimal c = true := by
  have hdigit := Nat.isDigit_of_mem_toDigits (by decide) (by decide) h
  simp only [Char.isDigit, Bool.and_eq_true, decide_eq_true_eq] at hdigit
  simp only [isDecimal, Bool.and_eq_true, decide_eq_true_eq]
  exact ⟨UInt32.le_iff_toNat_le.1 hdigit.1, UInt32.le_iff_toNat_le.1 hdigit.2⟩

theorem natural?_toDigits (n : Nat) : natural? (Nat.toDigits 10 n) = some n := by
  have hall : (Nat.toDigits 10 n).all isDecimal = true := List.all_eq_true.2 fun _ => isDecimal_of_mem_toDigits
  have hne : (Nat.toDigits 10 n).isEmpty = false := by simp [Nat.toDigits_ne_nil]
  unfold natural?
  rw [hall, hne, digitsValue_eq, Nat.ofDigitChars_toDigits (by decide) (by decide)]
  rfl

/-- A digit is no sign. -/
theorem integer?_toDigits (n : Nat) : integer? (Nat.toDigits 10 n) = some (n : Int) := by
  have hread := natural?_toDigits n
  unfold integer?
  split
  · rename_i digits heq
    have hsign : isDecimal '+' = true := isDecimal_of_mem_toDigits (heq ▸ List.mem_cons_self ..)
    cases hsign
  · rename_i digits heq
    have hsign : isDecimal '-' = true := isDecimal_of_mem_toDigits (heq ▸ List.mem_cons_self ..)
    cases hsign
  · rw [hread]
    rfl

/-- A minus sign is no digit. -/
theorem natural?_minus (text : List Char) : natural? ('-' :: text) = none := by
  simp [natural?, isDecimal]

theorem integer?_of_unsigned? {n : Nat} (h : unsigned? text = some n) :
    integer? text = some (n : Int) := by
  unfold unsigned? at h
  unfold integer?
  split at h
  · simp only [h]
    rfl
  · split
    · contradiction
    · rw [natural?_minus] at h
      cases h
    · rw [h]
      rfl

/-- A number that is greater than zero has no minus sign. -/
theorem unsigned?_of_integer? {x : Int} (h : integer? text = some x) (hpos : 0 < x) :
    unsigned? text = some x.toNat := by
  unfold integer? at h
  unfold unsigned?
  split at h
  · obtain ⟨n, hn, rfl⟩ := Option.map_eq_some_iff.1 h
    exact hn
  · obtain ⟨n, -, rfl⟩ := Option.map_eq_some_iff.1 h
    have hnonneg : 0 ≤ Int.ofNat n := Int.natCast_nonneg n
    omega
  · obtain ⟨n, hn, rfl⟩ := Option.map_eq_some_iff.1 h
    split
    · contradiction
    · exact hn

/-- A digit is not blank. -/
theorem isBlank_of_isDecimal {c : Char} (h : isDecimal c = true) : isBlank c = false := by
  simp only [isDecimal, Bool.and_eq_true, decide_eq_true_eq] at h
  simp [isBlank, blankRanges]
  omega

theorem dropWhile_isBlank (h : ∀ c ∈ text, isBlank c = false) : text.dropWhile isBlank = text := by
  cases text with
  | nil => rfl
  | cons c text =>
    rw [List.dropWhile_cons, h c (List.mem_cons_self ..)]
    rfl

/-- A text without blanks is not trimmed. -/
theorem trim_eq_self (h : ∀ c ∈ text, isBlank c = false) : trim text = text := by
  unfold trim
  rw [dropWhile_isBlank h, dropWhile_isBlank fun c hc => h c (List.mem_reverse.1 hc), List.reverse_reverse]

end Text

namespace Value

variable {text : List Char} {width : Nat}

theorem signed?_eq_some_iff {x : Int} :
    signed? width text = some x ↔
      Text.integer? text = some x ∧ -(Nat.pow 2 (width - 1) : Nat) ≤ x ∧ x < (Nat.pow 2 (width - 1) : Nat) := by
  unfold signed?
  cases Text.integer? text with
  | none => simp
  | some value => grind

theorem unsigned?_eq_some_iff {n : Nat} :
    unsigned? width text = some n ↔ Text.unsigned? text = some n ∧ n < Nat.pow 2 width := by
  unfold unsigned?
  cases Text.unsigned? text with
  | none => simp
  | some value => grind

/-- The signed and the unsigned reading together take the numbers from the least signed one to the greatest unsigned
one. -/
theorem integerOfWidth?_eq_some_iff (hwidth : 0 < width) {x : Int} :
    integerOfWidth? width text = some x ↔
      Text.integer? text = some x ∧ -(Nat.pow 2 (width - 1) : Nat) ≤ x ∧ x < (Nat.pow 2 width : Nat) := by
  have hhalf : Nat.pow 2 width = 2 * Nat.pow 2 (width - 1) := by
    obtain ⟨width, rfl⟩ := Nat.exists_eq_succ_of_ne_zero (Nat.ne_of_gt hwidth)
    exact Nat.pow_succ'
  have hpos : 0 < Nat.pow 2 (width - 1) := Nat.pow_pos (by decide)
  rw [hhalf]
  unfold integerOfWidth?
  cases hsigned : signed? width text with
  | some value =>
    obtain ⟨hread, hlow, hhigh⟩ := signed?_eq_some_iff.1 hsigned
    constructor
    · rintro h
      cases h
      exact ⟨hread, hlow, by omega⟩
    · rintro ⟨hread', -, -⟩
      exact hread.symm.trans hread'
  | none =>
    constructor
    · intro h
      obtain ⟨n, hunsigned, rfl⟩ := Option.map_eq_some_iff.1 h
      obtain ⟨hread, hhigh⟩ := unsigned?_eq_some_iff.1 hunsigned
      rw [hhalf] at hhigh
      have hnonneg : 0 ≤ Int.ofNat n := Int.natCast_nonneg n
      exact ⟨Text.integer?_of_unsigned? hread, by omega, Int.ofNat_lt.2 hhigh⟩
    · rintro ⟨hread, hlow, hhigh⟩
      -- A number in the range of the signed ones would have been read as one.
      have hlarge : (Nat.pow 2 (width - 1) : Nat) ≤ x := by
        refine Int.not_lt.1 fun hsmall => ?_
        have hfits := signed?_eq_some_iff.2 ⟨hread, hlow, hsmall⟩
        cases hsigned.symm.trans hfits
      have hunsigned : unsigned? width text = some x.toNat :=
        unsigned?_eq_some_iff.2 ⟨Text.unsigned?_of_integer? hread (by omega), by omega⟩
      rw [hunsigned, Option.map_some]
      exact congrArg some (Int.toNat_of_nonneg (by omega))

theorem integerOfWidth?_eq {n : Nat} (hwidth : 0 < width)
    (htext : Text.integer? text = some (n : Int)) (h : n < Nat.pow 2 width) :
    integerOfWidth? width text = some (n : Int) :=
  (integerOfWidth?_eq_some_iff hwidth).2 ⟨htext, by omega, Int.ofNat_lt.2 h⟩

/-- The decimal text of a number is read as the number. -/
theorem ofText?_toString {n : Nat} (h : n < 0x10000000000000000) :
    ofText? .i64 (toString n) = .ok (.i64 (.ofNat n)) := by
  have htext : Text.trim (toString n).toList = Nat.toDigits 10 n := by
    rw [Nat.toString_eq_repr, Nat.toList_repr, Text.trim_eq_self fun _ hc =>
      Text.isBlank_of_isDecimal (Text.isDecimal_of_mem_toDigits hc)]
  have hwidth : n < Nat.pow 2 64 := h
  unfold ofText? ofTrimmed?
  dsimp only
  rw [htext, integerOfWidth?_eq (by decide) (Text.integer?_toDigits n) hwidth, Option.map_some, Int64.ofInt_eq_ofNat]

end Value

end WasmEngine
