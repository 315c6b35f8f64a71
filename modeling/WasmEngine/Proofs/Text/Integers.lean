import Mathlib.Data.List.DropRight
import WasmEngine.Proofs.Text.Numeral

/-!
# Whole numbers as arguments

The grammar of whole numbers is stated apart from the program that reads them: decimal digits (`Text.Numeral`), after a
sign or not (`Text.Denotes`), with blanks at the ends left out.
-/

namespace WasmEngine

namespace Text

variable {text : List Char}

/-! ## The grammar of whole numbers -/

/-- One or more decimal digits, and the number that they denote. -/
inductive Numeral : List Char → Nat → Prop where
  | digit {d : Nat} (hd : d < 10) : Numeral [d.digitChar] d
  | append {text : List Char} {n d : Nat} (h : Numeral text n) (hd : d < 10) :
      Numeral (text ++ [d.digitChar]) (10 * n + d)

/-- A numeral, after a sign or not, and the number that it denotes. -/
inductive Denotes : List Char → Int → Prop where
  | plain {text : List Char} {n : Nat} (h : Numeral text n) : Denotes text n
  | plus {text : List Char} {n : Nat} (h : Numeral text n) : Denotes ('+' :: text) n
  | minus {text : List Char} {n : Nat} (h : Numeral text n) : Denotes ('-' :: text) (-n)

theorem isDecimal_digitChar {d : Nat} (hd : d < 10) : isDecimal d.digitChar = true := by
  simp only [isDecimal, Nat.toNat_digitChar_of_lt_ten hd, Bool.and_eq_true, decide_eq_true_eq]
  omega

theorem digitValue_digitChar {d : Nat} (hd : d < 10) : digitValue d.digitChar = d := by
  rw [digitValue, Nat.toNat_digitChar_of_lt_ten hd]
  omega

theorem exists_digitChar {c : Char} (h : isDecimal c = true) : ∃ d < 10, c = d.digitChar := by
  simp only [isDecimal, Bool.and_eq_true, decide_eq_true_eq] at h
  refine ⟨c.toNat - 48, by omega, Char.toNat_inj.1 ?_⟩
  rw [Nat.toNat_digitChar_of_lt_ten (by omega)]
  omega

theorem digitsValue_append (text : List Char) (c : Char) :
    digitsValue (text ++ [c]) = digitsValue text * 10 + digitValue c := by
  simp [digitsValue]

theorem natural?_eq_some_iff {n : Nat} :
    natural? text = some n ↔ text ≠ [] ∧ (∀ c ∈ text, isDecimal c = true) ∧ digitsValue text = n := by
  unfold natural?
  cases text with
  | nil => simp
  | cons c text => grind

theorem Numeral.of_isDecimal (hne : text ≠ []) (hall : ∀ c ∈ text, isDecimal c = true) :
    Numeral text (digitsValue text) := by
  induction text using List.reverseRecOn with
  | nil => exact absurd rfl hne
  | append_singleton text c ih =>
    obtain ⟨d, hd, rfl⟩ := exists_digitChar (hall c (by simp))
    rw [digitsValue_append, digitValue_digitChar hd, Nat.mul_comm]
    cases text with
    | nil =>
      have hdigit : Numeral [d.digitChar] (10 * digitsValue [] + d) := by simpa [digitsValue] using Numeral.digit hd
      exact hdigit
    | cons first text => exact .append (ih (by simp) fun c hc => hall c (List.mem_append_left _ hc)) hd

theorem Numeral.isDecimal {n : Nat} (h : Numeral text n) : ∀ c ∈ text, isDecimal c = true := by
  induction h with
  | digit hd => simpa using isDecimal_digitChar hd
  | append h hd ih => simpa [or_imp, forall_and] using ⟨ih, isDecimal_digitChar hd⟩

/-- The program reads numerals. -/
theorem natural?_iff {n : Nat} : natural? text = some n ↔ Numeral text n := by
  rw [natural?_eq_some_iff]
  constructor
  · rintro ⟨hne, hall, rfl⟩
    exact .of_isDecimal hne hall
  · intro h
    refine ⟨?_, h.isDecimal, ?_⟩
    · cases h <;> simp
    · induction h with
      | digit hd => simp [digitsValue, digitValue_digitChar hd]
      | append h hd ih => rw [digitsValue_append, ih, digitValue_digitChar hd, Nat.mul_comm]

/-- No numeral begins with a sign. -/
theorem Numeral.ne_sign {c : Char} {n : Nat} (h : Numeral (c :: text) n) : c ≠ '+' ∧ c ≠ '-' := by
  have hc := h.isDecimal c (List.mem_cons_self ..)
  constructor <;> (rintro rfl; cases hc)

theorem integer?_iff {x : Int} : integer? text = some x ↔ Denotes text x := by
  constructor
  · intro h
    unfold integer? at h
    split at h <;> obtain ⟨n, hn, rfl⟩ := Option.map_eq_some_iff.1 h
    · exact .plus (natural?_iff.1 hn)
    · exact .minus (natural?_iff.1 hn)
    · exact .plain (natural?_iff.1 hn)
  · intro h
    cases h with
    | @plain text n h =>
      unfold integer?
      split
      · exact absurd rfl h.ne_sign.1
      · exact absurd rfl h.ne_sign.2
      · rw [natural?_iff.2 h]
        rfl
    | plus h =>
      unfold integer?
      simp only [natural?_iff.2 h]
      rfl
    | minus h =>
      unfold integer?
      simp only [natural?_iff.2 h]
      rfl

/-- The decimal text of a number denotes it. -/
theorem denotes_toString (x : Int) : Denotes (toString x).toList x := by
  rw [Int.toString_eq_repr, Int.repr_eq_if]
  split
  · have hdigits := Denotes.plain (natural?_iff.1 (natural?_toDigits x.toNat))
    rwa [← Nat.toList_repr, Int.toNat_of_nonneg (by assumption)] at hdigits
  · have hdigits := Denotes.minus (natural?_iff.1 (natural?_toDigits (-x).toNat))
    rw [Int.toNat_of_nonneg (by omega), Int.neg_neg] at hdigits
    simpa using hdigits

/-! ## Blanks at the ends -/

/-- What is left of a text without the blanks at its ends. -/
structure Trimmed (text core : List Char) : Prop where
  split : ∃ before after, text = before ++ core ++ after ∧ (∀ c ∈ before, isBlank c) ∧ ∀ c ∈ after, isBlank c
  head : ∀ c ∈ core.head?, isBlank c = false
  last : ∀ c ∈ core.getLast?, isBlank c = false

theorem trimmed_trim (text : List Char) : Trimmed text (trim text) := by
  have htrim : trim text = (text.dropWhile isBlank).rdropWhile isBlank := rfl
  have hrest : trim text ++ (text.dropWhile isBlank).rtakeWhile isBlank = text.dropWhile isBlank :=
    List.rdropWhile_append_rtakeWhile
  refine ⟨⟨text.takeWhile isBlank, (text.dropWhile isBlank).rtakeWhile isBlank, ?_, ?_, ?_⟩, ?_, ?_⟩
  · rw [List.append_assoc, hrest, List.takeWhile_append_dropWhile]
  · exact fun c hc => List.mem_takeWhile_imp hc
  · exact fun c hc => List.mem_rtakeWhile_imp hc
  · intro c hc
    have hfirst : (text.dropWhile isBlank).head? = some c := by
      rw [← hrest, List.head?_append, Option.mem_def.1 hc, Option.some_or]
    have hnot := List.head?_dropWhile_not isBlank text
    rwa [hfirst] at hnot
  · intro c hc
    obtain ⟨hne, rfl⟩ := List.mem_getLast?_eq_getLast hc
    exact Bool.eq_false_iff.2 (List.rdropWhile_last_not _ _ hne)

theorem Denotes.isBlank {x : Int} (h : Denotes text x) : ∀ c ∈ text, isBlank c = false := by
  have hdigits {text : List Char} {n : Nat} (h : Numeral text n) : ∀ c ∈ text, Text.isBlank c = false :=
    fun c hc => isBlank_of_isDecimal (h.isDecimal c hc)
  cases h with
  | plain h => exact hdigits h
  | plus h => exact List.forall_mem_cons.2 ⟨rfl, hdigits h⟩
  | minus h => exact List.forall_mem_cons.2 ⟨rfl, hdigits h⟩

end Text

/-! ## Integer types -/

/-- The integer types and their numbers of values. -/
inductive IntegerType : ValType → Nat → Prop where
  | i32 : IntegerType .i32 0x100000000
  | i64 : IntegerType .i64 0x10000000000000000

/-- A number lies between the least signed and the greatest unsigned one. -/
def Fits (modulus : Nat) (x : Int) : Prop :=
  -(modulus / 2 : Nat) ≤ x ∧ x < modulus

instance (modulus : Nat) (x : Int) : Decidable (Fits modulus x) :=
  inferInstanceAs (Decidable (_ ∧ _))

namespace Value

variable {value : Value} {x : Int}

/-- The number that a value of an integer type is. -/
def toInt? : Value → Option Int
  | .i32 value => some value.toInt
  | .i64 value => some value.toInt
  | _ => none

theorem eq_i32_iff :
    value = .i32 (.ofInt x) ↔ value.type = .i32 ∧ (value.toSlot.toNat : Int) = x % 0x100000000 := by
  have hslot (v : Int32) : (Value.i32 v).toSlot.toNat = v.toBitVec.toNat := UInt32.toNat_toUInt64 _
  have hofInt : ((Int32.ofInt x).toBitVec.toNat : Int) = x % 0x100000000 := by
    change ((BitVec.ofInt 32 x).toNat : Int) = _
    rw [BitVec.toNat_ofInt]
    omega
  cases value with
  | i32 v =>
    rw [hslot, ← hofInt, i32.injEq, Int.ofNat_inj, BitVec.toNat_inj, Int32.toBitVec_inj]
    exact (and_iff_right rfl).symm
  | i64 v => simp [type]
  | f32 v => simp [type]
  | f64 v => simp [type]

theorem eq_i64_iff :
    value = .i64 (.ofInt x) ↔ value.type = .i64 ∧ (value.toSlot.toNat : Int) = x % 0x10000000000000000 := by
  have hslot (v : Int64) : (Value.i64 v).toSlot.toNat = v.toBitVec.toNat := rfl
  have hofInt : ((Int64.ofInt x).toBitVec.toNat : Int) = x % 0x10000000000000000 := by
    change ((BitVec.ofInt 64 x).toNat : Int) = _
    rw [BitVec.toNat_ofInt]
    omega
  cases value with
  | i64 v =>
    rw [hslot, ← hofInt, i64.injEq, Int.ofNat_inj, BitVec.toNat_inj, Int64.toBitVec_inj]
    exact (and_iff_right rfl).symm
  | i32 v => simp [type]
  | f32 v => simp [type]
  | f64 v => simp [type]

variable {type : ValType} {modulus : Nat}

theorem ofText?_eq_ok_iff {text : String} :
    ofText? type text = .ok value ↔ ofTrimmed? type (Text.trim text.toList) = some value := by
  unfold ofText?
  dsimp only
  split <;> simp_all

section Reading

variable (htype : IntegerType type modulus)

include htype

/-- A trimmed text is read as a number that fits, and as the value whose slot holds the number. -/
theorem ofTrimmed?_integer {text : List Char} :
    ofTrimmed? type text = some value ↔
      ∃ x, Text.Denotes text x ∧ Fits modulus x ∧ value.type = type ∧ (value.toSlot.toNat : Int) = x % modulus := by
  cases htype with
  | i32 =>
    have hwidth {x : Int} : integerOfWidth? 32 text = some x ↔ Text.Denotes text x ∧ Fits 0x100000000 x := by
      rw [integerOfWidth?_eq_some_iff (by decide), Text.integer?_iff]
      exact Iff.rfl
    simp only [ofTrimmed?, Option.map_eq_some_iff, hwidth, and_assoc, Eq.comm (b := value), eq_i32_iff]
    exact Iff.rfl
  | i64 =>
    have hwidth {x : Int} : integerOfWidth? 64 text = some x ↔ Text.Denotes text x ∧ Fits 0x10000000000000000 x := by
      rw [integerOfWidth?_eq_some_iff (by decide), Text.integer?_iff]
      exact Iff.rfl
    simp only [ofTrimmed?, Option.map_eq_some_iff, hwidth, and_assoc, Eq.comm (b := value), eq_i64_iff]
    exact Iff.rfl

/-- Every number is in the slot of some value, up to a multiple of the modulus. -/
theorem exists_toSlot (x : Int) :
    ∃ value : Value, value.type = type ∧ (value.toSlot.toNat : Int) = x % modulus := by
  cases htype with
  | i32 => exact ⟨_, eq_i32_iff.1 rfl⟩
  | i64 => exact ⟨_, eq_i64_iff.1 rfl⟩

/-- A text is read as the value that holds the number which it denotes. -/
theorem ofText?_of_denotes {text : String} (hx : Text.Denotes (Text.trim text.toList) x) (hfits : Fits modulus x)
    (hvalue : value.type = type) (hslot : (value.toSlot.toNat : Int) = x % modulus) : ofText? type text = .ok value :=
  ofText?_eq_ok_iff.2 ((ofTrimmed?_integer htype).2 ⟨x, hx, hfits, hvalue, hslot⟩)

theorem ofText?_toString_int (hfits : Fits modulus x) (hvalue : value.type = type)
    (hslot : (value.toSlot.toNat : Int) = x % modulus) : ofText? type (toString x) = .ok value := by
  refine ofText?_of_denotes htype ?_ hfits hvalue hslot
  rw [Text.trim_eq_self (Text.denotes_toString x).isBlank]
  exact Text.denotes_toString x

/-- The number that a value is fits, and the slot of the value holds it. -/
theorem fits_toInt? (hvalue : value.type = type) (hx : value.toInt? = some x) :
    Fits modulus x ∧ (value.toSlot.toNat : Int) = x % modulus := by
  cases htype with
  | i32 =>
    cases value with
    | i32 v =>
      cases hx
      have hslot := (eq_i32_iff.1 (congrArg Value.i32 (Int32.ofInt_toInt v).symm)).2
      exact ⟨⟨v.le_toInt, Int.lt_trans v.toInt_lt (by decide)⟩, hslot⟩
    | _ => cases hvalue
  | i64 =>
    cases value with
    | i64 v =>
      cases hx
      have hslot := (eq_i64_iff.1 (congrArg Value.i64 (Int64.ofInt_toInt v).symm)).2
      exact ⟨⟨v.le_toInt, Int.lt_trans v.toInt_lt (by decide)⟩, hslot⟩
    | _ => cases hvalue

end Reading

/-- Reading arguments of the integer types. If one or more decimal digits are left without the blanks at both ends,
after a sign or not, and denote a number that fits, the text is read as the value whose slot holds the number modulo
the number of values of the type. If not, it is refused, and the error shows what is left. So the decimal text of every
value is read as the value, and so is the unsigned number with the same bits. -/
theorem integers_read (htype : IntegerType type modulus) (text : String) :
    let core := Text.trim text.toList
    Text.Trimmed text.toList core ∧
    (∀ x, Text.Denotes core x → Fits modulus x →
      ∃ value, ofText? type text = .ok value ∧ value.type = type ∧ (value.toSlot.toNat : Int) = x % modulus) ∧
    ((¬∃ x, Text.Denotes core x ∧ Fits modulus x) → ofText? type text = .error (.invalidArgument (String.ofList core))) ∧
    (∀ (value : Value) (x : Int), value.type = type → value.toInt? = some x → ofText? type (toString x) = .ok value) ∧
    ∀ x : Int, -(modulus / 2 : Nat) ≤ x → x < 0 →
      ∃ value, ofText? type (toString x) = .ok value ∧ ofText? type (toString (x + modulus)) = .ok value := by
  intro core
  refine ⟨Text.trimmed_trim _, fun x hx hfits => ?_, fun hnone => ?_, fun value x hvalue hx => ?_, fun x hlow hneg => ?_⟩
  · obtain ⟨value, hvalue, hslot⟩ := exists_toSlot htype x
    exact ⟨value, ofText?_of_denotes htype hx hfits hvalue hslot, hvalue, hslot⟩
  · have hread : ofTrimmed? type core = none := by
      refine Option.eq_none_iff_forall_ne_some.2 fun value hsome => hnone ?_
      obtain ⟨x, hx, hfits, -⟩ := (ofTrimmed?_integer htype).1 hsome
      exact ⟨x, hx, hfits⟩
    unfold ofText?
    dsimp only
    rw [hread]
  · obtain ⟨hfits, hslot⟩ := fits_toInt? htype hvalue hx
    exact ofText?_toString_int htype hfits hvalue hslot
  · obtain ⟨value, hvalue, hslot⟩ := exists_toSlot htype x
    have hslot' : (value.toSlot.toNat : Int) = (x + modulus) % modulus := by rw [hslot, Int.add_emod_right]
    have hpos : 0 < modulus := by cases htype <;> decide
    exact ⟨value, ofText?_toString_int htype ⟨hlow, by omega⟩ hvalue hslot,
      ofText?_toString_int htype ⟨by omega, by omega⟩ hvalue hslot'⟩

/-- With a plus sign, zeros in front and blanks around it, the greatest unsigned number of 32 bits is read as -1, which
is the value of the text -1 too; the number after it is refused, and so is the number before the least signed one of 64
bits. -/
theorem integers_read_seams :
    (∃ value, ofText? .i32 "\u2003+0004294967295\n" = .ok value ∧ value.toSlot.toNat = 0xFFFFFFFF) ∧
      ofText? .i32 "-1" = .ok (.i32 (-1)) ∧
      ofText? .i32 " 4294967296" = .error (.invalidArgument "4294967296") ∧
      ofText? .i64 "-9223372036854775809 " = .error (.invalidArgument "-9223372036854775809") := by
  obtain ⟨-, haccepts, -, hback, -⟩ := integers_read .i32 "\u2003+0004294967295\n"
  obtain ⟨-, -, hrefuses, -, -⟩ := integers_read .i32 " 4294967296"
  obtain ⟨-, -, hrefuses', -, -⟩ := integers_read .i64 "-9223372036854775809 "
  have hread : Text.integer? (Text.trim "\u2003+0004294967295\n".toList) = some 4294967295 := by decide +kernel
  have hlarge : Text.integer? (Text.trim " 4294967296".toList) = some 4294967296 := by decide +kernel
  have hsmall : Text.integer? (Text.trim "-9223372036854775809 ".toList) = some (-9223372036854775809) := by
    decide +kernel
  have hminus : toString (-1 : Int) = "-1" := by decide +kernel
  have hone := hback (.i32 (-1)) (-1) rfl rfl
  rw [hminus] at hone
  refine ⟨?_, hone, ?_, ?_⟩
  · obtain ⟨value, hvalue, -, hslot⟩ := haccepts _ (Text.integer?_iff.1 hread) (by decide)
    exact ⟨value, hvalue, Int.ofNat.inj hslot⟩
  · have hcore : String.ofList (Text.trim " 4294967296".toList) = "4294967296" := by decide +kernel
    rw [hcore] at hrefuses
    refine hrefuses ?_
    rintro ⟨x, hx, hfits⟩
    cases hlarge.symm.trans (Text.integer?_iff.2 hx)
    exact absurd hfits (by decide)
  · have hcore : String.ofList (Text.trim "-9223372036854775809 ".toList) = "-9223372036854775809" := by
      decide +kernel
    rw [hcore] at hrefuses'
    refine hrefuses' ?_
    rintro ⟨x, hx, hfits⟩
    cases hsmall.symm.trans (Text.integer?_iff.2 hx)
    exact absurd hfits (by decide)

end Value

end WasmEngine
