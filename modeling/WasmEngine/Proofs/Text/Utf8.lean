import WasmEngine.Text.Utf8

/-!
# Decoding what was encoded

Decoding the bytes of a text gives the text, and no other bytes give one. The lead byte of a character has its top bits
and fixes the range of the next byte; the bytes after it add six bits each.
-/

namespace WasmEngine.Text.Utf8

variable {rest input : List UInt8}

/-! ## Lead bytes -/

section Lead

variable {byte : UInt8} {bits : Nat}

/-- Lead bytes by their ranges. -/
theorem lead?_eq (byte : UInt8) :
    lead? byte =
      if byte.toNat < 0x80 then some ⟨0, 0x80, 0xBF, byte.toNat⟩
      else if byte.toNat < 0xC2 then none
      else if byte.toNat < 0xE0 then some ⟨1, 0x80, 0xBF, byte.toNat - 0xC0⟩
      else if byte.toNat = 0xE0 then some ⟨2, 0xA0, 0xBF, 0⟩
      else if byte.toNat = 0xED then some ⟨2, 0x80, 0x9F, 0xD⟩
      else if byte.toNat < 0xF0 then some ⟨2, 0x80, 0xBF, byte.toNat - 0xE0⟩
      else if byte.toNat = 0xF0 then some ⟨3, 0x90, 0xBF, 0⟩
      else if byte.toNat < 0xF4 then some ⟨3, 0x80, 0xBF, byte.toNat - 0xF0⟩
      else if byte.toNat = 0xF4 then some ⟨3, 0x80, 0x8F, 4⟩
      else none := by
  simp only [lead?, UInt8.lt_iff_toNat_lt, ← UInt8.toNat_inj]
  rfl

theorem lead?_one (h : byte.toNat < 0x80) : lead? byte = some ⟨0, 0x80, 0xBF, byte.toNat⟩ := by
  rw [lead?_eq, if_pos h]

theorem lead?_two (h : byte.toNat = bits + 0xC0) (hlow : 2 ≤ bits) (hhigh : bits < 32) :
    lead? byte = some ⟨1, 0x80, 0xBF, bits⟩ := by
  rw [lead?_eq, h, if_neg (by omega), if_neg (by omega), if_pos (by omega), Nat.add_sub_cancel]

/-- The next byte makes up for a lead byte that has no bits, and keeps surrogates out. -/
theorem lead?_three (h : byte.toNat = bits + 0xE0) (hhigh : bits < 16) :
    lead? byte = some ⟨2, if bits = 0 then 0xA0 else 0x80, if bits = 0xD then 0x9F else 0xBF, bits⟩ := by
  rw [lead?_eq, h, if_neg (by omega), if_neg (by omega), if_neg (by omega)]
  by_cases hzero : bits = 0
  · subst hzero
    rfl
  by_cases hsurrogate : bits = 0xD
  · subst hsurrogate
    rfl
  rw [if_neg (by omega), if_neg (by omega), if_pos (by omega), if_neg hzero, if_neg hsurrogate, Nat.add_sub_cancel]

theorem lead?_four (h : byte.toNat = bits + 0xF0) (hhigh : bits ≤ 4) :
    lead? byte = some ⟨3, if bits = 0 then 0x90 else 0x80, if bits = 4 then 0x8F else 0xBF, bits⟩ := by
  rw [lead?_eq, h, if_neg (by omega), if_neg (by omega), if_neg (by omega), if_neg (by omega), if_neg (by omega),
    if_neg (by omega)]
  by_cases hzero : bits = 0
  · subst hzero
    rfl
  by_cases hlast : bits = 4
  · subst hlast
    rfl
  rw [if_neg (by omega), if_pos (by omega), if_neg hzero, if_neg hlast, Nat.add_sub_cancel]

end Lead

/-! ## Bytes that follow -/

/-- A byte within the range adds its six bits. -/
theorem following_ofNat {count seen bits value : Nat} {low high : UInt8} (hvalue : value < 0x40)
    (hlow : low.toNat ≤ value + 0x80) (hhigh : value + 0x80 ≤ high.toNat) :
    following (count + 1) low high seen bits (UInt8.ofNat (value + 0x80) :: rest) =
      following count 0x80 0xBF (seen + 1) (bits * 64 + value) rest := by
  have hbyte : (UInt8.ofNat (value + 0x80)).toNat = value + 0x80 := UInt8.toNat_ofNat_of_lt' (by simp [UInt8.size]; omega)
  have hrange : low ≤ UInt8.ofNat (value + 0x80) ∧ UInt8.ofNat (value + 0x80) ≤ high := by
    rw [UInt8.le_iff_toNat_le, UInt8.le_iff_toNat_le, hbyte]
    exact ⟨hlow, hhigh⟩
  rw [following, if_pos hrange, hbyte, Nat.add_sub_cancel]

/-! ## Characters -/

/-- Some bytes are a lead byte and those that it announces, which give the number of a character. -/
def Spells (bytes : List UInt8) (number : Nat) : Prop :=
  ∃ byte tail lead, bytes = byte :: tail ∧ lead? byte = some lead ∧
    ∀ rest, following lead.following lead.low lead.high 1 lead.bits (tail ++ rest) = .ok (number, rest)

section Spells

variable {v : Nat}

theorem toNat_ofNat (h : v < 0x100) : (UInt8.ofNat v).toNat = v :=
  UInt8.toNat_ofNat_of_lt' h

theorem spells_one (h : v < 0x80) : Spells [UInt8.ofNat v] v := by
  have hbyte : (UInt8.ofNat v).toNat = v := toNat_ofNat (by omega)
  refine ⟨_, _, _, rfl, lead?_one (by omega), fun rest => ?_⟩
  rw [hbyte]
  rfl

theorem spells_two (hlow : 0x80 ≤ v) (hhigh : v < 0x800) :
    Spells [UInt8.ofNat (v / 64 % 0x20 + 0xC0), UInt8.ofNat (v % 0x40 + 0x80)] v := by
  refine ⟨_, _, _, rfl, lead?_two (toNat_ofNat (by omega)) (by omega) (by omega), fun rest => ?_⟩
  rw [List.cons_append, following_ofNat (by omega) (by simp) (by simp; omega)]
  simp only [following]
  congr 2
  omega

theorem spells_three (hlow : 0x800 ≤ v) (hhigh : v < 0x10000) (hsurrogate : v < 0xD800 ∨ 0xDFFF < v) :
    Spells [UInt8.ofNat (v / 4096 % 0x10 + 0xE0), UInt8.ofNat (v / 64 % 0x40 + 0x80),
      UInt8.ofNat (v % 0x40 + 0x80)] v := by
  refine ⟨_, _, _, rfl, lead?_three (toNat_ofNat (by omega)) (by omega), fun rest => ?_⟩
  have hleast : (if v / 4096 % 0x10 = 0 then (0xA0 : UInt8) else 0x80).toNat ≤ v / 64 % 0x40 + 0x80 := by
    split
    · simp
      omega
    · simp
  have hgreatest : v / 64 % 0x40 + 0x80 ≤ (if v / 4096 % 0x10 = 0xD then (0x9F : UInt8) else 0xBF).toNat := by
    split
    · simp
      omega
    · simp
      omega
  rw [List.cons_append, following_ofNat (by omega) hleast hgreatest, List.cons_append,
    following_ofNat (by omega) (by simp) (by simp; omega)]
  simp only [following]
  congr 2
  omega

theorem spells_four (hlow : 0x10000 ≤ v) (hhigh : v < 0x110000) :
    Spells [UInt8.ofNat (v / 262144 % 8 + 0xF0), UInt8.ofNat (v / 4096 % 0x40 + 0x80),
      UInt8.ofNat (v / 64 % 0x40 + 0x80), UInt8.ofNat (v % 0x40 + 0x80)] v := by
  refine ⟨_, _, _, rfl, lead?_four (toNat_ofNat (by omega)) (by omega), fun rest => ?_⟩
  have hleast : (if v / 262144 % 8 = 0 then (0x90 : UInt8) else 0x80).toNat ≤ v / 4096 % 0x40 + 0x80 := by
    split
    · simp
      omega
    · simp
  have hgreatest : v / 4096 % 0x40 + 0x80 ≤ (if v / 262144 % 8 = 4 then (0x8F : UInt8) else 0xBF).toNat := by
    split
    · simp
      omega
    · simp
      omega
  rw [List.cons_append, following_ofNat (by omega) hleast hgreatest, List.cons_append,
    following_ofNat (by omega) (by simp) (by simp; omega), List.cons_append,
    following_ofNat (by omega) (by simp) (by simp; omega)]
  simp only [following]
  congr 2
  omega

end Spells

theorem spells_encodeChar (c : Char) : Spells (String.utf8EncodeChar c) c.toNat := by
  have hvalid : c.toNat < 0xD800 ∨ 0xDFFF < c.toNat ∧ c.toNat < 0x110000 := c.valid
  have hvalue : c.val.toNat = c.toNat := rfl
  unfold String.utf8EncodeChar
  rw [hvalue]
  generalize c.toNat = v at hvalid
  dsimp only
  split
  · exact spells_one (by omega)
  split
  · exact spells_two (by omega) (by omega)
  split
  · exact spells_three (by omega) (by omega) (by omega)
  · exact spells_four (by omega) (by omega)

/-! ## Texts -/

theorem length_encode (text : String) : (encode text).length = text.utf8ByteSize := by
  rw [String.utf8ByteSize, ← String.utf8Encode_toList, List.utf8Encode, List.size_toByteArray, encode]

theorem length_le_length_flatMap (chars : List Char) : chars.length ≤ (chars.flatMap String.utf8EncodeChar).length := by
  induction chars with
  | nil => exact Nat.le_refl 0
  | cons c chars ih =>
    have hpos := c.utf8Size_pos
    rw [List.flatMap_cons, List.length_append, String.length_utf8EncodeChar, List.length_cons]
    omega

theorem decodeAt_encodeChar (c : Char) (rest : List UInt8) {chars : List Char}
    (h : ∀ offset, decodeAt offset rest = .ok chars) (offset : Nat) :
    decodeAt offset (String.utf8EncodeChar c ++ rest) = .ok (c :: chars) := by
  obtain ⟨byte, tail, lead, hbytes, hlead, hfollowing⟩ := spells_encodeChar c
  rw [hbytes, List.cons_append, decodeAt, hlead]
  dsimp only
  split
  · rename_i heq
    rw [hfollowing] at heq
    cases heq
  · rename_i heq
    rw [hfollowing] at heq
    cases heq
    rw [h, Char.ofNat_toNat]

/-- Decoding the bytes of a text gives the text. -/
theorem decode_encode (text : String) : decode (encode text) = .ok text := by
  have hchars (chars : List Char) (offset : Nat) :
      decodeAt offset (chars.flatMap String.utf8EncodeChar) = .ok chars := by
    induction chars generalizing offset with
    | nil => rw [List.flatMap_nil, decodeAt]
    | cons c chars ih => rw [List.flatMap_cons, decodeAt_encodeChar c _ ih]
  rw [decode, encode, hchars]
  simp

/-! ## Nothing else is decoded -/

/-- What a lead byte may be, by the number of bytes that follow. -/
theorem lead?_cases {byte : UInt8} {lead : Lead} (h : lead? byte = some lead) :
    byte.toNat < 0x80 ∧ lead = ⟨0, 0x80, 0xBF, byte.toNat⟩ ∨
    (∃ bits, byte.toNat = bits + 0xC0 ∧ 2 ≤ bits ∧ bits < 32 ∧ lead = ⟨1, 0x80, 0xBF, bits⟩) ∨
    (∃ bits, byte.toNat = bits + 0xE0 ∧ bits < 16 ∧
      lead = ⟨2, if bits = 0 then 0xA0 else 0x80, if bits = 0xD then 0x9F else 0xBF, bits⟩) ∨
    ∃ bits, byte.toNat = bits + 0xF0 ∧ bits ≤ 4 ∧
      lead = ⟨3, if bits = 0 then 0x90 else 0x80, if bits = 4 then 0x8F else 0xBF, bits⟩ := by
  by_cases hone : byte.toNat < 0x80
  · rw [lead?_one hone] at h
    exact .inl ⟨hone, (Option.some.inj h).symm⟩
  by_cases hlow : byte.toNat < 0xC2
  · rw [lead?_eq, if_neg hone, if_pos hlow] at h
    cases h
  by_cases hhigh : 0xF4 < byte.toNat
  · rw [lead?_eq, if_neg hone, if_neg hlow, if_neg (by omega), if_neg (by omega), if_neg (by omega), if_neg (by omega),
      if_neg (by omega), if_neg (by omega), if_neg (by omega)] at h
    cases h
  by_cases htwo : byte.toNat < 0xE0
  · have hbits : byte.toNat = (byte.toNat - 0xC0) + 0xC0 := by omega
    rw [lead?_two hbits (by omega) (by omega)] at h
    exact .inr (.inl ⟨_, hbits, by omega, by omega, (Option.some.inj h).symm⟩)
  by_cases hthree : byte.toNat < 0xF0
  · have hbits : byte.toNat = (byte.toNat - 0xE0) + 0xE0 := by omega
    rw [lead?_three hbits (by omega)] at h
    exact .inr (.inr (.inl ⟨_, hbits, by omega, (Option.some.inj h).symm⟩))
  · have hbits : byte.toNat = (byte.toNat - 0xF0) + 0xF0 := by omega
    rw [lead?_four hbits (by omega)] at h
    exact .inr (.inr (.inr ⟨_, hbits, by omega, (Option.some.inj h).symm⟩))

/-- A byte that follows adds six bits. -/
theorem exists_of_following {count seen bits number : Nat} {low high : UInt8}
    (h : following (count + 1) low high seen bits input = .ok (number, rest)) :
    ∃ byte tail, input = byte :: tail ∧ low.toNat ≤ byte.toNat ∧ byte.toNat ≤ high.toNat ∧
      following count 0x80 0xBF (seen + 1) (bits * 64 + (byte.toNat - 0x80)) tail = .ok (number, rest) := by
  cases input with
  | nil => cases h
  | cons byte tail =>
    rw [following] at h
    split at h
    · rename_i hrange
      exact ⟨byte, tail, rfl, hrange.1, hrange.2, h⟩
    · cases h

/-- The bytes of a character by its number. -/
theorem utf8EncodeChar_ofNat {v : Nat} (h : v.isValidChar) :
    String.utf8EncodeChar (Char.ofNat v) =
      if v ≤ 0x7F then [UInt8.ofNat v]
      else if v ≤ 0x7FF then [UInt8.ofNat (v / 64 % 0x20 + 0xC0), UInt8.ofNat (v % 0x40 + 0x80)]
      else if v ≤ 0xFFFF then
        [UInt8.ofNat (v / 4096 % 0x10 + 0xE0), UInt8.ofNat (v / 64 % 0x40 + 0x80), UInt8.ofNat (v % 0x40 + 0x80)]
      else
        [UInt8.ofNat (v / 262144 % 8 + 0xF0), UInt8.ofNat (v / 4096 % 0x40 + 0x80), UInt8.ofNat (v / 64 % 0x40 + 0x80),
          UInt8.ofNat (v % 0x40 + 0x80)] := by
  have hvalue : (Char.ofNat v).val.toNat = v := by
    rw [Char.ofNat, dif_pos h]
    rfl
  unfold String.utf8EncodeChar
  rw [hvalue]

theorem eq_ofNat {byte : UInt8} {v : Nat} (h : byte.toNat = v) : byte = UInt8.ofNat v := by
  rw [← h, UInt8.ofNat_toNat]

theorem eq_of_following_zero {low high : UInt8} {seen bits number : Nat}
    (h : following 0 low high seen bits input = .ok (number, rest)) : number = bits ∧ rest = input := by
  cases h
  exact ⟨rfl, rfl⟩

/-- A lead byte and what follows it are the bytes of the character that they spell. -/
theorem cons_eq_utf8EncodeChar {byte : UInt8} {lead : Lead} {number : Nat} {tail : List UInt8}
    (hlead : lead? byte = some lead)
    (h : following lead.following lead.low lead.high 1 lead.bits tail = .ok (number, rest)) :
    byte :: tail = String.utf8EncodeChar (Char.ofNat number) ++ rest := by
  obtain ⟨hbyte, rfl⟩ | ⟨bits, hbyte, hlow, hhigh, rfl⟩ | ⟨bits, hbyte, hhigh, rfl⟩ | ⟨bits, hbyte, hhigh, rfl⟩ :=
    lead?_cases hlead
  · obtain ⟨hnumber, rfl⟩ := eq_of_following_zero h
    dsimp only at hnumber
    rw [utf8EncodeChar_ofNat (.inl (by omega)), if_pos (by omega), eq_ofNat hnumber.symm]
    rfl
  · obtain ⟨second, tail, rfl, hsecond, hsecond', h⟩ := exists_of_following h
    obtain ⟨hnumber, rfl⟩ := eq_of_following_zero h
    simp only [UInt8.reduceToNat] at hsecond hsecond' hnumber
    have hfirst : byte = UInt8.ofNat (number / 64 % 0x20 + 0xC0) := eq_ofNat (by omega)
    have hlast : second = UInt8.ofNat (number % 0x40 + 0x80) := eq_ofNat (by omega)
    rw [utf8EncodeChar_ofNat (.inl (by omega)), if_neg (by omega), if_pos (by omega), hfirst, hlast]
    rfl
  · obtain ⟨second, tail, rfl, hsecond, hsecond', h⟩ := exists_of_following h
    obtain ⟨third, tail, rfl, hthird, hthird', h⟩ := exists_of_following h
    obtain ⟨hnumber, rfl⟩ := eq_of_following_zero h
    dsimp only at hsecond hsecond' hnumber
    have hleast : 0x80 ≤ second.toNat ∧ (bits = 0 → 0xA0 ≤ second.toNat) := by
      split at hsecond <;> simp only [UInt8.reduceToNat] at hsecond <;> omega
    have hgreatest : second.toNat ≤ 0xBF ∧ (bits = 0xD → second.toNat ≤ 0x9F) := by
      split at hsecond' <;> simp only [UInt8.reduceToNat] at hsecond' <;> omega
    simp only [UInt8.reduceToNat] at hthird hthird' hnumber
    have hvalid : number.isValidChar := by
      unfold Nat.isValidChar
      omega
    have hfirst : byte = UInt8.ofNat (number / 4096 % 0x10 + 0xE0) := eq_ofNat (by omega)
    have hsecond : second = UInt8.ofNat (number / 64 % 0x40 + 0x80) := eq_ofNat (by omega)
    have hlast : third = UInt8.ofNat (number % 0x40 + 0x80) := eq_ofNat (by omega)
    rw [utf8EncodeChar_ofNat hvalid, if_neg (by omega), if_neg (by omega), if_pos (by omega), hfirst, hsecond, hlast]
    rfl
  · obtain ⟨second, tail, rfl, hsecond, hsecond', h⟩ := exists_of_following h
    obtain ⟨third, tail, rfl, hthird, hthird', h⟩ := exists_of_following h
    obtain ⟨fourth, tail, rfl, hfourth, hfourth', h⟩ := exists_of_following h
    obtain ⟨hnumber, rfl⟩ := eq_of_following_zero h
    dsimp only at hsecond hsecond' hnumber
    have hleast : 0x80 ≤ second.toNat ∧ (bits = 0 → 0x90 ≤ second.toNat) := by
      split at hsecond <;> simp only [UInt8.reduceToNat] at hsecond <;> omega
    have hgreatest : second.toNat ≤ 0xBF ∧ (bits = 4 → second.toNat ≤ 0x8F) := by
      split at hsecond' <;> simp only [UInt8.reduceToNat] at hsecond' <;> omega
    simp only [UInt8.reduceToNat] at hthird hthird' hfourth hfourth' hnumber
    have hvalid : number.isValidChar := by
      unfold Nat.isValidChar
      omega
    have hfirst : byte = UInt8.ofNat (number / 262144 % 8 + 0xF0) := eq_ofNat (by omega)
    have hsecond : second = UInt8.ofNat (number / 4096 % 0x40 + 0x80) := eq_ofNat (by omega)
    have hthird : third = UInt8.ofNat (number / 64 % 0x40 + 0x80) := eq_ofNat (by omega)
    have hlast : fourth = UInt8.ofNat (number % 0x40 + 0x80) := eq_ofNat (by omega)
    rw [utf8EncodeChar_ofNat hvalid, if_neg (by omega), if_neg (by omega), if_neg (by omega), hfirst, hsecond, hthird,
      hlast]
    rfl

theorem flatMap_of_decodeAt {offset : Nat} {chars : List Char}
    (h : decodeAt offset input = .ok chars) : chars.flatMap String.utf8EncodeChar = input := by
  fun_induction decodeAt offset input generalizing chars with
  | case1 =>
    cases h
    rfl
  | case2 => cases h
  | case3 => cases h
  | case4 => cases h
  | case5 offset byte tail lead hlead bits rest hfollowing _ chars hrest ih =>
    cases h
    rw [List.flatMap_cons, ih hrest, cons_eq_utf8EncodeChar hlead hfollowing]

/-- Bytes that decode are those of the text. -/
theorem encode_of_decode {bytes : List UInt8} {text : String} (h : decode bytes = .ok text) : encode text = bytes := by
  unfold decode at h
  split at h
  · rename_i hchars
    cases h
    rw [encode, String.toList_ofList, flatMap_of_decodeAt hchars]
  · cases h

theorem isValidUTF8_encode (text : String) : (encode text).toByteArray.IsValidUTF8 :=
  ⟨text.toList, rfl⟩

/-- Well-formed bytes decode. -/
theorem exists_decode_of_isValidUTF8 {bytes : List UInt8} (h : bytes.toByteArray.IsValidUTF8) :
    ∃ text, decode bytes = .ok text := by
  obtain ⟨chars, hchars⟩ := h
  have hbytes : encode (String.ofList chars) = bytes := by
    rw [encode, String.toList_ofList, List.toByteArray_inj.1 hchars]
  exact ⟨_, hbytes ▸ decode_encode _⟩

end WasmEngine.Text.Utf8
