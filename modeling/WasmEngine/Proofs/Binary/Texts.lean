import WasmEngine.Proofs.Binary.Locality

/-!
# Texts with their length in front

A text is read exactly when what is left to read starts with a number of 32 bits, within the limit, and as many bytes
that are well formed. Otherwise the read fails for the first reason that applies.
-/

namespace WasmEngine.Reader

variable {α : Type}

/-! ## Steps -/

section Steps

variable {read : Read α} {reader : Reader} {count : Nat}

/-- What a read takes stands at the front of a cursor. -/
theorem run_of_reads {form : Language UInt8} {value : α} (h : Reads read form value) {word rest : List UInt8}
    (hword : word ∈ form) (hrest : reader.rest = word ++ rest) :
    read reader = .ok value ⟨reader.position + word.length, rest⟩ := by
  obtain ⟨position, _⟩ := reader
  cases hrest
  exact h word hword rest trivial position

theorem atomically_of_error {error : Error} (stopped : Reader) (h : read reader = .error error stopped) :
    atomically read reader = .error error reader := by
  simp [atomically, h]

theorem bytes_of_le (h : count ≤ reader.rest.length) :
    bytes count reader = .ok (reader.rest.take count) ⟨reader.position + count, reader.rest.drop count⟩ := by
  have hlength : (reader.rest.take count).length = count := List.length_take_of_le h
  have hread := run_of_reads (reads_bytes _ hlength) rfl (List.take_append_drop count reader.rest).symm
  rwa [hlength] at hread

theorem bytes_of_lt (h : reader.rest.length < count) : bytes count reader = .error .underrun reader := by
  simp only [bytes, splitExact_eq_none h]

end Steps

/-! ## Why a text is refused -/

/-- Why what follows the size of a text is not read as one, in the order in which it is checked. -/
inductive Refuses (limit size : Nat) (rest : List UInt8) : Error → Prop where
  | oversized (h : limit < size) : Refuses limit size rest .oversizedText
  | underrun (hlimit : size ≤ limit) (h : rest.length < size) : Refuses limit size rest .underrun
  | invalid (hlimit : size ≤ limit) (hsize : size ≤ rest.length) {fault : Text.Utf8.Fault}
      (h : ¬(rest.take size).toByteArray.IsValidUTF8) (hfault : Text.Utf8.decode (rest.take size) = .error fault) :
      Refuses limit size rest (.invalidUtf8 fault)

section Texts

variable {limit size : Nat} {reader : Reader} {word rest : List UInt8} {error : Error}

theorem text_of_varU32_error {stopped : Reader} (h : varU32 reader = .error error stopped) :
    text limit reader = .error error reader :=
  atomically_of_error stopped (run_bind_of_error h)

theorem text_of_refuses (hword : word ∈ Form.u32 size) (hrest : reader.rest = word ++ rest)
    (h : Refuses limit size rest error) : text limit reader = .error error reader := by
  have hread : varU32 reader = .ok (UInt32.ofNat size) ⟨reader.position + word.length, rest⟩ :=
    run_of_reads (reads_varU32 size) hword hrest
  have hsize : (UInt32.ofNat size).toNat = size := UInt32.toNat_ofNat_of_lt' hword.2.2
  cases h with
  | oversized hlong =>
    refine atomically_of_error ⟨reader.position + word.length, rest⟩ ((run_bind_of_ok hread).trans ?_)
    rw [hsize, if_pos hlong]
    rfl
  | underrun hlimit hshort =>
    refine atomically_of_error ⟨reader.position + word.length, rest⟩ ((run_bind_of_ok hread).trans ?_)
    rw [hsize, if_neg (Nat.not_lt.2 hlimit)]
    exact run_bind_of_error (bytes_of_lt hshort)
  | invalid hlimit hlength _ hfault =>
    refine atomically_of_error ⟨reader.position + word.length + size, rest.drop size⟩
      ((run_bind_of_ok hread).trans ?_)
    rw [hsize, if_neg (Nat.not_lt.2 hlimit)]
    refine (run_bind_of_ok (bytes_of_le hlength)).trans ?_
    rw [hfault]
    rfl

/-- The bytes of a text behind their number. -/
theorem text_of_encode {content : String} (hword : word ∈ Form.u32 (Text.Utf8.encode content).length)
    (hlimit : (Text.Utf8.encode content).length ≤ limit)
    (hrest : reader.rest = word ++ Text.Utf8.encode content ++ rest) :
    text limit reader = .ok content ⟨reader.position + (word ++ Text.Utf8.encode content).length, rest⟩ :=
  run_of_reads (reads_text hlimit) (Language.append_mem_mul hword rfl) hrest

/-- Bytes behind a number are refused, or they start with those of a text. -/
theorem refuses_or_decodes (limit size : Nat) (rest : List UInt8) :
    (∃ error, Refuses limit size rest error) ∨
      size ≤ limit ∧ ∃ content tail, rest = Text.Utf8.encode content ++ tail ∧
        (Text.Utf8.encode content).length = size := by
  by_cases hlimit : size ≤ limit
  · by_cases hlength : size ≤ rest.length
    · cases hdecode : Text.Utf8.decode (rest.take size) with
      | error fault =>
        refine .inl ⟨_, .invalid hlimit hlength (fun hvalid => ?_) hdecode⟩
        obtain ⟨content, hcontent⟩ := Text.Utf8.exists_decode_of_isValidUTF8 hvalid
        cases hdecode.symm.trans hcontent
      | ok content =>
        refine .inr ⟨hlimit, content, rest.drop size, ?_, ?_⟩
        · rw [Text.Utf8.encode_of_decode hdecode, List.take_append_drop]
        · rw [Text.Utf8.encode_of_decode hdecode, List.length_take_of_le hlength]
    · exact .inl ⟨_, .underrun hlimit (Nat.lt_of_not_le hlength)⟩
  · exact .inl ⟨_, .oversized (Nat.lt_of_not_le hlimit)⟩

/-- All that can happen: there is no number, what follows it is refused, or it is a text. -/
theorem text_cases (limit : Nat) (reader : Reader) :
    (∃ error stopped, varU32 reader = .error error stopped) ∨
    (∃ word size rest error, reader.rest = word ++ rest ∧ word ∈ Form.u32 size ∧ Refuses limit size rest error) ∨
    ∃ word content rest, reader.rest = word ++ Text.Utf8.encode content ++ rest ∧
      word ∈ Form.u32 (Text.Utf8.encode content).length ∧ (Text.Utf8.encode content).length ≤ limit := by
  cases hread : varU32 reader with
  | error error stopped => exact .inl ⟨error, stopped, rfl⟩
  | ok size between =>
    obtain ⟨word, hword, hrest⟩ := eq_append_of_varU32 hread
    obtain ⟨error, hrefuses⟩ | ⟨hlimit, content, tail, htail, hlength⟩ :=
      refuses_or_decodes limit size.toNat between.rest
    · exact .inr (.inl ⟨word, _, between.rest, error, hrest, hword, hrefuses⟩)
    · refine .inr (.inr ⟨word, content, tail, ?_, hlength.symm ▸ hword, hlength.symm ▸ hlimit⟩)
      rw [hrest, htail, List.append_assoc]

end Texts

/-- A text is read exactly when a number of 32 bits within the limit stands at the front and is followed by as many
well formed bytes, those of the text. Otherwise the read fails as reading the number does, or for the first reason that
applies, and the cursor stays where it was. A text within the limit is read back from its bytes behind their number. -/
theorem texts_read (limit : UInt32) (reader : Reader) :
    (∀ content next, text limit.toNat reader = .ok content next ↔
      ∃ word payload, reader.rest = word ++ payload ++ next.rest ∧
        next.position = reader.position + (word ++ payload).length ∧ word ∈ Form.u32 payload.length ∧
        payload.length ≤ limit.toNat ∧ payload.toByteArray.IsValidUTF8 ∧ Text.Utf8.encode content = payload) ∧
    (∀ error stopped, text limit.toNat reader = .error error stopped ↔
      stopped = reader ∧ (varU32 reader = .error error reader ∨
        ∃ word size rest, reader.rest = word ++ rest ∧ word ∈ Form.u32 size ∧
          Refuses limit.toNat size rest error)) ∧
    ∀ content : String, content.utf8ByteSize ≤ limit.toNat →
      ∃ word, Leb128.putUnsigned content.utf8ByteSize {} = .ok word.length { written := word } ∧
        ∀ position suffix, text limit.toNat ⟨position, word ++ Text.Utf8.encode content ++ suffix⟩ =
          .ok content ⟨position + (word ++ Text.Utf8.encode content).length, suffix⟩ := by
  refine ⟨fun content next => ⟨fun hread => ?_, ?_⟩, fun error stopped => ⟨fun hread => ?_, ?_⟩, fun content hsize => ?_⟩
  · obtain ⟨error, stopped, hfails⟩ | ⟨word, size, rest, error, hrest, hword, hrefuses⟩ |
      ⟨word, content', rest, hrest, hword, hlimit⟩ := text_cases limit.toNat reader
    · cases hread.symm.trans (text_of_varU32_error hfails)
    · cases hread.symm.trans (text_of_refuses hword hrest hrefuses)
    · cases hread.symm.trans (text_of_encode hword hlimit hrest)
      exact ⟨word, _, hrest, rfl, hword, hlimit, Text.Utf8.isValidUTF8_encode _, rfl⟩
  · rintro ⟨word, _, hrest, hposition, hword, hlimit, -, rfl⟩
    rw [text_of_encode hword hlimit hrest, ← hposition]
  · obtain rfl := atomic_atomically _ reader error stopped hread
    refine ⟨rfl, ?_⟩
    obtain ⟨error', stopped', hfails⟩ | ⟨word, size, rest, error', hrest, hword, hrefuses⟩ |
      ⟨word, content, rest, hrest, hword, hlimit⟩ := text_cases limit.toNat stopped
    · cases hread.symm.trans (text_of_varU32_error hfails)
      obtain rfl := atomic_varU32 stopped error stopped' hfails
      exact .inl hfails
    · cases hread.symm.trans (text_of_refuses hword hrest hrefuses)
      exact .inr ⟨word, size, rest, hrest, hword, hrefuses⟩
    · cases hread.symm.trans (text_of_encode hword hlimit hrest)
  · rintro ⟨rfl, hfails | ⟨word, size, rest, hrest, hword, hrefuses⟩⟩
    · exact text_of_varU32_error hfails
    · exact text_of_refuses hword hrest hrefuses
  · rw [← Text.Utf8.length_encode] at hsize ⊢
    have hword := Leb128.encodeUnsigned_mem_u32 (Nat.lt_of_le_of_lt hsize limit.toNat_lt)
    exact ⟨_, Leb128.putUnsigned_eq _ [], fun position suffix => text_of_encode hword hsize rfl⟩

/-- A text of three bytes fits a limit of three. A size above the limit is refused as such, although its bytes are too few
and ill formed. -/
theorem texts_read_precedence :
    (∃ word, Leb128.putUnsigned "hé".utf8ByteSize {} = .ok word.length { written := word } ∧
      ∀ position suffix, text (3 : UInt32).toNat ⟨position, word ++ Text.Utf8.encode "hé" ++ suffix⟩ =
        .ok "hé" ⟨position + (word ++ Text.Utf8.encode "hé").length, suffix⟩) ∧
    text (3 : UInt32).toNat ⟨7, [0x04, 0xFF]⟩ = .error .oversizedText ⟨7, [0x04, 0xFF]⟩ := by
  refine ⟨(texts_read 3 (ofBytes [])).2.2 "hé" (by decide), ?_⟩
  have hsize : [0x04] ∈ Form.u32 4 := ⟨⟨by decide, by decide⟩, by decide, by decide⟩
  exact ((texts_read 3 ⟨7, [0x04, 0xFF]⟩).2.1 _ _).2
    ⟨rfl, .inr ⟨[0x04], 4, [0xFF], rfl, hsize, .oversized (by decide)⟩⟩

end WasmEngine.Reader
