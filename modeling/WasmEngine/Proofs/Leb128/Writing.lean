import WasmEngine.Leb128.Encode
import WasmEngine.Proofs.Programs

/-!
# Writing into buffers

Whatever the buffer, writing a number puts the bytes of its shortest encoding one after the other. A buffer that grows
takes the whole word, and one over cells takes the front of the word that fits.
-/

namespace WasmEngine.Leb128

namespace Buffer

/-- Puts bytes one after the other. -/
def putAll : List UInt8 → EStateM Fault Buffer Unit
  | [] => pure ()
  | byte :: word => do
    put byte
    putAll word

/-- A buffer that grows takes the whole word. -/
theorem putAll_growing (word before : List UInt8) :
    putAll word { written := before } = .ok () { written := before ++ word } := by
  induction word generalizing before with
  | nil => rw [List.append_nil]; rfl
  | cons byte word ih =>
    have hput : put byte { written := before } = .ok () { written := before ++ [byte] } := rfl
    rw [putAll, run_bind_of_ok hput, ih, List.append_assoc, List.singleton_append]

/-- A word that fits goes into the first cells. -/
theorem putAll_of_le {word cells : List UInt8} (hfits : word.length ≤ cells.length) (before : List UInt8) :
    putAll word { written := before, room := some cells } =
      .ok () { written := before ++ word, room := some (cells.drop word.length) } := by
  induction word generalizing before cells with
  | nil => rw [List.append_nil]; rfl
  | cons byte word ih =>
    cases cells with
    | nil => cases hfits
    | cons cell cells =>
      have hput : put byte { written := before, room := some (cell :: cells) } =
          .ok () { written := before ++ [byte], room := some cells } := rfl
      rw [putAll, run_bind_of_ok hput, ih (Nat.le_of_succ_le_succ hfits), List.append_assoc, List.singleton_append]
      rfl

/-- Of a word that does not fit, every cell gets its byte before the space runs out. -/
theorem putAll_of_lt {word cells : List UInt8} (hshort : cells.length < word.length) (before : List UInt8) :
    putAll word { written := before, room := some cells } =
      .error .noSpace { written := before ++ word.take cells.length, room := some [] } := by
  induction word generalizing before cells with
  | nil => cases hshort
  | cons byte word ih =>
    cases cells with
    | nil =>
      have hput : put byte { written := before, room := some [] } =
          .error .noSpace { written := before, room := some [] } := rfl
      rw [putAll, run_bind_of_error hput, List.length_nil, List.take_zero, List.append_nil]
    | cons cell cells =>
      have hput : put byte { written := before, room := some (cell :: cells) } =
          .ok () { written := before ++ [byte], room := some cells } := rfl
      rw [putAll, run_bind_of_ok hput, ih (Nat.lt_of_succ_lt_succ hshort), List.append_assoc, List.singleton_append]
      rfl

end Buffer

/-- Puts a word and gives the number of its bytes. -/
def putWord (word : List UInt8) : EStateM Fault Buffer Nat := do
  Buffer.putAll word
  return word.length

theorem putWord_singleton (byte : UInt8) :
    putWord [byte] = (do Buffer.put byte; return 1) := by
  simp only [putWord, Buffer.putAll, bind_assoc, pure_bind, List.length_singleton]

theorem putWord_cons (byte : UInt8) (word : List UInt8) :
    putWord (byte :: word) = (do Buffer.put byte; let count ← putWord word; return count + 1) := by
  simp only [putWord, Buffer.putAll, bind_assoc, pure_bind, List.length_cons]

/-- Writing an unsigned number is putting its encoding. -/
theorem putUnsigned_eq_putWord (value : Nat) : putUnsigned value = putWord (encodeUnsigned value) := by
  fun_induction putUnsigned value with
  | case1 value hsmall => rw [encodeUnsigned, if_pos hsmall, putWord_singleton]
  | case2 value hlarge ih => rw [encodeUnsigned, if_neg hlarge, putWord_cons, ih]

/-- Writing a signed number is putting its encoding. -/
theorem putSigned_eq_putWord (value : Int) : putSigned value = putWord (encodeSigned value) := by
  fun_induction putSigned value with
  | case1 value hsmall => rw [encodeSigned, dif_pos hsmall, putWord_singleton]
  | case2 value hlarge ih => rw [encodeSigned, dif_neg hlarge, putWord_cons, ih]

/-- A word is written over cells as far as it fits; the cells behind it stay as they are. -/
structure Overwrites (word cells : List UInt8) (result : EStateM.Result Fault Buffer Nat) : Prop where
  outcome : resultOf result = if word.length ≤ cells.length then .ok word.length else .error .noSpace
  contents : (stateAfter result).contents =
    word.take (min cells.length word.length) ++ cells.drop (min cells.length word.length)

theorem putWord_growing (word before : List UInt8) :
    putWord word { written := before } = .ok word.length { written := before ++ word } :=
  run_bind_of_ok (Buffer.putAll_growing word before)

theorem overwrites_putWord (word cells : List UInt8) : Overwrites word cells (putWord word (.ofCells cells)) := by
  rcases Nat.lt_or_ge cells.length word.length with hshort | hfits
  · have hput : putWord word (.ofCells cells) =
        .error .noSpace { written := word.take cells.length, room := some [] } :=
      run_bind_of_error (Buffer.putAll_of_lt hshort [])
    rw [hput]
    refine ⟨by rw [if_neg (Nat.not_le.2 hshort)]; rfl, ?_⟩
    rw [Nat.min_eq_left (Nat.le_of_lt hshort), List.drop_length]
    rfl
  · have hput : putWord word (.ofCells cells) =
        .ok word.length { written := word, room := some (cells.drop word.length) } :=
      run_bind_of_ok (Buffer.putAll_of_le hfits [])
    rw [hput]
    refine ⟨by rw [if_pos hfits]; rfl, ?_⟩
    rw [Nat.min_eq_right hfits, List.take_length]
    rfl

/-- Every number is written over cells as it is written into a buffer that grows, as far as there are cells. -/
theorem slices_written :
    (∀ value : UInt64, ∃ word, putUnsigned value.toNat {} = .ok word.length { written := word } ∧
      ∀ cells, Overwrites word cells (putUnsigned value.toNat (.ofCells cells))) ∧
    ∀ value : Int64, ∃ word, putSigned value.toInt {} = .ok word.length { written := word } ∧
      ∀ cells, Overwrites word cells (putSigned value.toInt (.ofCells cells)) := by
  refine ⟨fun value => ⟨encodeUnsigned value.toNat, ?_⟩, fun value => ⟨encodeSigned value.toInt, ?_⟩⟩
  · rw [putUnsigned_eq_putWord]
    exact ⟨putWord_growing _ [], overwrites_putWord _⟩
  · rw [putSigned_eq_putWord]
    exact ⟨putWord_growing _ [], overwrites_putWord _⟩

end WasmEngine.Leb128
