import WasmEngine.Proofs.Memory.Growth

/-!
# What writing leaves in linear memory

Place by place, a write puts its data over what was there, and of several writes the last one that covers a place
counts. Piece by piece, a write replaces a part of the bytes by its data.
-/

namespace WasmEngine.LinearMemory

variable {memory : LinearMemory}

/-! ## Place by place -/

/-- The byte that data at an offset has for a place. -/
def byteAt? (offset : Nat) (data : List UInt8) (place : Nat) : Option UInt8 :=
  if offset ≤ place then data[place - offset]? else none

theorem byteAt?_of_lt {offset place : Nat} (h : place < offset) (data : List UInt8) :
    byteAt? offset data place = none :=
  if_neg (Nat.not_le.2 h)

theorem byteAt?_self (offset : Nat) (byte : UInt8) (data : List UInt8) :
    byteAt? offset (byte :: data) offset = some byte := by
  simp [byteAt?]

theorem byteAt?_cons {offset place : Nat} (h : offset < place) (byte : UInt8) (data : List UInt8) :
    byteAt? offset (byte :: data) place = byteAt? (offset + 1) data place := by
  unfold byteAt?
  rw [if_pos (Nat.le_of_lt h), if_pos (Nat.succ_le_of_lt h), ← Nat.sub_one_add_one (Nat.sub_ne_zero_of_lt h),
    List.getElem?_cons_succ, Nat.sub_sub]

theorem getElem?_overwrite (bytes : Array UInt8) (offset : Nat) (data : List UInt8) (place : Nat) :
    (overwrite bytes offset data)[place]? = bytes[place]?.map fun old => (byteAt? offset data place).getD old := by
  induction data generalizing bytes offset with
  | nil => simp [overwrite, byteAt?]
  | cons byte data ih =>
    rw [overwrite, ih, Array.getElem?_setIfInBounds]
    rcases Nat.lt_trichotomy offset place with hlt | rfl | hgt
    · rw [if_neg (Nat.ne_of_lt hlt), byteAt?_cons hlt]
    · rw [if_pos rfl, byteAt?_of_lt (Nat.lt_succ_self offset), byteAt?_self]
      split
      · rename_i hlt
        rw [Array.getElem?_eq_getElem hlt]
        rfl
      · rename_i hle
        rw [Array.getElem?_eq_none (Nat.le_of_not_lt hle)]
        rfl
    · rw [if_neg (Nat.ne_of_gt hgt), byteAt?_of_lt (Nat.lt_succ_of_lt hgt), byteAt?_of_lt hgt]

/-- Bytes before an offset are not overwritten. -/
theorem getElem?_overwrite_of_lt {offset place : Nat} (h : place < offset) (bytes : Array UInt8) (data : List UInt8) :
    (overwrite bytes offset data)[place]? = bytes[place]? := by
  simp [getElem?_overwrite, byteAt?_of_lt h]

/-- The byte that the last of some pieces of data has for a place. -/
def lastByte? : (pieces : List (Nat × List UInt8)) → (place : Nat) → Option UInt8
  | [], _ => none
  | (offset, data) :: pieces, place => (lastByte? pieces place).or (byteAt? offset data place)

theorem lastByte?_append (first second : List (Nat × List UInt8)) (place : Nat) :
    lastByte? (first ++ second) place = (lastByte? second place).or (lastByte? first place) := by
  induction first with
  | nil => exact Option.or_none.symm
  | cons piece first ih => rw [List.cons_append, lastByte?, ih, Option.or_assoc, lastByte?]

/-- A memory with pieces of data laid over its bytes. Where pieces overlap, the last one counts. -/
def overlay (memory : LinearMemory) (pieces : List (Nat × List UInt8)) : LinearMemory :=
  { memory with bytes := memory.bytes.mapIdx fun place old => (lastByte? pieces place).getD old }

theorem getElem?_overlay (memory : LinearMemory) (pieces : List (Nat × List UInt8)) (place : Nat) :
    (memory.overlay pieces).bytes[place]? = memory.bytes[place]?.map fun old => (lastByte? pieces place).getD old :=
  Array.getElem?_mapIdx ..

@[simp]
theorem size_overlay (memory : LinearMemory) (pieces : List (Nat × List UInt8)) :
    (memory.overlay pieces).size = memory.size :=
  Array.size_mapIdx

@[simp]
theorem overlay_nil (memory : LinearMemory) : memory.overlay [] = memory := by
  have hbytes : (memory.overlay []).bytes = memory.bytes :=
    Array.ext_getElem? fun place => (getElem?_overlay memory [] place).trans (by simp [lastByte?])
  exact congrArg (fun bytes => { memory with bytes }) hbytes

theorem overlay_append (memory : LinearMemory) (first second : List (Nat × List UInt8)) :
    memory.overlay (first ++ second) = (memory.overlay first).overlay second := by
  refine congrArg (fun bytes => { memory with bytes }) (Array.ext_getElem? fun place => ?_)
  change (memory.overlay (first ++ second)).bytes[place]? = ((memory.overlay first).overlay second).bytes[place]?
  rw [getElem?_overlay, getElem?_overlay, getElem?_overlay, Option.map_map, lastByte?_append]
  refine congrArg (Option.map · _) (funext fun old => ?_)
  cases lastByte? second place <;> rfl

/-- A write within bounds lays its data over the bytes. -/
theorem write_overlay {offset : Nat} {data : List UInt8} (h : offset + data.length ≤ memory.size) :
    memory.write offset data = .ok (memory.overlay [(offset, data)]) := by
  have hbytes : overwrite memory.bytes offset data = (memory.overlay [(offset, data)]).bytes :=
    Array.ext_getElem? fun place => (getElem?_overwrite ..).trans (getElem?_overlay memory [(offset, data)] place).symm
  unfold LinearMemory.write
  rw [if_pos h, hbytes]
  rfl

/-! ## Piece by piece -/

section Pieces

variable {before gap after data : List UInt8}

theorem toList_overwrite {bytes : Array UInt8} (hbytes : bytes.toList = before ++ gap ++ after)
    (hgap : gap.length = data.length) :
    (overwrite bytes before.length data).toList = before ++ data ++ after := by
  induction data generalizing bytes before gap with
  | nil => rw [overwrite, hbytes, List.length_eq_zero_iff.1 hgap]
  | cons byte data ih =>
    cases gap with
    | nil => cases hgap
    | cons old gap =>
      have hset : (bytes.setIfInBounds before.length byte).toList = (before ++ [byte]) ++ gap ++ after := by
        simp [hbytes]
      have hrest := ih hset (Nat.succ.inj hgap)
      rw [List.length_append, List.length_singleton] at hrest
      rw [overwrite, hrest]
      simp

/-- A write of as many bytes as a part has replaces that part. -/
theorem write_spliced (hbytes : memory.bytes.toList = before ++ gap ++ after) (hgap : gap.length = data.length) :
    memory.write before.length data = .ok { memory with bytes := (before ++ data ++ after).toArray } := by
  have hsize : before.length + data.length ≤ memory.size := by
    have hlength := congrArg List.length hbytes
    simp only [Array.length_toList, List.length_append] at hlength
    unfold LinearMemory.size
    omega
  unfold LinearMemory.write
  rw [if_pos hsize, ← toList_overwrite hbytes hgap, Array.toArray_toList]

/-- Reading a part gives it back. -/
theorem read_spliced (hbytes : memory.bytes.toList = before ++ data ++ after) :
    memory.read before.length data.length = .ok data := by
  have hsize : before.length + data.length ≤ memory.size := by
    have hlength := congrArg List.length hbytes
    simp only [Array.length_toList, List.length_append] at hlength
    unfold LinearMemory.size
    omega
  unfold LinearMemory.read
  rw [if_pos hsize, Array.toList_extract, hbytes]
  simp

end Pieces

end WasmEngine.LinearMemory
