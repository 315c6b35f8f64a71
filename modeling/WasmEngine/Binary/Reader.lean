import WasmEngine.Error

/-!
# Reading bytes

A reader is a cursor over bytes. Each operation either takes bytes off the front or fails and leaves the cursor where
it was: fixed width numbers with the low byte first, LEB128 integers and texts with their length in front.
-/

namespace WasmEngine

/-- A cursor: how many bytes were taken and which are left. -/
structure Reader where
  position : Nat
  rest : List UInt8

/-- A program of reads. A failure keeps the cursor it stopped at. -/
abbrev Read := EStateM Error Reader

namespace Reader

/-- A cursor at the start of some bytes. -/
def ofBytes (bytes : List UInt8) : Reader :=
  ⟨0, bytes⟩

/-- Whether all bytes were taken. -/
def isEmpty (reader : Reader) : Bool :=
  reader.rest.isEmpty

/-- The first `count` elements and the others, if there are that many. -/
def splitExact {α : Type} : Nat → List α → Option (List α × List α)
  | 0, items => some ([], items)
  | _ + 1, [] => none
  | count + 1, item :: items =>
    match splitExact count items with
    | some (front, back) => some (item :: front, back)
    | none => none

/-- Takes one byte. -/
def byte : Read UInt8 := fun reader =>
  match reader.rest with
  | [] => .error .underrun reader
  | byte :: rest => .ok byte ⟨reader.position + 1, rest⟩

/-- Takes `count` bytes. -/
def bytes (count : Nat) : Read (List UInt8) := fun reader =>
  match splitExact count reader.rest with
  | none => .error .underrun reader
  | some (front, rest) => .ok front ⟨reader.position + count, rest⟩

/-- Moves past `count` bytes. -/
def skip (count : Nat) : Read Unit := do
  let _ ← bytes count

/-- Checks that `count` bytes are left, without taking them. -/
def ensure (count : Nat) : Read Unit := fun reader =>
  match splitExact count reader.rest with
  | none => .error .underrun reader
  | some _ => .ok () reader

/-- Takes all bytes that are left. -/
def remaining : Read (List UInt8) := fun reader =>
  .ok reader.rest ⟨reader.position + reader.rest.length, []⟩

/-- The number whose base 256 digits are the bytes, lowest first. -/
def littleEndian : List UInt8 → Nat
  | [] => 0
  | byte :: rest => byte.toNat + 256 * littleEndian rest

/-- Takes a 16-bit number. -/
def u16 : Read UInt16 :=
  return UInt16.ofNat (littleEndian (← bytes 2))

/-- Takes a 32-bit number. -/
def u32 : Read UInt32 :=
  return UInt32.ofNat (littleEndian (← bytes 4))

/-- Takes a 64-bit number. -/
def u64 : Read UInt64 :=
  return UInt64.ofNat (littleEndian (← bytes 8))

/-- Takes the bytes of a LEB128 integer of at most `maxBits` bits. -/
def groups (maxBits : Nat) : Read (List UInt8) := fun reader =>
  match Leb128.splitGroups (Leb128.groupLimit maxBits) reader.rest with
  | .error fault => .error (.ofLeb128 fault) reader
  | .ok (groups, rest) => .ok groups ⟨reader.position + groups.length, rest⟩

/-- Takes an unsigned LEB128 integer of at most `maxBits` bits. -/
def unsigned (maxBits : Nat) : Read UInt64 :=
  return UInt64.ofNat (Leb128.unsignedValue (← groups maxBits))

/-- Takes a signed LEB128 integer of at most `maxBits` bits. -/
def signed (maxBits : Nat) : Read Int64 :=
  return Int64.ofInt (Leb128.signedValue (← groups maxBits))

/-- Takes a value that has to pass a narrowing; otherwise the cursor goes back to where it was. -/
def narrow {α β : Type} (narrowing : α → Option β) (read : Read α) : Read β := fun reader =>
  match read reader with
  | .error error stopped => .error error stopped
  | .ok value next =>
    match narrowing value with
    | some narrowed => .ok narrowed next
    | none => .error .lebOverflow reader

/-- Takes an unsigned integer of seven bits. -/
def varU7 : Read UInt8 :=
  narrow (fun value => if value.toNat < 0x100 then some value.toUInt8 else none) (unsigned 7)

/-- Takes a signed integer of seven bits. -/
def varI7 : Read Int8 :=
  narrow (fun value => if -0x80 ≤ value.toInt ∧ value.toInt < 0x80 then some value.toInt8 else none) (signed 7)

/-- Takes an unsigned integer of 32 bits. -/
def varU32 : Read UInt32 :=
  narrow (fun value => if value.toNat < 0x100000000 then some value.toUInt32 else none) (unsigned 32)

/-- Takes a signed integer of 32 bits. -/
def varI32 : Read Int32 :=
  narrow
    (fun value => if -0x80000000 ≤ value.toInt ∧ value.toInt < 0x80000000 then some value.toInt32 else none)
    (signed 32)

/-- Takes an unsigned integer of 64 bits. -/
def varU64 : Read UInt64 :=
  unsigned 64

/-- Takes a signed integer of 64 bits. -/
def varI64 : Read Int64 :=
  signed 64

/-- Runs reads that belong together: if one of them fails, the cursor goes back to where the first one started. -/
def atomically {α : Type} (read : Read α) : Read α := fun reader =>
  match read reader with
  | .ok value next => .ok value next
  | .error error _ => .error error reader

/-- Takes a text of at most `limit` bytes with its length in front. -/
def text (limit : Nat) : Read String := atomically do
  let length ← varU32
  if length.toNat > limit then throw .oversizedText
  let bytes ← bytes length.toNat
  match Text.Utf8.decode bytes with
  | .ok text => return text
  | .error fault => throw (.invalidUtf8 fault)

/-! ## Reads never lengthen what is left -/

/-- The bytes left after a successful read are no more than before. -/
def Shrinks {α : Type} (read : Read α) : Prop :=
  ∀ (reader next : Reader) (value : α), read reader = .ok value next → next.rest.length ≤ reader.rest.length

theorem Shrinks.pure {α : Type} (value : α) : Shrinks (Pure.pure value : Read α) := by
  intro reader next result h
  cases h
  exact Nat.le_refl _

theorem Shrinks.throw {α : Type} (error : Error) : Shrinks (MonadExcept.throw error : Read α) := by
  intro reader next result h
  cases h

theorem Shrinks.bind {α β : Type} {first : Read α} {second : α → Read β} (hf : Shrinks first)
    (hs : ∀ value, Shrinks (second value)) : Shrinks (first >>= second) := by
  intro reader next result h
  change EStateM.bind first second reader = .ok result next at h
  unfold EStateM.bind at h
  split at h
  · rename_i value middle hm
    exact Nat.le_trans (hs value _ _ _ h) (hf _ _ _ hm)
  · cases h

theorem length_splitExact {α : Type} {count : Nat} {items front back : List α}
    (h : splitExact count items = some (front, back)) : front.length = count ∧ front ++ back = items := by
  induction count generalizing items front back with
  | zero =>
    simp only [splitExact, Option.some.injEq, Prod.mk.injEq] at h
    simp [← h.1, h.2]
  | succ count ih =>
    cases items with
    | nil => simp [splitExact] at h
    | cons item items =>
      rw [splitExact] at h
      split at h
      · rename_i inner after hi
        simp only [Option.some.injEq, Prod.mk.injEq] at h
        obtain ⟨hlen, happ⟩ := ih hi
        simp [← h.1, hlen, ← h.2, happ]
      · simp at h

theorem shrinks_byte : Shrinks byte := by
  intro reader next result h
  unfold byte at h
  split at h
  · cases h
  · rename_i hr
    cases h
    simp [hr]

theorem shrinks_bytes (count : Nat) : Shrinks (bytes count) := by
  intro reader next result h
  unfold bytes at h
  split at h
  · cases h
  · rename_i front rest hs
    cases h
    rw [← (length_splitExact hs).2]
    simp

theorem shrinks_skip (count : Nat) : Shrinks (skip count) :=
  Shrinks.bind (shrinks_bytes count) fun _ => Shrinks.pure _

theorem shrinks_groups (maxBits : Nat) : Shrinks (groups maxBits) := by
  intro reader next result h
  unfold groups at h
  split at h
  · cases h
  · rename_i found rest hs
    cases h
    rw [← Leb128.append_of_splitGroups hs]
    simp

theorem shrinks_unsigned (maxBits : Nat) : Shrinks (unsigned maxBits) :=
  Shrinks.bind (shrinks_groups maxBits) fun _ => Shrinks.pure _

theorem shrinks_signed (maxBits : Nat) : Shrinks (signed maxBits) :=
  Shrinks.bind (shrinks_groups maxBits) fun _ => Shrinks.pure _

theorem shrinks_narrow {α β : Type} (narrowing : α → Option β) {read : Read α} (h : Shrinks read) :
    Shrinks (narrow narrowing read) := by
  intro reader next result hn
  unfold narrow at hn
  split at hn
  · cases hn
  · rename_i value middle hr
    split at hn
    · cases hn
      exact h _ _ _ hr
    · cases hn

theorem shrinks_varU32 : Shrinks varU32 :=
  shrinks_narrow _ (shrinks_unsigned 32)

theorem shrinks_varI32 : Shrinks varI32 :=
  shrinks_narrow _ (shrinks_signed 32)

theorem shrinks_varI64 : Shrinks varI64 :=
  shrinks_signed 64

end Reader

end WasmEngine
