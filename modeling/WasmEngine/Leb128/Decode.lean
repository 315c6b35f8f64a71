/-!
# Reading LEB128 integers

A LEB128 integer is a run of bytes that carry seven bits each, lowest first; every byte but the last has its high bit
set. `splitGroups` finds the run, which is bounded by a width in bits, and `readUnsigned` and `readSigned` give the low
64 bits of its number and the bytes that follow.
-/

namespace WasmEngine.Leb128

/-- Why an integer could not be read or written. -/
inductive Fault where
  /-- The input ended before a byte without the continuation bit. -/
  | unexpectedEnd
  /-- The encoding is longer than the requested width allows. -/
  | overflow
  /-- The output has no room for another byte. -/
  | noSpace
  deriving DecidableEq

/-- The text shown for a fault. -/
def Fault.message : Fault → String
  | .unexpectedEnd => "unexpected end of input"
  | .overflow => "integer representation too long"
  | .noSpace => "not enough space in output buffer"

/-- How many bytes an integer of at most `maxBits` bits may occupy: one byte is always allowed. -/
def groupLimit (maxBits : Nat) : Nat :=
  max 1 ((maxBits + 6) / 7)

/-- Splits the input after the first byte without the continuation bit, which has to be among the first `limit`
bytes. -/
def splitGroups : Nat → List UInt8 → Except Fault (List UInt8 × List UInt8)
  | _, [] => .error .unexpectedEnd
  | limit, byte :: rest =>
    if byte < 0x80 then .ok ([byte], rest)
    else if limit ≤ 1 then .error .overflow
    else
      match splitGroups (limit - 1) rest with
      | .ok (groups, rest) => .ok (byte :: groups, rest)
      | .error fault => .error fault

/-- The number whose seven-bit digits are the low bits of the bytes, lowest first. -/
def unsignedValue : List UInt8 → Nat
  | [] => 0
  | byte :: rest => byte.toNat % 128 + 128 * unsignedValue rest

/-- The same digits read as a two's complement number of `7 * groups.length` bits. -/
def signedValue (groups : List UInt8) : Int :=
  if Nat.pow 2 (7 * groups.length) ≤ 2 * unsignedValue groups then
    (unsignedValue groups : Int) - (Nat.pow 2 (7 * groups.length) : Nat)
  else
    unsignedValue groups

/-- Reads an unsigned integer of at most `maxBits` bits, keeping its low 64 bits. -/
def readUnsigned (maxBits : Nat) (input : List UInt8) : Except Fault (UInt64 × List UInt8) :=
  match splitGroups (groupLimit maxBits) input with
  | .ok (groups, rest) => .ok (UInt64.ofNat (unsignedValue groups), rest)
  | .error fault => .error fault

/-- Reads a signed integer of at most `maxBits` bits, keeping its low 64 bits. -/
def readSigned (maxBits : Nat) (input : List UInt8) : Except Fault (Int64 × List UInt8) :=
  match splitGroups (groupLimit maxBits) input with
  | .ok (groups, rest) => .ok (Int64.ofInt (signedValue groups), rest)
  | .error fault => .error fault

/-- Reads one byte as it is. -/
def readByte : List UInt8 → Except Fault (UInt8 × List UInt8)
  | [] => .error .unexpectedEnd
  | byte :: rest => .ok (byte, rest)

/-- Reads off the front of a slice, which is left with what follows. A read that fails leaves the slice as it was. -/
def onSlice {α : Type} (read : List UInt8 → Except Fault (α × List UInt8)) : EStateM Fault (List UInt8) α := fun slice =>
  match read slice with
  | .ok (value, rest) => .ok value rest
  | .error fault => .error fault slice

/-- The run that was found and what follows it make up the input. -/
theorem append_of_splitGroups {limit : Nat} {input groups rest : List UInt8}
    (h : splitGroups limit input = .ok (groups, rest)) : groups ++ rest = input := by
  induction input generalizing limit groups rest with
  | nil => simp [splitGroups] at h
  | cons byte tail ih =>
    rw [splitGroups] at h
    split at h
    · simp only [Except.ok.injEq, Prod.mk.injEq] at h
      simp [← h.1, ← h.2]
    · split at h
      · simp at h
      · split at h
        · rename_i inner after found
          simp only [Except.ok.injEq, Prod.mk.injEq] at h
          simp [← h.1, ← h.2, ih found]
        · simp at h

/-- The run that was found is not empty. -/
theorem ne_nil_of_splitGroups {limit : Nat} {input groups rest : List UInt8}
    (h : splitGroups limit input = .ok (groups, rest)) : groups ≠ [] := by
  cases input with
  | nil => simp [splitGroups] at h
  | cons byte tail =>
    rw [splitGroups] at h
    split at h
    · simp only [Except.ok.injEq, Prod.mk.injEq] at h
      simp [← h.1]
    · split at h
      · simp at h
      · split at h
        · simp only [Except.ok.injEq, Prod.mk.injEq] at h
          simp [← h.1]
        · simp at h

end WasmEngine.Leb128
