import WasmEngine.Proofs.Binary.Frames

/-!
# Reads depend on what they take

A read that succeeds has looked at the bytes that it takes and at nothing else (`Local`), and a single operation that
fails leaves the cursor where it was (`Atomic`).
-/

namespace WasmEngine.Reader

variable {α β : Type}

/-- What a read gives and how far it moves depends on the bytes that it takes only. -/
def Local (read : Read α) : Prop :=
  ∀ reader value next, read reader = .ok value next →
    ∃ word, reader.rest = word ++ next.rest ∧ next.position = reader.position + word.length ∧ Reads read {word} value

namespace Local

theorem pure (value : α) : Local (Pure.pure value) := by
  intro reader result next h
  cases h
  refine ⟨[], rfl, rfl, ?_⟩
  rintro _ rfl rest - position
  rfl

theorem throw (error : Error) : Local (MonadExcept.throw error : Read α) := by
  intro reader result next h
  cases h

theorem bind {first : Read α} {second : α → Read β} (hfirst : Local first) (hsecond : ∀ value, Local (second value)) :
    Local (first >>= second) := by
  intro reader result next h
  obtain ⟨value, between, hread, hrest⟩ := run_bind_eq_ok h
  obtain ⟨front, happend, hposition, hreads⟩ := hfirst reader value between hread
  obtain ⟨back, happend', hposition', hreads'⟩ := hsecond value between result next hrest
  refine ⟨front ++ back, ?_, ?_, ?_⟩
  · rw [happend, happend', List.append_assoc]
  · rw [hposition', hposition, List.length_append, Nat.add_assoc]
  · rintro _ rfl
    exact hreads.bind hreads' _ (Language.append_mem_mul rfl rfl)

theorem narrow {read : Read α} (h : Local read) (narrowing : α → Option β) : Local (narrow narrowing read) := by
  intro reader result next hread
  unfold Reader.narrow at hread
  split at hread
  · cases hread
  · rename_i value between hvalue
    split at hread
    · rename_i hnarrow
      cases hread
      obtain ⟨word, happend, hposition, hreads⟩ := h reader value next hvalue
      exact ⟨word, happend, hposition, reads_narrow hreads hnarrow⟩
    · cases hread

theorem atomically {read : Read α} (h : Local read) : Local (atomically read) := by
  intro reader value next hread
  unfold Reader.atomically at hread
  split at hread
  · rename_i hvalue
    cases hread
    obtain ⟨word, happend, hposition, hreads⟩ := h reader value next hvalue
    exact ⟨word, happend, hposition, reads_atomically hreads⟩
  · cases hread

end Local

theorem local_byte : Local byte := by
  rintro ⟨position, rest⟩ value next h
  unfold byte at h
  cases rest with
  | nil => cases h
  | cons byte rest =>
    cases h
    exact ⟨[value], rfl, rfl, reads_byte value⟩

theorem local_bytes (count : Nat) : Local (bytes count) := by
  intro reader content next h
  obtain ⟨happend, hlength⟩ := eq_append_of_bytes h
  refine ⟨content, happend, ?_, reads_bytes content hlength⟩
  unfold bytes at h
  split at h
  · cases h
  · cases h
    rw [hlength]

theorem local_skip (count : Nat) : Local (skip count) :=
  (local_bytes count).bind fun _ => .pure _

theorem local_groups (maxBits : Nat) : Local (groups maxBits) := by
  intro reader found next h
  obtain ⟨n, hn, -⟩ := Leb128.exists_groupLimit maxBits
  obtain ⟨word, happend, hposition, hrun, hlength, rfl⟩ := ((takesRuns_groups hn).ok_iff reader found next).1 h
  exact ⟨word, happend, hposition, reads_groups ⟨hrun, hn ▸ hlength⟩⟩

theorem local_unsigned (maxBits : Nat) : Local (unsigned maxBits) :=
  (local_groups maxBits).bind fun _ => .pure _

theorem local_signed (maxBits : Nat) : Local (signed maxBits) :=
  (local_groups maxBits).bind fun _ => .pure _

theorem local_varU32 : Local varU32 :=
  (local_unsigned 32).narrow _

theorem local_varI32 : Local varI32 :=
  (local_signed 32).narrow _

theorem local_varI64 : Local varI64 :=
  local_signed 64

theorem local_text (limit : Nat) : Local (text limit) := by
  refine (local_varU32.bind fun length => ?_).atomically
  dsimp only
  split
  · exact .throw _
  · refine (local_bytes _).bind fun content => ?_
    cases Text.Utf8.decode content with
    | ok text => exact .pure text
    | error fault => exact .throw _

/-! ## Reads that fail leave the cursor alone -/

/-- A read that fails leaves the cursor where it was. -/
def Atomic (read : Read α) : Prop :=
  ∀ reader error stopped, read reader = .error error stopped → stopped = reader

namespace Atomic

/-- Changing the value cannot fail. -/
theorem map {read : Read α} (h : Atomic read) (change : α → β) : Atomic (do return change (← read)) := by
  intro reader error stopped hread
  cases hfirst : read reader with
  | ok value next =>
    rw [run_bind_of_ok hfirst] at hread
    cases hread
  | error first middle =>
    rw [run_bind_of_error hfirst] at hread
    cases hread
    exact h reader error stopped hfirst

theorem narrow {read : Read α} (h : Atomic read) (narrowing : α → Option β) : Atomic (narrow narrowing read) := by
  intro reader error stopped hread
  unfold Reader.narrow at hread
  split at hread
  · rename_i hfirst
    cases hread
    exact h reader error stopped hfirst
  · split at hread
    · cases hread
    · cases hread
      rfl

end Atomic

theorem atomic_atomically (read : Read α) : Atomic (atomically read) := by
  intro reader error stopped h
  unfold atomically at h
  split at h
  · cases h
  · cases h
    rfl

theorem atomic_byte : Atomic byte := by
  intro reader error stopped h
  unfold byte at h
  split at h
  · cases h
    rfl
  · cases h

theorem atomic_bytes (count : Nat) : Atomic (bytes count) := by
  intro reader error stopped h
  unfold bytes at h
  split at h
  · cases h
    rfl
  · cases h

theorem atomic_groups (maxBits : Nat) : Atomic (groups maxBits) := by
  intro reader error stopped h
  unfold groups at h
  split at h
  · cases h
    rfl
  · cases h

theorem atomic_unsigned (maxBits : Nat) : Atomic (unsigned maxBits) :=
  (atomic_groups maxBits).map _

theorem atomic_signed (maxBits : Nat) : Atomic (signed maxBits) :=
  (atomic_groups maxBits).map _

theorem atomic_varU32 : Atomic varU32 :=
  (atomic_unsigned 32).narrow _

/-! ## Operations and programs -/

/-- The operations of a cursor that take bytes. Floats are read as the numbers that their bits are. -/
inductive Operation : {α : Type} → Read α → Prop where
  | byte : Operation byte
  | u16 : Operation u16
  | u32 : Operation u32
  | u64 : Operation u64
  | unsigned (maxBits : Nat) : Operation (unsigned maxBits)
  | signed (maxBits : Nat) : Operation (signed maxBits)
  | varU7 : Operation varU7
  | varI7 : Operation varI7
  | varU32 : Operation varU32
  | varI32 : Operation varI32
  | varU64 : Operation varU64
  | varI64 : Operation varI64
  | skip (count : Nat) : Operation (skip count)
  | bytes (count : Nat) : Operation (bytes count)
  | text (limit : Nat) : Operation (text limit)

/-- Operations one after the other: what was read decides how to go on, and the first failure ends the program. -/
inductive Program : {α : Type} → Read α → Prop where
  | operation {α : Type} {read : Read α} (h : Operation read) : Program read
  | pure {α : Type} (value : α) : Program (Pure.pure value)
  | throw {α : Type} (error : Error) : Program (MonadExcept.throw error : Read α)
  | bind {α β : Type} {first : Read α} {second : α → Read β} (hfirst : Program first)
      (hsecond : ∀ value, Program (second value)) : Program (first >>= second)

theorem Operation.local {read : Read α} (h : Operation read) : Local read := by
  cases h with
  | byte => exact local_byte
  | u16 => exact (local_bytes 2).bind fun _ => .pure _
  | u32 => exact (local_bytes 4).bind fun _ => .pure _
  | u64 => exact (local_bytes 8).bind fun _ => .pure _
  | unsigned maxBits => exact local_unsigned maxBits
  | signed maxBits => exact local_signed maxBits
  | varU7 => exact (local_unsigned 7).narrow _
  | varI7 => exact (local_signed 7).narrow _
  | varU32 => exact local_varU32
  | varI32 => exact local_varI32
  | varU64 => exact local_unsigned 64
  | varI64 => exact local_varI64
  | skip count => exact local_skip count
  | bytes count => exact local_bytes count
  | text limit => exact local_text limit

theorem Operation.atomic {read : Read α} (h : Operation read) : Atomic read := by
  cases h with
  | byte => exact atomic_byte
  | u16 => exact (atomic_bytes 2).map _
  | u32 => exact (atomic_bytes 4).map _
  | u64 => exact (atomic_bytes 8).map _
  | unsigned maxBits => exact atomic_unsigned maxBits
  | signed maxBits => exact atomic_signed maxBits
  | varU7 => exact (atomic_unsigned 7).narrow _
  | varI7 => exact (atomic_signed 7).narrow _
  | varU32 => exact atomic_varU32
  | varI32 => exact (atomic_signed 32).narrow _
  | varU64 => exact atomic_unsigned 64
  | varI64 => exact atomic_signed 64
  | skip count => exact (atomic_bytes count).map _
  | bytes count => exact atomic_bytes count
  | text limit => exact atomic_atomically _

theorem Program.local {program : Read α} (h : Program program) : Local program := by
  induction h with
  | operation h => exact h.local
  | pure value => exact .pure value
  | throw error => exact .throw error
  | bind hfirst hsecond ihfirst ihsecond => exact ihfirst.bind ihsecond

/-- The cursor that is `position` bytes into an input. -/
def into (input : List UInt8) (position : Nat) : Reader :=
  ⟨position, input.drop position⟩

/-- A read that depends on what it takes only stays inside its input. -/
theorem Local.exists_count {read : Read α} (h : Local read) {input : List UInt8} {position : Nat}
    (hposition : position ≤ input.length) {value : α} {next : Reader}
    (hread : read (into input position) = .ok value next) :
    ∃ count, position + count ≤ input.length ∧ next = into input (position + count) ∧
      ∀ reader : Reader, (input.drop position).take count <+: reader.rest →
        read reader = .ok value ⟨reader.position + count, reader.rest.drop count⟩ := by
  obtain ⟨word, happend, hnext, hreads⟩ := h _ value next hread
  have hrest : input.drop position = word ++ next.rest := happend
  have hlength : input.length - position = word.length + next.rest.length := by
    rw [← List.length_drop, hrest, List.length_append]
  have hleft : input.drop (position + word.length) = next.rest := by
    rw [← List.drop_drop, hrest, List.drop_left]
  refine ⟨word.length, by omega, ?_, ?_⟩
  · rw [into, hleft, show position + word.length = next.position from hnext.symm]
  · rintro ⟨moved, _⟩ ⟨tail, rfl⟩
    rw [hrest, List.take_left, List.drop_left]
    exact hreads word rfl tail trivial moved

/-- Every operation either fails and leaves the cursor where it was, or takes bytes of its input. Then it takes the same
bytes, and gives the same value, wherever they stand and whatever follows them. So a program of operations that succeeds
does not notice bytes behind its input. -/
theorem reads_local :
    (∀ {α : Type} (read : Read α), Operation read → ∀ (input : List UInt8) (position : Nat), position ≤ input.length →
      (∀ error stopped, read (into input position) = .error error stopped → stopped = into input position) ∧
      ∀ value next, read (into input position) = .ok value next →
        ∃ count, position + count ≤ input.length ∧ next = into input (position + count) ∧
          ∀ reader : Reader, (input.drop position).take count <+: reader.rest →
            read reader = .ok value ⟨reader.position + count, reader.rest.drop count⟩) ∧
    ∀ {α : Type} (program : Read α), Program program → ∀ (input extra : List UInt8) (value : α) (next : Reader),
      program (ofBytes input) = .ok value next →
        program (ofBytes (input ++ extra)) = .ok value ⟨next.position, next.rest ++ extra⟩ := by
  refine ⟨fun read hread input position hposition => ⟨hread.atomic _, fun value next hvalue => ?_⟩, ?_⟩
  · exact hread.local.exists_count hposition hvalue
  · intro α program hprogram input extra value next hvalue
    obtain ⟨word, happend, hnext, hreads⟩ := hprogram.local _ value next hvalue
    have hinput : input ++ extra = word ++ (next.rest ++ extra) := by
      rw [← List.append_assoc, ← happend]
      rfl
    rw [hinput, hnext]
    exact hreads word rfl (next.rest ++ extra) trivial 0

/-- A text that is too long is left unread behind its size, a padded number is found again elsewhere, and a block is read
with a byte behind it. -/
theorem reads_local_sample :
    (∃ error stopped, text 2 (into [0xAA, 0x03, 0x68, 0x69, 0x21] 1) = .error error stopped ∧
      stopped = into [0xAA, 0x03, 0x68, 0x69, 0x21] 1) ∧
    varU32 ⟨7, [0x85, 0x00, 0x09]⟩ = .ok 5 ⟨9, [0x09]⟩ ∧
    Frame.payloadRead (ofBytes ([0x02, 0x07, 0x08] ++ [0x09])) = .ok [0x07, 0x08] ⟨3, [0x09]⟩ := by
  refine ⟨⟨.oversizedText, _, rfl, ?_⟩, ?_, ?_⟩
  · exact (reads_local.1 (text 2) (.text 2) _ 1 (by decide)).1 .oversizedText _ rfl
  · obtain ⟨count, hcount, hnext, hlocal⟩ :=
      (reads_local.1 varU32 .varU32 [0xAA, 0x85, 0x00] 1 (by decide)).2 5 ⟨3, []⟩ rfl
    have htwo : 3 = 1 + count := congrArg position hnext
    obtain rfl : count = 2 := by omega
    exact hlocal ⟨7, [0x85, 0x00, 0x09]⟩ ⟨[0x09], rfl⟩
  · have hprogram : Program Frame.payloadRead := .bind (.operation .varU32) fun _ => .operation (.bytes _)
    exact reads_local.2 _ hprogram [0x02, 0x07, 0x08] [0x09] [0x07, 0x08] ⟨3, []⟩ rfl

end WasmEngine.Reader
