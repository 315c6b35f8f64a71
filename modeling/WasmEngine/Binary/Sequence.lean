import WasmEngine.Binary.Reader

/-!
# Sequences

Instructions stand one after the other in bytes. `Reader.sequence` reads items as long as there are some and says how
the sequence ended: where the cursor stands after it, or why the next item could not be read.
-/

namespace WasmEngine.Reader

variable {α : Type}

/-- Every item that is read takes up some bytes. -/
def Consumes (read : Read (Option α)) : Prop :=
  ∀ (reader next : Reader) (item : α), read reader = .ok (some item) next → next.rest.length < reader.rest.length

/-- Reads items until there are no more. -/
def sequence (read : Read (Option α)) (h : Consumes read) (reader : Reader) : List α × Except Error Reader :=
  match hr : read reader with
  | .error error _ => ([], .error error)
  | .ok none next => ([], .ok next)
  | .ok (some item) next =>
    have := h reader next item hr
    let (items, ending) := sequence read h next
    (item :: items, ending)
termination_by reader.rest.length
decreasing_by exact this

theorem length_lt_of_byte {reader next : Reader} {value : UInt8} (h : byte reader = .ok value next) :
    next.rest.length < reader.rest.length := by
  unfold byte at h
  split at h
  · cases h
  · rename_i hr
    cases h
    simp [hr]

/-- An item that starts with a byte takes up some bytes. -/
theorem consumes_of_byte {read : Read (Option α)} {operands : UInt8 → Read (Option α)}
    (hr : ∀ reader, read reader = (byte >>= operands) reader ∨ ∀ item next, read reader ≠ .ok (some item) next)
    (h : ∀ opcode, Shrinks (operands opcode)) : Consumes read := by
  intro reader next item hi
  rcases hr reader with hr | hr
  · rw [hr] at hi
    change EStateM.bind byte operands reader = .ok (some item) next at hi
    unfold EStateM.bind at hi
    split at hi
    · rename_i opcode middle hb
      exact Nat.lt_of_le_of_lt (h opcode _ _ _ hi) (length_lt_of_byte hb)
    · cases hi
  · exact absurd hi (hr item next)

theorem Shrinks.map {β : Type} (change : α → β) {read : Read α} (h : Shrinks read) : Shrinks (change <$> read) := by
  intro reader next result hm
  change EStateM.map change read reader = .ok result next at hm
  unfold EStateM.map at hm
  split at hm
  · rename_i value middle hr
    cases hm
    exact h _ _ _ hr
  · cases hm

end WasmEngine.Reader
