import WasmEngine.Binary.Reader
import WasmEngine.Machine.Call
import WasmEngine.Proofs.Memory.Writing

/-!
# Command arguments in linear memory

Command arguments stand past the old end of linear memory: a table of pointers, then the strings, each with a closing
zero. `Machine.Copying` lists the ways in which copying them there can end.
-/

namespace WasmEngine

/-! ## The image of the arguments -/

namespace Machine

/-- The bytes that strings take up with their closing zeros. -/
def textSize : List (List UInt8) → Nat
  | [] => 0
  | text :: texts => text.length + 1 + textSize texts

/-- The pointers to strings that stand one after another from a place on. -/
def pointerTable : (place : Nat) → (texts : List (List UInt8)) → List UInt8
  | _, [] => []
  | place, text :: texts => bytesOfU32 place ++ pointerTable (place + text.length + 1) texts

/-- The strings with their closing zeros, one after another. -/
def textImage : List (List UInt8) → List UInt8
  | [] => []
  | text :: texts => text ++ [0] ++ textImage texts

theorem commandSize_eq (texts : List (List UInt8)) : commandSize texts = 4 * texts.length + textSize texts := by
  induction texts with
  | nil => rfl
  | cons text texts ih =>
    rw [commandSize, textSize, ih, List.length_cons]
    omega

@[simp]
theorem length_bytesOfU32 (value : Nat) : (bytesOfU32 value).length = 4 :=
  rfl

/-- The bytes of a 32-bit number are its digits. -/
theorem littleEndian_bytesOfU32 {value : Nat} (h : value < 0x100000000) :
    Reader.littleEndian (bytesOfU32 value) = value := by
  simp only [bytesOfU32, Reader.littleEndian, UInt8.toNat_ofNat']
  omega

@[simp]
theorem length_pointerTable (place : Nat) (texts : List (List UInt8)) :
    (pointerTable place texts).length = 4 * texts.length := by
  induction texts generalizing place with
  | nil => rfl
  | cons text texts ih =>
    rw [pointerTable, List.length_append, ih, length_bytesOfU32, List.length_cons]
    omega

@[simp]
theorem length_textImage (texts : List (List UInt8)) : (textImage texts).length = textSize texts := by
  induction texts with
  | nil => rfl
  | cons text texts ih =>
    simp only [textImage, textSize, List.length_append, List.length_singleton, ih]

theorem pointerTable_append (place : Nat) (first second : List (List UInt8)) :
    pointerTable place (first ++ second) =
      pointerTable place first ++ pointerTable (place + textSize first) second := by
  induction first generalizing place with
  | nil => rfl
  | cons text first ih =>
    rw [List.cons_append, pointerTable, ih, pointerTable, List.append_assoc, textSize]
    simp only [Nat.add_assoc]

theorem textImage_append (first second : List (List UInt8)) :
    textImage (first ++ second) = textImage first ++ textImage second := by
  induction first with
  | nil => rfl
  | cons text first ih => simp [textImage, ih]

theorem textSize_append (first second : List (List UInt8)) :
    textSize (first ++ second) = textSize first + textSize second := by
  rw [← length_textImage, textImage_append, List.length_append, length_textImage, length_textImage]

/-- Where a string starts. The pointers to all strings stand before the first one. -/
def argumentPlace (base : Nat) (texts : List (List UInt8)) (index : Nat) : Nat :=
  base + 4 * texts.length + textSize (texts.take index)

/-- Where the last string ends. -/
def argumentStop (base : Nat) (texts : List (List UInt8)) : Nat :=
  base + commandSize texts

/-- The pages that have to be committed. -/
def argumentPages (base : Nat) (texts : List (List UInt8)) : Nat :=
  (argumentStop base texts + pageSize - 1) / pageSize

/-- The bytes of a memory with command arguments behind them, and zeros from there on. -/
def argumentImage (bytes : List UInt8) (texts : List (List UInt8)) (spare : Nat) : List UInt8 :=
  bytes ++ pointerTable (bytes.length + 4 * texts.length) texts ++ textImage texts ++ List.replicate spare 0

theorem argumentStop_eq (base : Nat) (texts : List (List UInt8)) :
    argumentStop base texts = base + 4 * texts.length + textSize texts := by
  rw [argumentStop, commandSize_eq, Nat.add_assoc]

theorem argumentStop_le (base : Nat) (texts : List (List UInt8)) :
    argumentStop base texts ≤ argumentPages base texts * pageSize := by
  unfold argumentPages
  have hdiv := Nat.div_add_mod (argumentStop base texts + pageSize - 1) pageSize
  have hmod := Nat.mod_lt (argumentStop base texts + pageSize - 1) (show pageSize > 0 by decide)
  rw [Nat.mul_comm] at hdiv
  omega

/-- Some byte of the arguments stands past the old end. -/
theorem lt_argumentStop (base : Nat) {texts : List (List UInt8)} (h : texts ≠ []) : base < argumentStop base texts := by
  have hlength := List.length_pos_iff.2 h
  rw [argumentStop_eq]
  omega

theorem argumentPlace_lt (base : Nat) {texts : List (List UInt8)} {index : Nat} (h : index < texts.length) :
    argumentPlace base texts index < argumentStop base texts := by
  have hsplit := textSize_append (texts.take index) (texts.drop index)
  rw [List.take_append_drop, List.drop_eq_getElem_cons h, textSize] at hsplit
  rw [argumentPlace, argumentStop_eq]
  omega

section Image

variable (bytes : List UInt8) {texts : List (List UInt8)} (spare : Nat)

theorem length_argumentImage :
    (argumentImage bytes texts spare).length = argumentStop bytes.length texts + spare := by
  simp only [argumentImage, List.length_append, length_pointerTable, length_textImage, List.length_replicate,
    argumentStop_eq]

/-- The old bytes stay in front. -/
theorem argumentImage_old {place : Nat} (hplace : place < bytes.length) :
    (argumentImage bytes texts spare)[place]? = bytes[place]? := by
  unfold argumentImage
  rw [List.append_assoc, List.append_assoc, List.getElem?_append_left hplace]

/-- Past the last string there are zeros. -/
theorem argumentImage_rest {place : Nat} (hstop : argumentStop bytes.length texts ≤ place)
    (hplace : place < argumentStop bytes.length texts + spare) :
    (argumentImage bytes texts spare)[place]? = some 0 := by
  unfold argumentImage
  rw [argumentStop_eq] at hstop hplace
  rw [List.getElem?_append_right, List.getElem?_replicate_of_lt]
  · simp only [List.length_append, length_pointerTable, length_textImage]
    omega
  · simp only [List.length_append, length_pointerTable, length_textImage]
    omega

variable {index : Nat} (h : index < texts.length)

include h

/-- Each pointer stands in its place of the table. -/
theorem argumentImage_pointer :
    ∃ before after, argumentImage bytes texts spare =
        before ++ bytesOfU32 (argumentPlace bytes.length texts index) ++ after ∧
      before.length = bytes.length + 4 * index := by
  refine ⟨bytes ++ pointerTable (bytes.length + 4 * texts.length) (texts.take index),
    pointerTable (argumentPlace bytes.length texts index + texts[index].length + 1) (texts.drop (index + 1)) ++
      textImage texts ++ List.replicate spare 0, ?_, ?_⟩
  · have hsplit := pointerTable_append (bytes.length + 4 * texts.length) (texts.take index) (texts.drop index)
    rw [List.take_append_drop, List.drop_eq_getElem_cons h, pointerTable] at hsplit
    rw [argumentImage, hsplit, argumentPlace]
    simp only [List.append_assoc]
  · rw [List.length_append, length_pointerTable, List.length_take, Nat.min_eq_left (Nat.le_of_lt h)]

/-- Each string stands in its place, with a closing zero. -/
theorem argumentImage_text :
    ∃ before after, argumentImage bytes texts spare = before ++ (texts[index] ++ [0]) ++ after ∧
      before.length = argumentPlace bytes.length texts index := by
  refine ⟨bytes ++ pointerTable (bytes.length + 4 * texts.length) texts ++ textImage (texts.take index),
    textImage (texts.drop (index + 1)) ++ List.replicate spare 0, ?_, ?_⟩
  · have hsplit := textImage_append (texts.take index) (texts.drop index)
    rw [List.take_append_drop, List.drop_eq_getElem_cons h, textImage] at hsplit
    rw [argumentImage, hsplit]
    simp only [List.append_assoc]
  · simp only [List.length_append, length_pointerTable, length_textImage, argumentPlace]

end Image

end Machine

/-! ## Storing -/

namespace MachineState

/-- The state with other bytes in linear memory. -/
def withBytes (state : MachineState) (bytes : List UInt8) : MachineState :=
  { state with machine := { state.machine with memory := { state.machine.memory with bytes := bytes.toArray } } }

/-- The state after something happened to linear memory and the heap. -/
def withMemory (state : MachineState) (after : MemoryState) : MachineState where
  env := { state.env with heap := after.heap }
  machine := { state.machine with memory := after.memory }

/-- The state with two numbers in the first two slots. -/
def withSlots (state : MachineState) (count table : Nat) : MachineState :=
  { state with
    machine := { state.machine with
      stack := (state.machine.stack.setIfInBounds 0 (.ofNat count)).setIfInBounds 1 (.ofNat table) } }

/-- Nothing changes but bytes of linear memory from a place on. -/
structure Rewrites (base : Nat) (state state' : MachineState) : Prop where
  frame : state' = state.withBytes state'.machine.memory.bytes.toList
  size : state'.machine.memory.size = state.machine.memory.size
  below : ∀ place < base, state'.machine.memory.bytes[place]? = state.machine.memory.bytes[place]?

instance (base : Nat) : Std.Refl (Rewrites base) where
  refl _ := ⟨rfl, rfl, fun _ _ => rfl⟩

instance (base : Nat) : IsTrans MachineState (Rewrites base) where
  trans first second third h h' := by
    refine ⟨h'.frame.trans ?_, h'.size.trans h.size, fun place hlt => (h'.below place hlt).trans (h.below place hlt)⟩
    rw [h.frame]
    rfl

end MachineState

namespace MachineM

theorem failIf_of_not {condition : Prop} [Decidable condition] (h : ¬condition) (error : Error) :
    failIf condition error = pure () :=
  if_neg h

theorem run_failIf {condition : Prop} [Decidable condition] (h : condition) (error : Error) (state : MachineState) :
    failIf condition error state = .error error state := by
  unfold failIf
  rw [if_pos h]
  rfl

section OnMemory

variable {α : Type} {step : EStateM Error MemoryState α} {state : MachineState} {after : MemoryState}

theorem onMemory_of_ok {value : α} (h : step ⟨state.machine.memory, state.env.heap⟩ = .ok value after) :
    onMemory step state = .ok value (state.withMemory after) := by
  unfold onMemory
  rw [h]
  rfl

theorem onMemory_of_error {error : Error} (h : step ⟨state.machine.memory, state.env.heap⟩ = .error error after) :
    onMemory step state = .error error (state.withMemory after) := by
  unfold onMemory
  rw [h]
  rfl

end OnMemory

end MachineM

namespace Machine

open MachineM MachineState

variable {state : MachineState}

/-- Storing data in the place of a part that is as long. -/
theorem store_spliced (state : MachineState) (before gap after data : List UInt8) (hgap : gap.length = data.length) :
    store before.length data (state.withBytes (before ++ gap ++ after)) =
      .ok () (state.withBytes (before ++ data ++ after)) := by
  have hwrite : (state.withBytes (before ++ gap ++ after)).machine.memory.write before.length data = .ok _ :=
    LinearMemory.write_spliced rfl hgap
  unfold store
  rw [run_get_bind, hwrite]
  rfl

theorem rewrites_store {base offset : Nat} (h : base ≤ offset) (data : List UInt8) :
    Keeps (Rewrites base) (store offset data) := by
  intro state
  unfold store
  rw [run_get_bind]
  cases hwrite : state.machine.memory.write offset data with
  | error error => exact Std.Refl.refl (r := Rewrites base) state
  | ok memory =>
    unfold LinearMemory.write at hwrite
    split at hwrite
    · cases hwrite
      refine ⟨rfl, LinearMemory.size_overwrite .., ?_⟩
      intro place hlt
      exact LinearMemory.getElem?_overwrite_of_lt (Nat.lt_of_lt_of_le hlt h) _ _
    · cases hwrite

theorem rewrites_storeArguments {base pointer string : Nat} (hpointer : base ≤ pointer) (hstring : base ≤ string)
    (arguments : List (List UInt8)) : Keeps (Rewrites base) (storeArguments pointer string arguments) := by
  induction arguments generalizing pointer string with
  | nil => exact .pure _
  | cons argument arguments ih =>
    refine .bind (.ite _ (.throw _) (.pure _)) fun _ => ?_
    refine .bind (rewrites_store hpointer _) fun _ => ?_
    refine .bind (rewrites_store hstring _) fun _ => ?_
    refine .bind (rewrites_store (Nat.le_add_right_of_le hstring) _) fun _ => ?_
    apply ih
    · omega
    · omega

/-- Storing the first argument puts its pointer and its text in place. -/
theorem storeArguments_cons {argument : List UInt8} {arguments : List (List UInt8)} {before middle : List UInt8}
    {string spare : Nat} (hstring : string = before.length + 4 * (arguments.length + 1) + middle.length)
    (hreach : string < 0x100000000) :
    storeArguments before.length string (argument :: arguments) (state.withBytes
        (before ++ List.replicate (4 * (arguments.length + 1)) 0 ++ middle ++
          List.replicate (argument.length + 1 + spare) 0)) =
      storeArguments (before ++ bytesOfU32 string).length (string + argument.length + 1) arguments (state.withBytes
        ((before ++ bytesOfU32 string) ++ List.replicate (4 * arguments.length) 0 ++ (middle ++ argument ++ [0]) ++
          List.replicate spare 0)) := by
  -- The two cursors stand in front of zeros: of the free pointers, and of the free room behind the strings.
  have hholes : List.replicate (4 * (arguments.length + 1)) (0 : UInt8) =
      List.replicate 4 0 ++ List.replicate (4 * arguments.length) 0 := by
    rw [List.replicate_append_replicate, Nat.mul_succ, Nat.add_comm]
  have hroom : List.replicate (argument.length + 1 + spare) (0 : UInt8) =
      List.replicate argument.length 0 ++ [0] ++ List.replicate spare 0 := by
    rw [← List.replicate_append_replicate, ← List.replicate_append_replicate]
    rfl
  have hplace : string = (before ++ bytesOfU32 string ++ List.replicate (4 * arguments.length) 0 ++ middle).length := by
    simp only [List.length_append, length_bytesOfU32, List.length_replicate]
    omega
  have hpointer := store_spliced state before (List.replicate 4 0) (List.replicate (4 * arguments.length) 0 ++ middle ++
    (List.replicate argument.length 0 ++ [0] ++ List.replicate spare 0)) (bytesOfU32 string) rfl
  have htext := store_spliced state (before ++ bytesOfU32 string ++ List.replicate (4 * arguments.length) 0 ++ middle)
    (List.replicate argument.length 0) ([0] ++ List.replicate spare 0) argument List.length_replicate
  have hclosing := store_spliced state
    (before ++ bytesOfU32 string ++ List.replicate (4 * arguments.length) 0 ++ middle ++ argument) [0]
    (List.replicate spare 0) [0] rfl
  rw [List.length_append, ← hplace] at hclosing
  rw [← hplace] at htext
  simp only [List.append_assoc] at hpointer htext hclosing
  rw [storeArguments, failIf_of_not (Nat.not_le.2 hreach), pure_bind, hholes, hroom]
  simp only [List.append_assoc]
  rw [run_bind_of_ok hpointer, run_bind_of_ok htext, run_bind_of_ok hclosing, List.length_append, length_bytesOfU32]

/-- Where the next string goes once an argument is in place. -/
theorem place_cons {count string : Nat} {before middle : List UInt8}
    (hstring : string = before.length + 4 * (count + 1) + middle.length) (argument : List UInt8) :
    string + argument.length + 1 =
      (before ++ bytesOfU32 string).length + 4 * count + (middle ++ argument ++ [0]).length := by
  simp only [List.length_append, length_bytesOfU32, List.length_cons, List.length_nil]
  omega

section StoreArguments

variable {arguments : List (List UInt8)} {before middle : List UInt8} {string : Nat}

/-- Arguments whose places are 32-bit numbers are all stored. -/
theorem storeArguments_eq_ok (state : MachineState)
    (hstring : string = before.length + 4 * arguments.length + middle.length)
    (hreach : ∀ index < arguments.length, string + textSize (arguments.take index) < 0x100000000) (spare : Nat) :
    storeArguments before.length string arguments (state.withBytes
        (before ++ List.replicate (4 * arguments.length) 0 ++ middle ++
          List.replicate (textSize arguments + spare) 0)) =
      .ok () (state.withBytes (before ++ pointerTable string arguments ++ middle ++ textImage arguments ++
        List.replicate spare 0)) := by
  induction arguments generalizing before middle string with
  | nil =>
    simp only [textSize, pointerTable, textImage, List.length_nil, Nat.mul_zero, List.replicate_zero, Nat.zero_add,
      List.append_nil]
    rfl
  | cons argument arguments ih =>
    have hfirst : string < 0x100000000 := hreach 0 (Nat.succ_pos _)
    rw [textSize, Nat.add_assoc, List.length_cons, storeArguments_cons hstring hfirst, ih (place_cons hstring argument)]
    · simp only [pointerTable, textImage, List.append_assoc]
    · intro index hlt
      have hplace := hreach (index + 1) (Nat.succ_lt_succ hlt)
      rw [List.take_succ_cons, textSize] at hplace
      omega

/-- Storing stops at the first argument whose place is no 32-bit number. -/
theorem storeArguments_eq_error (state : MachineState)
    (hstring : string = before.length + 4 * arguments.length + middle.length)
    (hreach : ∃ index < arguments.length, 0x100000000 ≤ string + textSize (arguments.take index)) (spare : Nat) :
    ∃ state', storeArguments before.length string arguments (state.withBytes
        (before ++ List.replicate (4 * arguments.length) 0 ++ middle ++
          List.replicate (textSize arguments + spare) 0)) = .error .memoryOverflow state' := by
  induction arguments generalizing before middle string with
  | nil =>
    obtain ⟨index, hlt, -⟩ := hreach
    cases hlt
  | cons argument arguments ih =>
    rcases Nat.lt_or_ge string 0x100000000 with hfirst | hfirst
    · rw [textSize, Nat.add_assoc, List.length_cons, storeArguments_cons hstring hfirst]
      apply ih (place_cons hstring argument)
      obtain ⟨index, hlt, hplace⟩ := hreach
      cases index with
      | zero => exact absurd hplace (Nat.not_le.2 hfirst)
      | succ index =>
        rw [List.take_succ_cons, textSize] at hplace
        exact ⟨index, Nat.lt_of_succ_lt_succ hlt, by omega⟩
    · exact ⟨_, run_bind_of_error (run_failIf hfirst _ _)⟩

end StoreArguments

/-! ## Copying -/

theorem length_bytes (memory : LinearMemory) : memory.bytes.toList.length = memory.size :=
  Array.length_toList

/-- The ways in which copying command arguments can end. -/
inductive Copying (texts : List (List UInt8)) (state : MachineState) :
    EStateM.Result Error MachineState Nat → Prop where
  /-- An argument is too long. -/
  | tooLong (hlong : ∃ text ∈ texts, commandArgumentLimit ≤ text.length + 1) :
      Copying texts state (.error .insaneArgumentLength state)
  /-- The number of pages has more than 32 bits. -/
  | tooMany (hshort : ∀ text ∈ texts, text.length + 1 < commandArgumentLimit)
      (hpages : 0x100000000 ≤ argumentPages state.machine.memory.size texts) :
      Copying texts state (.error .memoryOverflow state)
  /-- The memory does not grow. -/
  | noRoom (hshort : ∀ text ∈ texts, text.length + 1 < commandArgumentLimit)
      (hpages : argumentPages state.machine.memory.size texts < 0x100000000) {error : Error} {after : MemoryState}
      (hgrow : LinearMemory.growTo (argumentPages state.machine.memory.size texts)
        ⟨state.machine.memory, state.env.heap⟩ = .error error after) :
      Copying texts state (.error error (state.withMemory after))
  /-- The memory grows, but a hard cap leaves too little room. -/
  | cutShort (hshort : ∀ text ∈ texts, text.length + 1 < commandArgumentLimit)
      (hpages : argumentPages state.machine.memory.size texts < 0x100000000) {after : MemoryState}
      (hgrow : LinearMemory.growTo (argumentPages state.machine.memory.size texts)
        ⟨state.machine.memory, state.env.heap⟩ = .ok () after)
      (hcut : after.memory.size < argumentStop state.machine.memory.size texts) :
      Copying texts state (.error .memoryOverflow (state.withMemory after))
  /-- The memory grows, but some place is no 32-bit number. The strings before it are stored. -/
  | outOfReach (hshort : ∀ text ∈ texts, text.length + 1 < commandArgumentLimit)
      (hpages : argumentPages state.machine.memory.size texts < 0x100000000) {after : MemoryState}
      (hgrow : LinearMemory.growTo (argumentPages state.machine.memory.size texts)
        ⟨state.machine.memory, state.env.heap⟩ = .ok () after)
      (hroom : argumentStop state.machine.memory.size texts ≤ after.memory.size)
      (hreach : 0x100000000 ≤ state.machine.memory.size ∨
        ∃ index < texts.length, 0x100000000 ≤ argumentPlace state.machine.memory.size texts index)
      {state' : MachineState} (hstored : (state.withMemory after).Rewrites state.machine.memory.size state') :
      Copying texts state (.error .memoryOverflow state')
  /-- The arguments stand behind the old bytes. -/
  | copied (hshort : ∀ text ∈ texts, text.length + 1 < commandArgumentLimit)
      (hpages : argumentPages state.machine.memory.size texts < 0x100000000) {after : MemoryState}
      (hgrow : LinearMemory.growTo (argumentPages state.machine.memory.size texts)
        ⟨state.machine.memory, state.env.heap⟩ = .ok () after)
      (hroom : argumentStop state.machine.memory.size texts ≤ after.memory.size)
      (hbase : state.machine.memory.size < 0x100000000)
      (hreach : ∀ index < texts.length, argumentPlace state.machine.memory.size texts index < 0x100000000) :
      Copying texts state (.ok state.machine.memory.size ((state.withMemory after).withBytes
        (argumentImage state.machine.memory.bytes.toList texts
          (after.memory.size - argumentStop state.machine.memory.size texts))))

/-- A memory that was grown for command arguments has zeros where they go. -/
theorem withMemory_eq_withBytes {texts : List (List UInt8)} {after : MemoryState} {pages : Nat}
    (hgrow : LinearMemory.growTo pages ⟨state.machine.memory, state.env.heap⟩ = .ok () after)
    (hroom : argumentStop state.machine.memory.size texts ≤ after.memory.size) :
    state.withMemory after = (state.withMemory after).withBytes
      (state.machine.memory.bytes.toList ++ List.replicate (4 * texts.length) 0 ++ [] ++
        List.replicate (textSize texts + (after.memory.size - argumentStop state.machine.memory.size texts)) 0) := by
  have hbytes : after.memory.bytes = state.machine.memory.bytes ++ _ := LinearMemory.bytes_growTo hgrow
  have hzeros : after.memory.size - state.machine.memory.size =
      4 * texts.length + (textSize texts + (after.memory.size - argumentStop state.machine.memory.size texts)) := by
    rw [argumentStop_eq] at hroom ⊢
    omega
  rw [List.append_nil, List.append_assoc, List.replicate_append_replicate, ← hzeros]
  have hlist : state.machine.memory.bytes.toList ++
      List.replicate (after.memory.size - state.machine.memory.size) 0 = after.memory.bytes.toList := by
    rw [hbytes, Array.toList_append, Array.toList_replicate]
  rw [hlist]
  rfl

/-- Storing the arguments once the memory has grown far enough. -/
theorem copying_stored {texts : List (List UInt8)} (hshort : ∀ text ∈ texts, text.length + 1 < commandArgumentLimit)
    (hpages : argumentPages state.machine.memory.size texts < 0x100000000) {after : MemoryState}
    (hgrow : LinearMemory.growTo (argumentPages state.machine.memory.size texts)
      ⟨state.machine.memory, state.env.heap⟩ = .ok () after)
    (hroom : argumentStop state.machine.memory.size texts ≤ after.memory.size)
    (hbase : state.machine.memory.size < 0x100000000) :
    Copying texts state ((storeArguments state.machine.memory.size
      (state.machine.memory.size + texts.length * 4) texts >>= fun _ => pure state.machine.memory.size)
        (state.withMemory after)) := by
  have hzeros := withMemory_eq_withBytes hgrow hroom
  have hplace : state.machine.memory.size + 4 * texts.length =
      state.machine.memory.bytes.toList.length + 4 * texts.length + ([] : List UInt8).length := by
    rw [length_bytes, List.length_nil, Nat.add_zero]
  rw [Nat.mul_comm texts.length 4]
  by_cases hreach : ∀ index < texts.length, argumentPlace state.machine.memory.size texts index < 0x100000000
  · have hstore := storeArguments_eq_ok (state.withMemory after) hplace hreach
      (after.memory.size - argumentStop state.machine.memory.size texts)
    rw [← hzeros, length_bytes, List.append_nil] at hstore
    rw [run_bind_of_ok hstore]
    have hcopied := Copying.copied hshort hpages hgrow hroom hbase hreach
    rw [argumentImage, length_bytes] at hcopied
    exact hcopied
  · have hreach : ∃ index < texts.length, 0x100000000 ≤ argumentPlace state.machine.memory.size texts index := by
      simpa using hreach
    obtain ⟨state', hstore⟩ := storeArguments_eq_error (state.withMemory after) hplace hreach
      (after.memory.size - argumentStop state.machine.memory.size texts)
    rw [← hzeros, length_bytes] at hstore
    have hstored := rewrites_storeArguments (Nat.le_refl state.machine.memory.size)
      (Nat.le_add_right state.machine.memory.size (4 * texts.length)) texts (state.withMemory after)
    rw [hstore] at hstored
    rw [run_bind_of_error hstore]
    exact .outOfReach hshort hpages hgrow hroom (.inr hreach) hstored

/-- Copying ends in one of these ways. -/
theorem copying (texts : List (List UInt8)) (state : MachineState) :
    Copying texts state (copyArguments texts state) := by
  unfold copyArguments
  by_cases hlong : (texts.any fun text => text.length + 1 ≥ commandArgumentLimit) = true
  · rw [run_bind_of_error (run_failIf hlong _ _)]
    exact .tooLong (by simpa using hlong)
  have hshort : ∀ text ∈ texts, text.length + 1 < commandArgumentLimit := by simpa using hlong
  rw [failIf_of_not hlong, pure_bind, run_get_bind]
  change Copying texts state ((do
    failIf (argumentStop state.machine.memory.size texts ≥ 0x10000000000000000) .memoryOverflow
    failIf (argumentPages state.machine.memory.size texts ≥ 0x100000000) .memoryOverflow
    onMemory (LinearMemory.growTo (argumentPages state.machine.memory.size texts))
    failIf ((← get).machine.memory.size < argumentStop state.machine.memory.size texts) .memoryOverflow
    failIf (state.machine.memory.size ≥ 0x100000000) .memoryOverflow
    storeArguments state.machine.memory.size (state.machine.memory.size + texts.length * 4) texts
    return state.machine.memory.size : MachineM Nat) state)
  by_cases hpages : argumentPages state.machine.memory.size texts ≥ 0x100000000
  · by_cases hstop : argumentStop state.machine.memory.size texts ≥ 0x10000000000000000
    · rw [run_bind_of_error (run_failIf hstop _ _)]
      exact .tooMany hshort hpages
    · rw [failIf_of_not hstop, pure_bind, run_bind_of_error (run_failIf hpages _ _)]
      exact .tooMany hshort hpages
  have hstop : ¬argumentStop state.machine.memory.size texts ≥ 0x10000000000000000 := by
    have hle := argumentStop_le state.machine.memory.size texts
    simp only [pageSize] at hle
    omega
  rw [failIf_of_not hstop, pure_bind, failIf_of_not hpages, pure_bind]
  have hpages : argumentPages state.machine.memory.size texts < 0x100000000 := Nat.lt_of_not_le hpages
  cases hgrow : LinearMemory.growTo (argumentPages state.machine.memory.size texts)
      ⟨state.machine.memory, state.env.heap⟩ with
  | error error after =>
    rw [run_bind_of_error (onMemory_of_error hgrow)]
    exact .noRoom hshort hpages hgrow
  | ok done after =>
    rw [run_bind_of_ok (onMemory_of_ok hgrow), run_get_bind]
    by_cases hcut : (state.withMemory after).machine.memory.size < argumentStop state.machine.memory.size texts
    · rw [run_bind_of_error (run_failIf hcut _ _)]
      exact .cutShort hshort hpages hgrow hcut
    rw [failIf_of_not hcut, pure_bind]
    have hroom := Nat.le_of_not_lt hcut
    by_cases hbase : state.machine.memory.size ≥ 0x100000000
    · rw [run_bind_of_error (run_failIf hbase _ _)]
      exact .outOfReach hshort hpages hgrow hroom (.inl hbase) (Std.Refl.refl _)
    · rw [failIf_of_not hbase, pure_bind]
      exact copying_stored hshort hpages hgrow hroom (Nat.lt_of_not_le hbase)

end Machine

end WasmEngine
