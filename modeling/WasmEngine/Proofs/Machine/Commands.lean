import WasmEngine.Proofs.Machine.Arguments
import WasmEngine.Proofs.Session.Success

/-!
# Command calls

`Machine.enterMain` is the part of a command call before its code runs, `Machine.Entering` lists the ways in which it
can end, and `Machine.LaidOut` says where the arguments are when the code starts to run.
-/

namespace WasmEngine.Machine

open MachineM MachineState

variable {module function : Nat} {arguments : List String} {state : MachineState} {texts : List (List UInt8)}

/-! ## Entering -/

/-- A command call up to the moment at which its code runs. -/
def enterMain (module function : Nat) (arguments : List String) : MachineM (CodeRef × Func) := do
  let found ← entryPoint module function
  if !arguments.isEmpty then placeArguments arguments
  return found

/-- Then the code runs. -/
theorem invokeMain_eq (module function : Nat) (arguments : List String) :
    invokeMain module function arguments = (do
      let found ← enterMain module function arguments
      run module found.1 found.2.type.type .ordinary) := by
  unfold invokeMain enterMain
  rw [bind_assoc]
  refine congrArg (Bind.bind _) (funext fun found => ?_)
  cases arguments with
  | nil => simp
  | cons argument arguments => simp

theorem callMain_of_entered {found : CodeRef × Func} {entered : MachineState}
    (h : enterMain module function arguments state = .ok found entered) :
    callMain module function arguments state =
      recording (callRecord module function) (run module found.1 found.2.type.type .ordinary) entered := by
  unfold callMain recording
  rw [invokeMain_eq, run_bind_of_ok h]

/-- A command call that is refused is recorded. -/
theorem callMain_of_refused {error : Error} {state' : MachineState}
    (h : enterMain module function arguments state = .error error state') :
    callMain module function arguments state =
      .error error ⟨state'.env, state'.machine.record error (state'.machine.moduleName module)
        (state'.machine.describe module function) ""⟩ := by
  unfold callMain recording
  rw [invokeMain_eq, run_bind_of_error h]
  rfl

/-- Looking up an entry changes nothing. -/
theorem entryPoint_cases (module function : Nat) (state : MachineState) :
    (∃ found, entryPoint module function state = .ok found state) ∨
      ∃ error ∈ [Error.functionLookupFailed, .functionIndexOutOfRange, .missingCode],
        entryPoint module function state = .error error state := by
  unfold entryPoint
  rw [run_get_bind]
  cases state.machine.modules[module]? with
  | none => exact .inr ⟨_, List.mem_cons_self, rfl⟩
  | some found =>
    dsimp only
    cases found.functions[function]? with
    | none => exact .inr ⟨_, List.mem_cons_of_mem _ List.mem_cons_self, rfl⟩
    | some func =>
      dsimp only
      cases func.code with
      | none => exact .inr ⟨_, List.mem_cons_of_mem _ (List.mem_cons_of_mem _ List.mem_cons_self), rfl⟩
      | some entry => exact .inl ⟨_, rfl⟩

section Entered

variable {found : CodeRef × Func} (hentry : entryPoint module function state = .ok found state)

include hentry

theorem enterMain_of_none (hnone : arguments = []) : enterMain module function arguments state = .ok found state := by
  subst hnone
  unfold enterMain
  rw [run_bind_of_ok hentry]
  rfl

variable (hsome : arguments ≠ [])

include hsome

theorem enterMain_of_some :
    enterMain module function arguments state = (do placeArguments arguments; return found) state := by
  unfold enterMain
  rw [run_bind_of_ok hentry, if_pos (by simpa using hsome)]

theorem enterMain_of_many (hcount : 0x100000000 ≤ arguments.length) :
    enterMain module function arguments state = .error .insaneArgumentCount state := by
  rw [enterMain_of_some hentry hsome]
  exact run_bind_of_error (run_bind_of_error (run_failIf hcount _ _))

variable (hcount : arguments.length < 0x100000000)

include hcount

theorem enterMain_of_tinyStack (hslots : state.machine.stack.size < 2) :
    enterMain module function arguments state = .error (.trap .stackOverflow) state := by
  rw [enterMain_of_some hentry hsome]
  refine run_bind_of_error ?_
  unfold placeArguments
  rw [failIf_of_not (Nat.not_le.2 hcount), pure_bind, run_get_bind]
  exact run_bind_of_error (run_failIf hslots _ _)

variable (hslots : 2 ≤ state.machine.stack.size)

include hslots

theorem enterMain_of_refused {error : Error} {state' : MachineState}
    (hcopy : copyArguments (arguments.map Text.Utf8.encode) state = .error error state') :
    enterMain module function arguments state = .error error state' := by
  rw [enterMain_of_some hentry hsome]
  refine run_bind_of_error ?_
  unfold placeArguments
  rw [failIf_of_not (Nat.not_le.2 hcount), pure_bind, run_get_bind, failIf_of_not (Nat.not_lt.2 hslots), pure_bind]
  exact run_bind_of_error hcopy

theorem enterMain_of_copied {table : Nat} {between : MachineState}
    (hcopy : copyArguments (arguments.map Text.Utf8.encode) state = .ok table between) :
    enterMain module function arguments state = .ok found (between.withSlots arguments.length table) := by
  have hplace : placeArguments arguments state = .ok () (between.withSlots arguments.length table) := by
    unfold placeArguments
    rw [failIf_of_not (Nat.not_le.2 hcount), pure_bind, run_get_bind, failIf_of_not (Nat.not_lt.2 hslots), pure_bind]
    exact run_bind_of_ok hcopy
  rw [enterMain_of_some hentry hsome, run_bind_of_ok hplace]
  rfl

end Entered

/-- The ways in which a command call can go until its code runs. -/
inductive Entering (module function : Nat) (arguments : List String) (state : MachineState) :
    EStateM.Result Error MachineState (CodeRef × Func) → Prop where
  /-- There is no such function, or it has no code. -/
  | unknown {error : Error} (herror : error ∈ [Error.functionLookupFailed, .functionIndexOutOfRange, .missingCode])
      (hentry : entryPoint module function state = .error error state) :
      Entering module function arguments state (.error error state)
  /-- There are no arguments. -/
  | plain {found : CodeRef × Func} (hentry : entryPoint module function state = .ok found state)
      (hnone : arguments = []) : Entering module function arguments state (.ok found state)
  /-- The number of arguments has more than 32 bits. -/
  | tooMany {found : CodeRef × Func} (hentry : entryPoint module function state = .ok found state)
      (hsome : arguments ≠ []) (hcount : 0x100000000 ≤ arguments.length) :
      Entering module function arguments state (.error .insaneArgumentCount state)
  /-- There are no two slots. -/
  | tinyStack {found : CodeRef × Func} (hentry : entryPoint module function state = .ok found state)
      (hsome : arguments ≠ []) (hcount : arguments.length < 0x100000000) (hslots : state.machine.stack.size < 2) :
      Entering module function arguments state (.error (.trap .stackOverflow) state)
  /-- The arguments are not copied. -/
  | refused {found : CodeRef × Func} (hentry : entryPoint module function state = .ok found state)
      (hsome : arguments ≠ []) (hcount : arguments.length < 0x100000000) (hslots : 2 ≤ state.machine.stack.size)
      {error : Error} {state' : MachineState}
      (hcopying : Copying (arguments.map Text.Utf8.encode) state (.error error state')) :
      Entering module function arguments state (.error error state')
  /-- The arguments are handed over. -/
  | placed {found : CodeRef × Func} (hentry : entryPoint module function state = .ok found state)
      (hsome : arguments ≠ []) (hcount : arguments.length < 0x100000000) (hslots : 2 ≤ state.machine.stack.size)
      {table : Nat} {between : MachineState}
      (hcopying : Copying (arguments.map Text.Utf8.encode) state (.ok table between)) :
      Entering module function arguments state (.ok found (between.withSlots arguments.length table))

/-- It goes in one of these ways. -/
theorem entering (module function : Nat) (arguments : List String) (state : MachineState) :
    Entering module function arguments state (enterMain module function arguments state) := by
  rcases entryPoint_cases module function state with ⟨found, hentry⟩ | ⟨error, herror, hentry⟩
  · by_cases hnone : arguments = []
    · rw [enterMain_of_none hentry hnone]
      exact .plain hentry hnone
    rcases Nat.lt_or_ge arguments.length 0x100000000 with hcount | hcount
    · rcases Nat.lt_or_ge state.machine.stack.size 2 with hslots | hslots
      · rw [enterMain_of_tinyStack hentry hnone hcount hslots]
        exact .tinyStack hentry hnone hcount hslots
      have hcopying := copying (arguments.map Text.Utf8.encode) state
      cases hcopy : copyArguments (arguments.map Text.Utf8.encode) state with
      | error error state' =>
        rw [hcopy] at hcopying
        rw [enterMain_of_refused hentry hnone hcount hslots hcopy]
        exact .refused hentry hnone hcount hslots hcopying
      | ok table between =>
        rw [hcopy] at hcopying
        rw [enterMain_of_copied hentry hnone hcount hslots hcopy]
        exact .placed hentry hnone hcount hslots hcopying
    · rw [enterMain_of_many hentry hnone hcount]
      exact .tooMany hentry hnone hcount
  · have hunknown : enterMain module function arguments state = .error error state := run_bind_of_error hentry
    rw [hunknown]
    exact .unknown herror hentry

/-! ## Arguments in place -/

/-- What a command finds: the number of its arguments in slot 0, the old end of linear memory in slot 1, and from there
on a table of pointers and the strings, each with a closing zero. -/
structure LaidOut (memory : LinearMemory) (texts : List (List UInt8)) (exec : ExecState) : Prop where
  count : ∃ slot, exec.stack[0]? = some slot ∧ slot.toNat = texts.length
  table : ∃ slot, exec.stack[1]? = some slot ∧ slot.toNat = memory.size
  pointer : ∀ index < texts.length, ∃ bytes, exec.memory.read (memory.size + 4 * index) 4 = .ok bytes ∧
    Reader.littleEndian bytes = argumentPlace memory.size texts index
  text : ∀ (index : Nat) (h : index < texts.length),
    exec.memory.read (argumentPlace memory.size texts index) (texts[index].length + 1) = .ok (texts[index] ++ [0])
  old : ∀ place < memory.size, exec.memory.bytes[place]? = memory.bytes[place]?
  rest : ∀ place, argumentStop memory.size texts ≤ place → place < exec.memory.size → exec.memory.bytes[place]? = some 0
  pages : exec.memory.numPages = argumentPages memory.size texts
  size : exec.memory.size = exec.memory.numPages * pageSize
  short : ∀ text ∈ texts, text.length < 3999

/-- A memory that has room for the arguments after growing has grown as far as it was asked to. -/
theorem growTo_reached (hsome : texts ≠ []) {memory : LinearMemory} {heap : Heap} {after : MemoryState}
    (hgrow : LinearMemory.growTo (argumentPages memory.size texts) ⟨memory, heap⟩ = .ok () after)
    (hroom : argumentStop memory.size texts ≤ after.memory.size) :
    after.memory.numPages = argumentPages memory.size texts ∧
      after.memory.size = argumentPages memory.size texts * pageSize := by
  have hmore := Nat.lt_of_lt_of_le (lt_argumentStop memory.size hsome) hroom
  obtain ⟨-, -, hsize, hpages⟩ := LinearMemory.growTo_committed hgrow hmore
  have hle := LinearMemory.targetSize_le memory (argumentPages memory.size texts)
  obtain ⟨count, hcount⟩ := LinearMemory.dvd_targetSize memory (argumentPages memory.size texts)
  have hpositive : 0 < pageSize := by decide
  have hdiv : memory.targetSize (argumentPages memory.size texts) / pageSize = count := by
    rw [hcount, Nat.mul_div_cancel_left count hpositive]
  have hupper : count ≤ argumentPages memory.size texts := by
    rw [← hdiv]
    exact Nat.div_le_of_le_mul (by rwa [Nat.mul_comm])
  -- Fewer pages would end before the last string does.
  have hlower : argumentPages memory.size texts ≤ count := by
    rw [hsize, hcount] at hroom
    unfold argumentPages
    rw [← Nat.lt_succ_iff, Nat.div_lt_iff_lt_mul hpositive, Nat.succ_mul, Nat.mul_comm]
    omega
  have heq := Nat.le_antisymm hupper hlower
  rw [hpages, hdiv, hsize, hcount, Nat.mul_comm, heq]
  exact ⟨rfl, rfl⟩

section Layout

variable {memory : LinearMemory} {exec : ExecState} {spare : Nat}
  (himage : exec.memory.bytes.toList = argumentImage memory.bytes.toList texts spare)

include himage

theorem read_pointer (hreach : ∀ index < texts.length, argumentPlace memory.size texts index < 0x100000000)
    {index : Nat} (h : index < texts.length) :
    ∃ bytes, exec.memory.read (memory.size + 4 * index) 4 = .ok bytes ∧
      Reader.littleEndian bytes = argumentPlace memory.size texts index := by
  obtain ⟨before, rest, hsplit, hbefore⟩ := argumentImage_pointer memory.bytes.toList spare h
  rw [length_bytes] at hsplit hbefore
  refine ⟨_, ?_, littleEndian_bytesOfU32 (hreach index h)⟩
  rw [← hbefore]
  exact LinearMemory.read_spliced (himage.trans hsplit)

theorem read_text {index : Nat} (h : index < texts.length) :
    exec.memory.read (argumentPlace memory.size texts index) (texts[index].length + 1) = .ok (texts[index] ++ [0]) := by
  obtain ⟨before, rest, hsplit, hbefore⟩ := argumentImage_text memory.bytes.toList spare h
  rw [length_bytes] at hbefore
  have hread := LinearMemory.read_spliced (himage.trans hsplit)
  rwa [hbefore, List.length_append] at hread

theorem size_image : exec.memory.size = argumentStop memory.size texts + spare := by
  rw [← length_bytes, himage, length_argumentImage, length_bytes]

theorem image_old {place : Nat} (h : place < memory.size) :
    exec.memory.bytes[place]? = memory.bytes[place]? := by
  rw [← length_bytes] at h
  rw [← Array.getElem?_toList, himage, argumentImage_old _ _ h, Array.getElem?_toList]

theorem image_rest {place : Nat} (hstop : argumentStop memory.size texts ≤ place) (h : place < exec.memory.size) :
    exec.memory.bytes[place]? = some 0 := by
  rw [size_image himage] at h
  rw [← length_bytes] at hstop h
  rw [← Array.getElem?_toList, himage, argumentImage_rest _ _ hstop h]

end Layout

theorem slot_count {stack : Array Slot} (h : 2 ≤ stack.size) (count table : Slot) :
    ((stack.setIfInBounds 0 count).setIfInBounds 1 table)[0]? = some count := by
  rw [Array.getElem?_setIfInBounds_ne (by decide), Array.getElem?_setIfInBounds_self_of_lt (by omega)]

theorem slot_table {stack : Array Slot} (h : 2 ≤ stack.size) (count table : Slot) :
    ((stack.setIfInBounds 0 count).setIfInBounds 1 table)[1]? = some table := by
  rw [Array.getElem?_setIfInBounds_self_of_lt (by rw [Array.size_setIfInBounds]; omega)]

/-- Arguments that were copied are laid out. -/
theorem laidOut_copied (hsome : texts ≠ []) (hcount : texts.length < 0x100000000)
    (hslots : 2 ≤ state.machine.stack.size) {table : Nat} {between : MachineState}
    (hcopying : Copying texts state (.ok table between)) :
    LaidOut state.machine.memory texts (between.withSlots texts.length table).toExec := by
  cases hcopying with
  | @copied hshort hpages after hgrow hroom hbase hreach =>
    generalize hentered : (((state.withMemory after).withBytes _).withSlots texts.length _) = entered
    have hstack : entered.toExec.stack = (state.machine.stack.setIfInBounds 0 (.ofNat texts.length)).setIfInBounds 1
        (.ofNat state.machine.memory.size) := by
      rw [← hentered]
      rfl
    have hnumPages : entered.toExec.memory.numPages = after.memory.numPages := by
      rw [← hentered]
      rfl
    have himage : entered.toExec.memory.bytes.toList = argumentImage state.machine.memory.bytes.toList texts
        (after.memory.size - argumentStop state.machine.memory.size texts) := by
      rw [← hentered]
      rfl
    obtain ⟨hpages, hsize⟩ := growTo_reached hsome hgrow hroom
    constructor
    case count =>
      refine ⟨_, by rw [hstack, slot_count hslots], ?_⟩
      rw [UInt64.toNat_ofNat']
      omega
    case table =>
      refine ⟨_, by rw [hstack, slot_table hslots], ?_⟩
      rw [UInt64.toNat_ofNat']
      omega
    case pointer => exact fun index => read_pointer himage hreach
    case text => exact fun index => read_text himage
    case old => exact fun place => image_old himage
    case rest => exact fun place => image_rest himage
    case pages => exact hnumPages.trans hpages
    case size =>
      rw [size_image himage, hnumPages, hpages, ← hsize]
      exact Nat.add_sub_cancel' hroom
    case short =>
      intro text hmem
      exact Nat.lt_of_succ_lt_succ (hshort text hmem)

/-- What it takes to hand command arguments over: the memory grows far enough, and places have 32 bits. -/
structure Admits (state : MachineState) (texts : List (List UInt8)) : Prop where
  count : texts.length < 0x100000000
  short : ∀ text ∈ texts, text.length < 3999
  pages : argumentPages state.machine.memory.size texts < 0x100000000
  room : ∃ after, LinearMemory.growTo (argumentPages state.machine.memory.size texts)
      ⟨state.machine.memory, state.env.heap⟩ = .ok () after ∧
    argumentStop state.machine.memory.size texts ≤ after.memory.size
  base : state.machine.memory.size < 0x100000000
  reach : ∀ index < texts.length, argumentPlace state.machine.memory.size texts index < 0x100000000

theorem Copying.admits (hcount : texts.length < 0x100000000) {table : Nat} {between : MachineState}
    (h : Copying texts state (.ok table between)) : Admits state texts := by
  cases h with
  | copied hshort hpages hgrow hroom hbase hreach =>
    refine ⟨hcount, ?_, hpages, ⟨_, hgrow, hroom⟩, hbase, hreach⟩
    intro text hmem
    exact Nat.lt_of_succ_lt_succ (hshort text hmem)

/-- Arguments that can be handed over are not refused. -/
theorem Admits.not_refused (h : Admits state texts) {error : Error} {state' : MachineState} :
    ¬Copying texts state (.error error state') := by
  obtain ⟨after, hgrow, hroom⟩ := h.room
  rintro (⟨text, hmem, hlong⟩ | ⟨-, hpages⟩ | ⟨-, -, hfailed⟩ | ⟨-, -, hgrow', hcut⟩ | ⟨-, -, -, -, hreach, -⟩)
  · exact absurd (Nat.succ_lt_succ (h.short text hmem)) (Nat.not_lt.2 hlong)
  · exact absurd h.pages (Nat.not_lt.2 hpages)
  · cases hgrow.symm.trans hfailed
  · cases hgrow.symm.trans hgrow'
    exact absurd hroom (Nat.not_le.2 hcut)
  · rcases hreach with hbase | ⟨index, hlt, hplace⟩
    · exact absurd h.base (Nat.not_lt.2 hbase)
    · exact absurd (h.reach index hlt) (Nat.not_lt.2 hplace)

/-- Nothing is done for arguments one of which is too long. -/
theorem Copying.of_long {text : List UInt8} (hmem : text ∈ texts) (hlong : 3999 ≤ text.length)
    {result : EStateM.Result Error MachineState Nat} (h : Copying texts state result) :
    result = .error .insaneArgumentLength state := by
  have hnot : ¬∀ text ∈ texts, text.length + 1 < commandArgumentLimit := fun hshort =>
    absurd (hshort text hmem) (Nat.not_lt.2 (Nat.succ_le_succ hlong))
  cases h with
  | tooLong => rfl
  | tooMany hshort => exact absurd hshort hnot
  | noRoom hshort => exact absurd hshort hnot
  | cutShort hshort => exact absurd hshort hnot
  | outOfReach hshort => exact absurd hshort hnot
  | copied hshort => exact absurd hshort hnot

theorem entryPoint_of_code {found : Module} {func : Func} {entry : CodeRef}
    (hmodule : state.machine.modules[module]? = some found) (hfunc : found.functions[function]? = some func)
    (hcode : func.code = some entry) : entryPoint module function state = .ok (entry, func) state := by
  unfold entryPoint
  rw [run_get_bind]
  simp only [hmodule, hfunc, hcode]
  rfl

/-- A command call with arguments runs its code exactly if the arguments can be handed over, and then the code finds
them laid out behind the old end of linear memory. An argument of 3999 bytes or more is refused, unless there are 2^32
arguments or more: those are refused first, as `insaneArgumentCount`. -/
theorem command_laid_out {found : Module} {func : Func} {entry : CodeRef}
    (hmodule : state.machine.modules[module]? = some found) (hfunc : found.functions[function]? = some func)
    (hcode : func.code = some entry) (hslots : 2 ≤ state.machine.stack.size) (hsome : arguments ≠ []) :
    ((∃ entered, enterMain module function arguments state = .ok (entry, func) entered) ↔
      Admits state (arguments.map Text.Utf8.encode)) ∧
    (∀ entered, enterMain module function arguments state = .ok (entry, func) entered →
      callMain module function arguments state =
        recording (callRecord module function) (run module entry func.type.type .ordinary) entered ∧
      LaidOut state.machine.memory (arguments.map Text.Utf8.encode) entered.toExec) ∧
    ((∃ argument ∈ arguments, 3999 ≤ (Text.Utf8.encode argument).length) →
      resultOf (callMain module function arguments state) =
        .error (if arguments.length < 0x100000000 then .insaneArgumentLength else .insaneArgumentCount)) := by
  have hentry := entryPoint_of_code hmodule hfunc hcode
  have hentering := entering module function arguments state
  refine ⟨⟨?_, ?_⟩, ?_, ?_⟩
  · rintro ⟨entered, hentered⟩
    rw [hentered] at hentering
    cases hentering with
    | plain _ hnone => exact absurd hnone hsome
    | placed _ _ hcount _ hcopying => exact hcopying.admits (by rwa [List.length_map])
  · intro hadmits
    generalize enterMain module function arguments state = result at hentering ⊢
    cases hentering with
    | unknown _ hunknown => cases hentry.symm.trans hunknown
    | plain _ hnone => exact absurd hnone hsome
    | tooMany _ _ hcount =>
      have hfew := hadmits.count
      rw [List.length_map] at hfew
      exact absurd hfew (Nat.not_lt.2 hcount)
    | tinyStack _ _ _ hfew => exact absurd hslots (Nat.not_le.2 hfew)
    | refused _ _ _ _ hcopying => exact absurd hcopying hadmits.not_refused
    | placed hfound =>
      cases hentry.symm.trans hfound
      exact ⟨_, rfl⟩
  · intro entered hentered
    refine ⟨callMain_of_entered hentered, ?_⟩
    rw [hentered] at hentering
    cases hentering with
    | plain _ hnone => exact absurd hnone hsome
    | placed _ _ hcount _ hcopying =>
      have hlaid := laidOut_copied (by simpa using hsome) (by rwa [List.length_map]) hslots hcopying
      rwa [List.length_map] at hlaid
  · rintro ⟨argument, hmem, hlong⟩
    by_cases hcount : arguments.length < 0x100000000
    · have hcopy := (copying (arguments.map Text.Utf8.encode) state).of_long (List.mem_map_of_mem hmem) hlong
      rw [callMain_of_refused (enterMain_of_refused hentry hsome hcount hslots hcopy), if_pos hcount]
      rfl
    · rw [callMain_of_refused (enterMain_of_many hentry hsome (Nat.le_of_not_lt hcount)), if_neg hcount]
      rfl

/-- A machine with eight slots and one function, and a memory that may have so many pages. -/
def commanded (maxPages : Nat) (limit : Option Nat) : MachineState where
  env := {}
  machine :=
    { id := ⟨1⟩
      modules := #[{ functions := #[{ type := ⟨0, ⟨none, []⟩⟩, label := .anonymous, code := some ⟨0, 0⟩ }] }]
      memory := { header := { owner := ⟨1⟩, maxStack := 8 }, maxPages, limit }
      stack := Array.replicate 8 0 }

/-- Its memory grows as far as its maximum and its hard cap let it. -/
theorem growTo_commanded (pages maxPages : Nat) (limit : Option Nat) (hmax : pages ≤ maxPages)
    (hmore : 0 < (commanded maxPages limit).machine.memory.targetSize pages) :
    ∃ after, LinearMemory.growTo pages
          ⟨(commanded maxPages limit).machine.memory, (commanded maxPages limit).env.heap⟩ = .ok () after ∧
        after.memory.size = (commanded maxPages limit).machine.memory.targetSize pages := by
  have hgrowth := LinearMemory.growth pages
    ⟨(commanded maxPages limit).machine.memory, (commanded maxPages limit).env.heap⟩
  generalize LinearMemory.growTo pages _ = result at hgrowth ⊢
  cases hgrowth with
  | excess hexcess => exact absurd hmax (Nat.not_le.2 hexcess)
  | enough _ henough =>
    rcases henough with hpages | hbytes
    · have hnone := LinearMemory.targetSize_le (commanded maxPages limit).machine.memory pages
      have hzero : pages = 0 := Nat.le_zero.1 hpages
      rw [hzero, Nat.zero_mul] at hnone
      rw [hzero] at hmore
      exact absurd hmore (Nat.not_lt.2 hnone)
    · exact absurd hmore (Nat.not_lt.2 hbytes)
  | unpaid _ _ hrefused => cases hrefused
  | unbacked _ _ _ hbacks => cases hbacks
  | @grown block heap _ _ htarget _ _ => exact ⟨_, rfl, LinearMemory.size_grown block htarget⟩

theorem admits_greeting : Admits (commanded 1 none) (["hello", "wasm"].map Text.Utf8.encode) where
  count := by decide
  short := by decide +kernel
  pages := by decide +kernel
  room := by
    have hpages : argumentPages (commanded 1 none).machine.memory.size
        (["hello", "wasm"].map Text.Utf8.encode) = 1 := by
      decide +kernel
    obtain ⟨after, hgrow, hsize⟩ := growTo_commanded 1 1 none (by decide) (by decide)
    rw [hpages]
    refine ⟨after, hgrow, ?_⟩
    rw [hsize]
    decide +kernel
  base := by decide
  reach := by decide +kernel

/-- Two strings take up 19 bytes with their pointers. -/
theorem command_laid_out_greeting :
    ∃ entered, callMain 0 0 ["hello", "wasm"] (commanded 1 none) =
        recording (callRecord 0 0) (run 0 ⟨0, 0⟩ ⟨none, []⟩ .ordinary) entered ∧
      LaidOut (commanded 1 none).machine.memory (["hello", "wasm"].map Text.Utf8.encode) entered.toExec := by
  have hmodule : (commanded 1 none).machine.modules[0]? = some _ := rfl
  have hfunc : (commanded 1 none).machine.modules[0].functions[0]? = some _ := rfl
  have hsome : ["hello", "wasm"] ≠ [] := by decide
  obtain ⟨hreaches, hlaid, -⟩ := command_laid_out hmodule hfunc rfl (by decide) hsome
  obtain ⟨entered, hentered⟩ := hreaches.2 admits_greeting
  exact ⟨entered, hlaid entered hentered⟩

end WasmEngine.Machine
