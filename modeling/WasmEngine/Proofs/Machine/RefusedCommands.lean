import WasmEngine.Proofs.Machine.Commands

/-!
# Command calls that are refused

A command call that fails before its code runs has asked the linear memory to grow if the arguments were copied at all,
and the memory stays grown.
-/

namespace WasmEngine.Machine

open MachineM MachineState

variable {module function : Nat} {arguments : List String} {state state' : MachineState} {texts : List (List UInt8)}
  {error : Error}

/-! ## Growing for the arguments -/

/-- Whether the maximum and the hard cap let the memory grow for command arguments. -/
structure Grows (memory : LinearMemory) (texts : List (List UInt8)) : Prop where
  more : memory.numPages < argumentPages memory.size texts
  reach : argumentPages memory.size texts < 0x100000000
  maximum : argumentPages memory.size texts ≤ memory.maxPages
  cap : ∀ limit, memory.limit = some limit → memory.size < limit - limit % pageSize

/-- Then more bytes than there are would be committed. -/
theorem Grows.lt_targetSize {memory : LinearMemory} (h : Grows memory texts)
    (hsome : texts ≠ []) : memory.size < memory.targetSize (argumentPages memory.size texts) := by
  have hstop := Nat.lt_of_lt_of_le (lt_argumentStop memory.size hsome) (argumentStop_le memory.size texts)
  rw [LinearMemory.targetSize_eq]
  cases hlimit : memory.limit with
  | none =>
    rw [Option.elim_none]
    exact hstop
  | some limit =>
    rw [Option.elim_some]
    exact Nat.lt_min.2 ⟨hstop, h.cap limit hlimit⟩

section Growing

variable {memory : LinearMemory} {heap : Heap} {after : MemoryState}
  (hgrow : LinearMemory.growTo (argumentPages memory.size texts) ⟨memory, heap⟩ = .ok () after)

include hgrow

/-- What a memory that grew shows about what it was asked for. -/
theorem Grows.of_growTo (hreach : argumentPages memory.size texts < 0x100000000)
    (hmore : memory.size < after.memory.size) : Grows memory texts := by
  obtain ⟨hpages, hmax, hsize, -⟩ := LinearMemory.growTo_committed hgrow hmore
  refine ⟨hpages, hreach, hmax, ?_⟩
  intro limit hlimit
  rw [hsize] at hmore
  exact Nat.lt_of_lt_of_le hmore (LinearMemory.targetSize_le_limit hlimit _)

/-- A growth that succeeds commits bytes if the maximum and the hard cap admit any. -/
theorem Grows.growTo (h : Grows memory texts) (hsome : texts ≠ []) : memory.size < after.memory.size := by
  have hgrowth := LinearMemory.growth (argumentPages memory.size texts) ⟨memory, heap⟩
  have htarget := h.lt_targetSize hsome
  rw [hgrow] at hgrowth
  cases hgrowth with
  | enough _ henough =>
    rcases henough with hpages | hbytes
    · exact absurd h.more (Nat.not_lt.2 hpages)
    · exact absurd htarget (Nat.not_lt.2 hbytes)
  | @grown block heap _ _ _ _ _ =>
    rw [LinearMemory.size_grown block htarget]
    exact htarget

/-- A hard cap that cuts the growth short is reached. -/
theorem size_cutShort (hmore : memory.size < after.memory.size)
    (hcut : after.memory.size < argumentStop memory.size texts) :
    ∃ limit, memory.limit = some limit ∧ after.memory.size = limit - limit % pageSize := by
  obtain ⟨-, -, hsize, -⟩ := LinearMemory.growTo_committed hgrow hmore
  have hstop := Nat.lt_of_lt_of_le hcut (argumentStop_le memory.size texts)
  rw [LinearMemory.targetSize_eq] at hsize
  cases hlimit : memory.limit with
  | none =>
    rw [hlimit, Option.elim_none] at hsize
    exact absurd hstop (Nat.not_lt.2 (Nat.le_of_eq hsize.symm))
  | some limit =>
    rw [hlimit, Option.elim_some] at hsize
    refine ⟨limit, rfl, ?_⟩
    omega

/-- The bytes that were there stay where they are. -/
theorem getElem?_growTo {place : Nat} (hplace : place < memory.size) :
    after.memory.bytes[place]? = memory.bytes[place]? := by
  have hbytes : after.memory.bytes = memory.bytes ++ _ := LinearMemory.bytes_growTo hgrow
  rw [hbytes, Array.getElem?_append_left hplace]

end Growing

theorem ne_of_size_lt {memory memory' : LinearMemory} (h : memory.size < memory'.size) :
    memory'.bytes ≠ memory.bytes := by
  intro hsame
  unfold LinearMemory.size at h
  rw [hsame] at h
  exact Nat.lt_irrefl _ h

/-! ## Refused calls -/

/-- What a call that was refused leaves behind. Nothing but linear memory changes, and there nothing below the old end.
More bytes are there exactly if the memory overflows although its maximum and its hard cap let it grow. Then it has
grown up to a hard cap that the arguments pass, or they pass what 32-bit addresses reach. -/
structure Refused (texts : List (List UInt8)) (error : Error) (state state' : MachineState) : Prop where
  frame : state'.machine = { state.machine with memory := state'.machine.memory }
  old : ∀ place < state.machine.memory.size, state'.machine.memory.bytes[place]? = state.machine.memory.bytes[place]?
  changed_iff : state'.machine.memory.bytes ≠ state.machine.memory.bytes ↔
    error = .memoryOverflow ∧ Grows state.machine.memory texts
  changed : state'.machine.memory.bytes ≠ state.machine.memory.bytes →
    (∃ limit, state.machine.memory.limit = some limit ∧
      limit - limit % pageSize < argumentStop state.machine.memory.size texts ∧
      state'.machine.memory.bytes = state.machine.memory.bytes ++
        Array.replicate (limit - limit % pageSize - state.machine.memory.size) 0) ∨
    0x100000000 < argumentStop state.machine.memory.size texts ∧ pageCeiling < state.machine.memory.maxPages

theorem Refused.of_same (hframe : state'.machine = { state.machine with memory := state'.machine.memory })
    (hsame : state'.machine.memory.bytes = state.machine.memory.bytes)
    (hnot : error = .memoryOverflow → ¬Grows state.machine.memory texts) : Refused texts error state state' where
  frame := hframe
  old place _ := by rw [hsame]
  changed_iff := ⟨fun hne => absurd hsame hne, fun h => absurd h.2 (hnot h.1)⟩
  changed hne := absurd hsame hne

theorem Refused.of_unchanged (hnot : error = .memoryOverflow → ¬Grows state.machine.memory texts) :
    Refused texts error state state :=
  .of_same rfl rfl hnot

/-- What is left behind if the arguments are not copied. -/
theorem Copying.refused (hsome : texts ≠ []) (h : Copying texts state (.error error state')) :
    Refused texts error state state' := by
  cases h with
  | tooLong hlong => exact .of_unchanged nofun
  | tooMany hshort hpages => exact .of_unchanged fun _ hgrows => absurd hgrows.reach (Nat.not_lt.2 hpages)
  | @noRoom hshort hpages _ after hgrow =>
    obtain ⟨hbytes, hreason⟩ := LinearMemory.growTo_eq_error hgrow
    refine .of_same rfl hbytes ?_
    rintro rfl hgrows
    rcases hreason with ⟨-, hmax, -⟩ | ⟨hreason, -⟩
    · exact absurd hgrows.maximum (Nat.not_le.2 hmax)
    · cases hreason
  | @cutShort hshort hpages after hgrow hcut =>
    have hbytes : after.memory.bytes = state.machine.memory.bytes ++ _ := LinearMemory.bytes_growTo hgrow
    -- The memory may have been as large as the hard cap before.
    by_cases hmore : state.machine.memory.size < after.memory.size
    · refine ⟨rfl, ?_, ?_, ?_⟩
      · exact fun place => getElem?_growTo hgrow
      · exact ⟨fun _ => ⟨rfl, .of_growTo hgrow hpages hmore⟩, fun _ => ne_of_size_lt hmore⟩
      · intro _
        obtain ⟨limit, hlimit, hsize⟩ := size_cutShort hgrow hmore hcut
        rw [hsize] at hbytes hcut
        exact .inl ⟨limit, hlimit, hcut, hbytes⟩
    · refine .of_same rfl ?_ fun _ hgrows => absurd (Grows.growTo hgrow hgrows hsome) hmore
      have hnone : after.memory.size - state.machine.memory.size = 0 := Nat.sub_eq_zero_of_le (Nat.le_of_not_lt hmore)
      rw [hnone, Array.replicate_zero, Array.append_empty] at hbytes
      exact hbytes
  | @outOfReach hshort hpages after hgrow hroom hreach _ hstored =>
    have hmore := Nat.lt_of_lt_of_le (lt_argumentStop state.machine.memory.size hsome) hroom
    have hgrows : Grows state.machine.memory texts := .of_growTo hgrow hpages hmore
    have hsize : state.machine.memory.size < state'.machine.memory.size := by
      rw [hstored.size]
      exact hmore
    refine ⟨?_, ?_, ⟨fun _ => ⟨rfl, hgrows⟩, fun _ => ne_of_size_lt hsize⟩, ?_⟩
    · rw [hstored.frame]
      rfl
    · intro place hplace
      exact (hstored.below place hplace).trans (getElem?_growTo hgrow hplace)
    · intro _
      have hfar : 0x100000000 < argumentStop state.machine.memory.size texts := by
        rcases hreach with hbase | ⟨index, hlt, hplace⟩
        · exact Nat.lt_of_le_of_lt hbase (lt_argumentStop state.machine.memory.size hsome)
        · exact Nat.lt_of_le_of_lt hplace (argumentPlace_lt state.machine.memory.size hlt)
      refine .inr ⟨hfar, ?_⟩
      have hstop := argumentStop_le state.machine.memory.size texts
      have hmaximum := hgrows.maximum
      simp only [pageSize] at hstop
      simp only [pageCeiling]
      omega

/-- A command call that fails before its code runs leaves linear memory as it is, unless the arguments pass a hard cap
that is not reached yet, or the maximum is more than what 32-bit addresses reach. -/
theorem command_refused
    (h : enterMain module function arguments state = .error error state') :
    callMain module function arguments state =
      .error error ⟨state'.env, state'.machine.record error (state'.machine.moduleName module)
        (state'.machine.describe module function) ""⟩ ∧
    Refused (arguments.map Text.Utf8.encode) error state state' := by
  refine ⟨callMain_of_refused h, ?_⟩
  have hentering := entering module function arguments state
  rw [h] at hentering
  cases hentering with
  | unknown herror =>
    refine .of_unchanged ?_
    rintro rfl
    exact absurd herror (by decide)
  | tooMany => exact .of_unchanged nofun
  | tinyStack => exact .of_unchanged nofun
  | refused _ hsome _ _ hcopying => exact hcopying.refused (by simpa using hsome)

/-! ## A hard cap of one page -/

/-- Arguments that pass what the memory has after it has grown are refused, and it stays grown. -/
theorem Copying.of_cut (hshort : ∀ text ∈ texts, text.length < 3999)
    (hpages : argumentPages state.machine.memory.size texts < 0x100000000) {after : MemoryState}
    (hgrow : LinearMemory.growTo (argumentPages state.machine.memory.size texts)
      ⟨state.machine.memory, state.env.heap⟩ = .ok () after)
    (hcut : after.memory.size < argumentStop state.machine.memory.size texts)
    {result : EStateM.Result Error MachineState Nat} (h : Copying texts state result) :
    result = .error .memoryOverflow (state.withMemory after) := by
  cases h with
  | tooLong hlong =>
    obtain ⟨text, hmem, hlong⟩ := hlong
    exact absurd (Nat.succ_lt_succ (hshort text hmem)) (Nat.not_lt.2 hlong)
  | tooMany _ hmany => exact absurd hpages (Nat.not_lt.2 hmany)
  | noRoom _ _ hfailed => cases hgrow.symm.trans hfailed
  | cutShort _ _ hgrow' =>
    cases hgrow.symm.trans hgrow'
    rfl
  | outOfReach _ _ hgrow' hroom =>
    cases hgrow.symm.trans hgrow'
    exact absurd hroom (Nat.not_le.2 hcut)
  | copied _ _ hgrow' hroom =>
    cases hgrow.symm.trans hgrow'
    exact absurd hroom (Nat.not_le.2 hcut)

theorem encode_empty (count : Nat) : (List.replicate count "").map Text.Utf8.encode = List.replicate count [] := by
  rw [List.map_replicate]
  rfl

/-- An empty string takes up five bytes with its pointer. -/
theorem argumentStop_empty (base count : Nat) : argumentStop base (List.replicate count []) = base + 5 * count := by
  have hsize : textSize (List.replicate count []) = count := by
    induction count with
    | zero => rfl
    | succ count ih =>
      rw [List.replicate_succ, textSize, ih, List.length_nil]
      omega
  rw [argumentStop_eq, hsize, List.length_replicate]
  omega

/-- A machine whose memory may have one page. -/
def capped : MachineState :=
  commanded pageCeiling (some pageSize)

/-- Empty strings that take up more than one page and no more than two are refused there. -/
theorem enterMain_capped {count : Nat} (hmore : pageSize < 5 * count) (hfit : 5 * count ≤ 2 * pageSize) :
    ∃ after, enterMain 0 0 (List.replicate count "") capped =
        .error .memoryOverflow (capped.withMemory after) ∧
      after.memory.size = pageSize := by
  simp only [pageSize] at hmore hfit
  have hstop : argumentStop capped.machine.memory.size (List.replicate count []) =
      0 + 5 * count := argumentStop_empty 0 count
  have hpages : argumentPages capped.machine.memory.size (List.replicate count []) = 2 := by
    rw [argumentPages, hstop]
    simp only [pageSize]
    omega
  obtain ⟨after, hgrow, hsize⟩ := growTo_commanded 2 pageCeiling (some pageSize) (by decide) (by decide)
  have hcut : after.memory.size < 0 + 5 * count := by
    rw [hsize]
    exact Nat.lt_of_lt_of_le hmore (Nat.le_add_left ..)
  rw [← hpages] at hgrow
  rw [← hstop] at hcut
  have hshort : ∀ text ∈ List.replicate count ([] : List UInt8), text.length < 3999 := by
    intro text hmem
    rw [List.eq_of_mem_replicate hmem]
    decide
  have hcopy := (copying (List.replicate count []) capped).of_cut hshort
    (by rw [hpages]; decide) hgrow hcut
  rw [← encode_empty] at hcopy
  refine ⟨after, enterMain_of_refused rfl ?_ ?_ (by decide) hcopy, hsize⟩
  · intro hnone
    have hlength := congrArg List.length hnone
    rw [List.length_replicate, List.length_nil] at hlength
    omega
  · rw [List.length_replicate]
    omega

/-- Empty strings that take up 65540 bytes, where a page is the hard cap. -/
theorem command_refused_capped :
    ∃ state', enterMain 0 0 (List.replicate 13108 "") capped =
        .error .memoryOverflow state' ∧
      Grows capped.machine.memory (List.replicate 13108 []) ∧
      state'.machine.memory.bytes = Array.replicate pageSize 0 := by
  obtain ⟨after, hentered, hsize⟩ := enterMain_capped (show pageSize < 5 * 13108 by decide) (by decide)
  obtain ⟨-, hrefused⟩ := command_refused hentered
  rw [encode_empty] at hrefused
  have hmore : capped.machine.memory.size < after.memory.size := by
    rw [hsize]
    decide
  have hchanged := ne_of_size_lt hmore
  refine ⟨_, hentered, (hrefused.changed_iff.1 hchanged).2, ?_⟩
  rcases hrefused.changed hchanged with ⟨limit, hlimit, -, hbytes⟩ | ⟨-, hceiling⟩
  · cases hlimit
    rw [hbytes]
    exact Array.empty_append
  · exact absurd hceiling (by decide)

/-- The memory is empty before the call that fails, and it has a page afterwards. -/
theorem refused_command_grows :
    resultOf (callMain 0 0 (List.replicate 13108 "") capped) = .error .memoryOverflow ∧
      capped.machine.memory.size = 0 ∧
      (stateAfter (callMain 0 0 (List.replicate 13108 "") capped)).machine.memory.size =
        pageSize := by
  obtain ⟨after, hentered, hsize⟩ := enterMain_capped (show pageSize < 5 * 13108 by decide) (by decide)
  rw [callMain_of_refused hentered]
  exact ⟨rfl, rfl, hsize⟩

end WasmEngine.Machine
