import WasmEngine.Memory
import WasmEngine.Proofs.Heap.Arena
import WasmEngine.Proofs.Programs

/-!
# How linear memory grows

`LinearMemory.Growth` lists the ways in which growing can end, and whatever else is said about growing comes from
there. The grant is obtained before the bytes and not given back if there are none (`LinearMemory.Accounted`).
-/

namespace WasmEngine

namespace Heap

variable {heap heap' : Heap} {block block' : Block} {bytes : Nat}

theorem len_allocate (h : heap.allocate bytes = some (block, heap')) : block.len = bytes := by
  cases heap with
  | system inUse =>
    cases h
    rfl
  | arena region =>
    obtain ⟨⟨granted, region'⟩, hserved, hgiven⟩ := Option.map_eq_some_iff.1 h
    cases hgiven
    exact Arena.len_allocate hserved

theorem len_reallocate (h : heap.reallocate block bytes = some (block', heap')) : block'.len = bytes := by
  cases heap with
  | system inUse =>
    cases h
    rfl
  | arena region =>
    obtain ⟨⟨granted, region'⟩, hserved, hgiven⟩ := Option.map_eq_some_iff.1 h
    cases hgiven
    by_cases hlast : region.last = some block
    · rw [Arena.reallocate_last hlast] at hserved
      exact Arena.len_allocate hserved
    · obtain ⟨moved, hmoved, rfl⟩ := Arena.reallocate_moved hlast hserved
      exact Arena.len_allocate hmoved

/-- Hands out bytes, in the place of a block if there is one. -/
def renew (heap : Heap) (grant : Option Block) (bytes : Nat) : Option (Block × Heap) :=
  match grant with
  | none => heap.allocate bytes
  | some block => heap.reallocate block bytes

theorem len_renew {grant : Option Block} (h : heap.renew grant bytes = some (block, heap')) : block.len = bytes := by
  cases grant with
  | none => exact len_allocate h
  | some old => exact len_reallocate h

end Heap

namespace LinearMemory

variable {memory memory' : LinearMemory} {pages bytes : Nat} {state state' : MemoryState}

/-! ## One growth -/

theorem size_overwrite (bytes : Array UInt8) (offset : Nat) (data : List UInt8) :
    (overwrite bytes offset data).size = bytes.size := by
  induction data generalizing bytes offset with
  | nil => rfl
  | cons byte data ih => rw [overwrite, ih, Array.size_setIfInBounds]

theorem size_commit (h : memory.size ≤ bytes) : (memory.commit bytes).size = bytes := by
  change (memory.bytes ++ Array.replicate (bytes - memory.size) 0).size = bytes
  rw [Array.size_append, Array.size_replicate]
  exact Nat.add_sub_cancel' h

/-- What a memory that counts as sized is. -/
def sized (memory : LinearMemory) : LinearMemory :=
  { memory with allocated := true }

theorem sized_of_allocated (h : state.memory.allocated = true) :
    { state with memory := state.memory.sized } = state := by
  unfold sized
  rw [← h]

theorem size_grown (block : Block) (h : memory.size < memory.targetSize pages) :
    (commit { memory.sized with grant := some block } (memory.targetSize pages)).size = memory.targetSize pages :=
  size_commit (Nat.le_of_lt h)

/-- The ways in which growing a memory can end. -/
inductive Growth (pages : Nat) (state : MemoryState) : EStateM.Result Error MemoryState Unit → Prop where
  /-- The pages are more than the maximum. -/
  | excess (hmax : state.memory.maxPages < pages) : Growth pages state (.error .memoryOverflow state)
  /-- There is enough already, or a hard cap leaves no room for more. -/
  | enough (hmax : pages ≤ state.memory.maxPages)
      (henough : pages ≤ state.memory.numPages ∨ state.memory.targetSize pages ≤ state.memory.size) :
      Growth pages state (.ok () { state with memory := state.memory.sized })
  /-- The heap has no room. -/
  | unpaid (hmax : pages ≤ state.memory.maxPages) (hmore : state.memory.size < state.memory.targetSize pages)
      (hrefused : state.heap.renew state.memory.grant (state.memory.targetSize pages) = none) :
      Growth pages state (.error .outOfMemory { state with memory := state.memory.sized })
  /-- The heap pays, and the system does not back the bytes. -/
  | unbacked {block : Block} {heap : Heap} (hmax : pages ≤ state.memory.maxPages)
      (hmore : state.memory.size < state.memory.targetSize pages)
      (hserved : state.heap.renew state.memory.grant (state.memory.targetSize pages) = some (block, heap))
      (hbacks : state.memory.backs (state.memory.targetSize pages) = false) :
      Growth pages state (.error .outOfMemory ⟨{ state.memory.sized with grant := some block }, heap⟩)
  /-- The bytes are committed. -/
  | grown {block : Block} {heap : Heap} (hmax : pages ≤ state.memory.maxPages)
      (hpages : state.memory.numPages < pages) (hmore : state.memory.size < state.memory.targetSize pages)
      (hserved : state.heap.renew state.memory.grant (state.memory.targetSize pages) = some (block, heap))
      (hbacks : state.memory.backs (state.memory.targetSize pages) = true) :
      Growth pages state
        (.ok () ⟨commit { state.memory.sized with grant := some block } (state.memory.targetSize pages), heap⟩)

theorem obtainGrant_of_none (state : MemoryState) (h : state.heap.renew state.memory.grant bytes = none) :
    obtainGrant bytes state = .error .outOfMemory state := by
  unfold obtainGrant
  cases hgrant : state.memory.grant with
  | none =>
    rw [hgrant] at h
    simp only [show state.heap.allocate bytes = none from h]
  | some block =>
    rw [hgrant] at h
    simp only [show state.heap.reallocate block bytes = none from h]

theorem obtainGrant_of_some (state : MemoryState) {block : Block} {heap : Heap}
    (h : state.heap.renew state.memory.grant bytes = some (block, heap)) :
    obtainGrant bytes state = .ok () ⟨{ state.memory with grant := some block }, heap⟩ := by
  unfold obtainGrant
  cases hgrant : state.memory.grant with
  | none =>
    rw [hgrant] at h
    simp only [show state.heap.allocate bytes = some (block, heap) from h]
  | some old =>
    rw [hgrant] at h
    simp only [show state.heap.reallocate old bytes = some (block, heap) from h]

theorem commitBacked_of_backs (state : MemoryState) (h : state.memory.backs bytes = true) :
    commitBacked bytes state = .ok () { state with memory := state.memory.commit bytes } :=
  if_pos h

theorem commitBacked_of_not_backs (state : MemoryState) (h : state.memory.backs bytes = false) :
    commitBacked bytes state = .error .outOfMemory state :=
  if_neg (Bool.eq_false_iff.1 h)

/-- Growing ends in one of these ways. -/
theorem growth (pages : Nat) (state : MemoryState) : Growth pages state (growTo pages state) := by
  by_cases hmax : pages > state.memory.maxPages
  · have hgrow : growTo pages state = .error .memoryOverflow state := by
      unfold growTo
      rw [run_get_bind, if_pos hmax]
      rfl
    rw [hgrow]
    exact .excess hmax
  · have hgrow : growTo pages state =
        (if pages > state.memory.numPages then
          if state.memory.targetSize pages > state.memory.size then do
            obtainGrant (state.memory.targetSize pages)
            commitBacked (state.memory.targetSize pages)
          else pure ()
        else pure () : EStateM Error MemoryState Unit) { state with memory := state.memory.sized } := by
      unfold growTo
      rw [run_get_bind, if_neg hmax]
      rfl
    rw [hgrow]
    have hmax : pages ≤ state.memory.maxPages := Nat.le_of_not_lt hmax
    by_cases hpages : pages > state.memory.numPages
    · by_cases hmore : state.memory.targetSize pages > state.memory.size
      · rw [if_pos hpages, if_pos hmore]
        cases hserved : state.heap.renew state.memory.grant (state.memory.targetSize pages) with
        | none =>
          have hrefused := obtainGrant_of_none { state with memory := state.memory.sized } hserved
          rw [run_bind_of_error hrefused]
          exact .unpaid hmax hmore hserved
        | some served =>
          obtain ⟨block, heap⟩ := served
          have hgranted := obtainGrant_of_some { state with memory := state.memory.sized } hserved
          rw [run_bind_of_ok hgranted]
          change Growth pages state (commitBacked (state.memory.targetSize pages)
            ⟨{ state.memory.sized with grant := some block }, heap⟩)
          cases hbacks : state.memory.backs (state.memory.targetSize pages) with
          | true =>
            rw [commitBacked_of_backs ⟨{ state.memory.sized with grant := some block }, heap⟩ hbacks]
            exact .grown hmax hpages hmore hserved hbacks
          | false =>
            rw [commitBacked_of_not_backs ⟨{ state.memory.sized with grant := some block }, heap⟩ hbacks]
            exact .unbacked hmax hmore hserved hbacks
      · rw [if_pos hpages, if_neg hmore]
        exact .enough hmax (.inr (Nat.le_of_not_lt hmore))
    · rw [if_neg hpages]
      exact .enough hmax (.inl (Nat.le_of_not_lt hpages))

/-! ## What every memory satisfies -/

/-- The bytes are whole pages within the hard cap. The grant is longer than the bytes only if the system did not back
it. -/
structure Accounted (memory : LinearMemory) : Prop where
  pages : memory.size = memory.numPages * pageSize
  length : memory.header.length = memory.size
  capped : ∀ limit, memory.limit = some limit → memory.size ≤ limit - limit % pageSize
  granted : ∀ block, memory.grant = some block →
    memory.backs block.len = true ∧ block.len = memory.size ∨
      memory.backs block.len = false ∧ memory.size < block.len

/-- The pages that are asked for in bytes, cut short by the hard cap rounded down to whole pages. -/
theorem targetSize_eq (memory : LinearMemory) (pages : Nat) :
    memory.targetSize pages =
      memory.limit.elim (pages * pageSize) fun limit => min (pages * pageSize) (limit - limit % pageSize) := by
  unfold targetSize
  cases memory.limit with
  | none => rw [Option.elim_none]
  | some limit => rw [Option.elim_some]

theorem dvd_targetSize (memory : LinearMemory) (pages : Nat) : pageSize ∣ memory.targetSize pages := by
  have hpages : pageSize ∣ pages * pageSize := Nat.dvd_mul_left ..
  rw [targetSize_eq]
  cases memory.limit with
  | none => exact hpages
  | some limit =>
    rw [Option.elim_some]
    rcases Nat.le_total (pages * pageSize) (limit - limit % pageSize) with hle | hle
    · rwa [Nat.min_eq_left hle]
    · rw [Nat.min_eq_right hle]
      exact Nat.dvd_sub_mod limit

theorem targetSize_le (memory : LinearMemory) (pages : Nat) : memory.targetSize pages ≤ pages * pageSize := by
  rw [targetSize_eq]
  cases memory.limit with
  | none => rw [Option.elim_none]
  | some limit =>
    rw [Option.elim_some]
    exact Nat.min_le_left ..

theorem targetSize_le_limit {limit : Nat} (h : memory.limit = some limit) (pages : Nat) :
    memory.targetSize pages ≤ limit - limit % pageSize := by
  rw [targetSize_eq, h, Option.elim_some]
  exact Nat.min_le_right ..

/-- Writing changes nothing but bytes, and not their number. -/
theorem write_eq_ok {offset : Nat} {data : List UInt8} (h : memory.write offset data = .ok memory') :
    ∃ bytes, memory' = { memory with bytes } ∧ memory'.size = memory.size := by
  unfold LinearMemory.write at h
  split at h
  · cases h
    exact ⟨_, rfl, size_overwrite ..⟩
  · cases h

namespace Accounted

theorem setMaxPages (h : memory.Accounted) (pages : Nat) : (memory.setMaxPages pages).Accounted :=
  ⟨h.pages, h.length, h.capped, h.granted⟩

theorem sized (h : memory.Accounted) : memory.sized.Accounted :=
  ⟨h.pages, h.length, h.capped, h.granted⟩

theorem write (h : memory.Accounted) {offset : Nat} {data : List UInt8}
    (hwrite : memory.write offset data = .ok memory') : memory'.Accounted := by
  obtain ⟨bytes, rfl, hsize⟩ := write_eq_ok hwrite
  refine ⟨hsize.trans h.pages, h.length.trans hsize.symm, ?_, ?_⟩
  · intro limit hlimit
    rw [hsize]
    exact h.capped limit hlimit
  · intro block hblock
    rw [hsize]
    exact h.granted block hblock

/-- A memory whose grant was renewed for more bytes commits them. -/
theorem commit {block : Block} (hlen : block.len = memory.targetSize pages)
    (hmore : memory.size < memory.targetSize pages) (hbacks : memory.backs (memory.targetSize pages) = true) :
    (LinearMemory.commit { memory.sized with grant := some block } (memory.targetSize pages)).Accounted := by
  have hsize := size_grown block hmore
  constructor
  · rw [hsize]
    exact (Nat.div_mul_cancel (dvd_targetSize memory pages)).symm
  · exact hsize.symm
  · intro limit hlimit
    rw [hsize]
    exact targetSize_le_limit hlimit pages
  · rintro _ ⟨⟩
    exact .inl ⟨hlen ▸ hbacks, hlen.trans hsize.symm⟩

/-- A memory whose grant was renewed for more bytes than the system backs. -/
theorem unbacked (h : memory.Accounted) {block : Block} (hmore : memory.size < block.len)
    (hbacks : memory.backs block.len = false) : Accounted { memory.sized with grant := some block } := by
  refine ⟨h.pages, h.length, h.capped, ?_⟩
  rintro _ ⟨⟩
  exact .inr ⟨hbacks, hmore⟩

theorem growTo (h : state.memory.Accounted) (pages : Nat) :
    (stateAfter (LinearMemory.growTo pages state)).memory.Accounted := by
  have hgrowth := growth pages state
  generalize LinearMemory.growTo pages state = result at hgrowth ⊢
  cases hgrowth with
  | excess hmax => exact h
  | enough hmax henough => exact h.sized
  | unpaid hmax hmore hrefused => exact h.sized
  | unbacked hmax hmore hserved hbacks =>
    have hlen := Heap.len_renew hserved
    exact h.unbacked (hlen ▸ hmore) (hlen ▸ hbacks)
  | grown hmax hpages hmore hserved hbacks => exact .commit (Heap.len_renew hserved) hmore hbacks

end Accounted

/-- A growth that succeeds puts zeros behind the bytes. -/
theorem bytes_growTo (h : growTo pages state = .ok () state') :
    state'.memory.bytes = state.memory.bytes ++ Array.replicate (state'.memory.size - state.memory.size) 0 := by
  have hgrowth := growth pages state
  rw [h] at hgrowth
  cases hgrowth with
  | enough hmax henough =>
    change state.memory.bytes = state.memory.bytes ++ Array.replicate (state.memory.size - state.memory.size) 0
    rw [Nat.sub_self, Array.replicate_zero, Array.append_empty]
  | @grown block heap hmax hpages hmore hserved hbacks =>
    rw [size_grown block hmore]
    rfl

/-- A growth that commits bytes commits as many as were asked for within the hard cap. -/
theorem growTo_committed (h : growTo pages state = .ok () state') (hmore : state.memory.size < state'.memory.size) :
    state.memory.numPages < pages ∧ pages ≤ state.memory.maxPages ∧
      state'.memory.size = state.memory.targetSize pages ∧
      state'.memory.numPages = state.memory.targetSize pages / pageSize := by
  have hgrowth := growth pages state
  rw [h] at hgrowth
  cases hgrowth with
  | enough hmax henough => exact absurd hmore (Nat.lt_irrefl _)
  | @grown block heap hmax hpages htarget hserved hbacks => exact ⟨hpages, hmax, size_grown block htarget, rfl⟩

/-- A growth that succeeds commits what was asked for, unless there is more already, as zeros. -/
theorem growTo_eq_ok (haccounted : state.memory.Accounted) (h : growTo pages state = .ok () state') :
    pages ≤ state.memory.maxPages ∧
      state'.memory.size = max state.memory.size (state.memory.targetSize pages) ∧
      state'.memory.bytes = state.memory.bytes ++ Array.replicate (state'.memory.size - state.memory.size) 0 := by
  have hgrowth := growth pages state
  have hbytes := bytes_growTo h
  rw [h] at hgrowth
  cases hgrowth with
  | enough hmax henough =>
    have hle : state.memory.targetSize pages ≤ state.memory.size := by
      rcases henough with hpages | hbytes
      · rw [haccounted.pages]
        exact Nat.le_trans (targetSize_le _ _) (Nat.mul_le_mul_right _ hpages)
      · exact hbytes
    exact ⟨hmax, (Nat.max_eq_left hle).symm, hbytes⟩
  | @grown block heap hmax hpages hmore hserved hbacks =>
    exact ⟨hmax, (size_grown block hmore).trans (Nat.max_eq_right (Nat.le_of_lt hmore)).symm, hbytes⟩

/-- A growth that fails leaves the bytes as they are. -/
theorem growTo_eq_error {error : Error} (h : growTo pages state = .error error state') :
    state'.memory.bytes = state.memory.bytes ∧
      (error = .memoryOverflow ∧ state.memory.maxPages < pages ∧ state' = state ∨
        error = .outOfMemory ∧ pages ≤ state.memory.maxPages) := by
  have hgrowth := growth pages state
  rw [h] at hgrowth
  cases hgrowth with
  | excess hmax => exact ⟨rfl, .inl ⟨rfl, hmax, rfl⟩⟩
  | unpaid hmax hmore hrefused => exact ⟨rfl, .inr ⟨rfl, hmax⟩⟩
  | unbacked hmax hmore hserved hbacks => exact ⟨rfl, .inr ⟨rfl, hmax⟩⟩

/-- A growth that fails changes nothing of a memory but its grant and whether it counts as sized. One past the maximum
changes nothing at all. One for which there is no room makes the memory count as sized, and changes grant and heap only
if the system does not back the bytes. So nothing changes exactly if the pages are past the maximum, or the memory
counts as sized and the heap refuses the bytes or was paid for as many before. -/
theorem growTo_refused {state state' : MemoryState} {error : Error} (h : growTo pages state = .error error state') :
    state'.memory = { state.memory with allocated := state'.memory.allocated, grant := state'.memory.grant } ∧
    (error = .memoryOverflow ∧ state.memory.maxPages < pages ∧ state' = state ∨
      error = .outOfMemory ∧ pages ≤ state.memory.maxPages ∧ state'.memory.allocated = true) ∧
    (state.memory.backs (state.memory.targetSize pages) = true →
      state'.memory.grant = state.memory.grant ∧ state'.heap = state.heap) ∧
    (state' = state ↔ state.memory.maxPages < pages ∨ state.memory.allocated = true ∧
      ∀ block heap, state.heap.renew state.memory.grant (state.memory.targetSize pages) = some (block, heap) →
        state.memory.grant = some block ∧ state.heap = heap) := by
  have hgrowth := growth pages state
  rw [h] at hgrowth
  cases hgrowth with
  | excess hmax => exact ⟨rfl, .inl ⟨rfl, hmax, rfl⟩, fun _ => ⟨rfl, rfl⟩, fun _ => .inl hmax, fun _ => rfl⟩
  | unpaid hmax hmore hrefused =>
    refine ⟨rfl, .inr ⟨rfl, hmax, rfl⟩, fun _ => ⟨rfl, rfl⟩, fun hsame => .inr ⟨?_, ?_⟩, ?_⟩
    · exact (congrArg (fun state : MemoryState => state.memory.allocated) hsame).symm
    · rw [hrefused]
      exact nofun
    · rintro (hexcess | ⟨hallocated, -⟩)
      · exact absurd hmax (Nat.not_le.2 hexcess)
      · exact sized_of_allocated hallocated
  | @unbacked block heap hmax hmore hserved hbacks =>
    refine ⟨rfl, .inr ⟨rfl, hmax, rfl⟩, fun hbacked => ?_, fun hsame => .inr ⟨?_, ?_⟩, ?_⟩
    · cases hbacks.symm.trans hbacked
    · exact (congrArg (fun state : MemoryState => state.memory.allocated) hsame).symm
    · rintro block' heap' hserved'
      cases hserved.symm.trans hserved'
      refine ⟨(congrArg (fun state : MemoryState => state.memory.grant) hsame).symm, ?_⟩
      exact (congrArg MemoryState.heap hsame).symm
    · rintro (hexcess | ⟨hallocated, hsame⟩)
      · exact absurd hmax (Nat.not_le.2 hexcess)
      · obtain ⟨hgrant, hheap⟩ := hsame block heap hserved
        rw [← hgrant, ← hheap]
        exact sized_of_allocated hallocated

/-- A new memory and an arena that has no room for a page. -/
def cramped : MemoryState :=
  ⟨create {} ⟨0⟩ 8, .arena (.ofCapacity 1000)⟩

/-- A memory that counts as sized already is the same after the arena refused it a page. -/
theorem growTo_refused_exhausted :
    growTo 1 { cramped with memory := cramped.memory.sized } =
      .error .outOfMemory { cramped with memory := cramped.memory.sized } := by
  have hrun : growTo 1 { cramped with memory := cramped.memory.sized } =
      .error .outOfMemory { cramped with memory := cramped.memory.sized.sized } := rfl
  have hunpaid : cramped.heap.renew none (cramped.memory.sized.targetSize 1) = none := rfl
  obtain ⟨-, -, -, hsame⟩ := growTo_refused hrun
  refine hrun.trans (congrArg _ (hsame.2 (.inr ⟨rfl, fun block heap hserved => ?_⟩)))
  cases hunpaid.symm.trans hserved

/-- A new memory that the arena refused a page has no bytes and counts as sized. -/
theorem refused_growth_sizes :
    cramped.memory.allocated = false ∧
      ∃ state', growTo 1 cramped = .error .outOfMemory state' ∧ state'.memory.size = 0 ∧
        state'.memory.allocated = true :=
  ⟨rfl, _, rfl, rfl, rfl⟩

end LinearMemory

/-! ## Any operations -/

/-- What its users do with a linear memory and the heap that it grows from. -/
inductive MemoryOp where
  | grow (pages : Nat)
  | bound (pages : Nat)
  | write (offset : Nat) (data : List UInt8)
  /-- Others take from the heap or give back to it. -/
  | share (heap : Heap)

/-- The state after an operation, whether it succeeds or fails. -/
def MemoryOp.perform : MemoryOp → MemoryState → MemoryState
  | .grow pages, state => stateAfter (LinearMemory.growTo pages state)
  | .bound pages, state => { state with memory := state.memory.setMaxPages pages }
  | .write offset data, state =>
    match state.memory.write offset data with
    | .ok memory => { state with memory }
    | .error _ => state
  | .share heap, state => { state with heap }

namespace MemoryState

/-- The state after some operations. -/
def performAll (state : MemoryState) (ops : List MemoryOp) : MemoryState :=
  ops.foldl (fun state op => op.perform state) state

variable {state : MemoryState}

/-- The hard cap is for good, and bytes that are committed stay committed. -/
structure Continues (state state' : MemoryState) : Prop where
  limit : state'.memory.limit = state.memory.limit
  size : state.memory.size ≤ state'.memory.size

theorem Continues.refl (state : MemoryState) : state.Continues state :=
  ⟨rfl, Nat.le_refl _⟩

theorem Continues.trans {first second third : MemoryState} (h : first.Continues second)
    (h' : second.Continues third) : first.Continues third :=
  ⟨h'.limit.trans h.limit, Nat.le_trans h.size h'.size⟩

theorem continues_growTo (pages : Nat) (state : MemoryState) :
    state.Continues (stateAfter (LinearMemory.growTo pages state)) := by
  have hgrowth := LinearMemory.growth pages state
  generalize LinearMemory.growTo pages state = result at hgrowth ⊢
  cases hgrowth with
  | excess hmax => exact .refl _
  | enough hmax henough => exact ⟨rfl, Nat.le_refl _⟩
  | unpaid hmax hmore hrefused => exact ⟨rfl, Nat.le_refl _⟩
  | unbacked hmax hmore hserved hbacks => exact ⟨rfl, Nat.le_refl _⟩
  | @grown block heap hmax hpages hmore hserved hbacks =>
    exact ⟨rfl, Nat.le_trans (Nat.le_of_lt hmore) (Nat.le_of_eq (LinearMemory.size_grown block hmore).symm)⟩

theorem perform_accounted (h : state.memory.Accounted) (op : MemoryOp) :
    (op.perform state).memory.Accounted ∧ state.Continues (op.perform state) := by
  cases op with
  | grow pages => exact ⟨h.growTo pages, continues_growTo pages state⟩
  | bound pages => exact ⟨h.setMaxPages pages, rfl, Nat.le_refl _⟩
  | write offset data =>
    simp only [MemoryOp.perform]
    cases hwrite : state.memory.write offset data with
    | error error => exact ⟨h, .refl _⟩
    | ok memory =>
      obtain ⟨bytes, hmemory, hsize⟩ := LinearMemory.write_eq_ok hwrite
      exact ⟨h.write hwrite, by rw [hmemory], Nat.le_of_eq hsize.symm⟩
  | share heap => exact ⟨h, rfl, Nat.le_refl _⟩

theorem performAll_accounted (h : state.memory.Accounted) (ops : List MemoryOp) :
    (state.performAll ops).memory.Accounted ∧ state.Continues (state.performAll ops) := by
  induction ops generalizing state with
  | nil => exact ⟨h, .refl _⟩
  | cons op ops ih =>
    obtain ⟨hop, hcontinues⟩ := perform_accounted h op
    obtain ⟨hrest, hrests⟩ := ih hop
    exact ⟨hrest, hcontinues.trans hrests⟩

theorem accounted_create (config : Config) (owner : MachineId) (maxStack : Nat) (backing : Option Nat) :
    LinearMemory.Accounted { LinearMemory.create config owner maxStack with backing } :=
  ⟨(Nat.zero_mul _).symm, rfl, fun _ _ => Nat.zero_le _, fun _ hgrant => by cases hgrant⟩

/-- After any operations the bytes are whole pages within the hard cap and the header knows their number. The grant is
never shorter than the bytes, and it is as long exactly if the system backs its length. Bytes stay committed. A growth
past the maximum is refused; one that succeeds commits what was asked for within the hard cap, or leaves what there is,
behind the old bytes and as zeros; one that fails leaves the bytes as they are. -/
theorem growth_accounts (config : Config) (owner : MachineId) (maxStack : Nat) (backing : Option Nat) (heap : Heap)
    (ops : List MemoryOp) :
    let state := performAll ⟨{ LinearMemory.create config owner maxStack with backing }, heap⟩ ops
    let memory := state.memory
    memory.size = memory.numPages * pageSize ∧ memory.header.length = memory.size ∧
    (∀ block, memory.grant = some block →
      memory.size ≤ block.len ∧ (block.len = memory.size ↔ memory.backs block.len = true)) ∧
    (∀ limit, config.memoryLimit = some limit → memory.size ≤ limit - limit % pageSize) ∧
    (∀ later, memory.size ≤ (state.performAll later).memory.size) ∧
    ∀ pages,
      (memory.maxPages < pages → LinearMemory.growTo pages state = .error .memoryOverflow state) ∧
      (∀ state', LinearMemory.growTo pages state = .ok () state' →
        state'.memory.size = max memory.size (config.memoryLimit.elim (pages * pageSize) fun limit =>
          min (pages * pageSize) (limit - limit % pageSize)) ∧
        state'.memory.bytes = memory.bytes ++ Array.replicate (state'.memory.size - memory.size) 0) ∧
      ∀ error state', LinearMemory.growTo pages state = .error error state' →
        state'.memory.bytes = memory.bytes ∧ (error = .outOfMemory ↔ pages ≤ memory.maxPages) := by
  intro state memory
  have hstart : (MemoryState.mk { LinearMemory.create config owner maxStack with backing } heap).memory.Accounted :=
    accounted_create config owner maxStack backing
  obtain ⟨haccounted, hcontinues⟩ := performAll_accounted hstart ops
  have hlimit : memory.limit = config.memoryLimit := hcontinues.limit
  refine ⟨haccounted.pages, haccounted.length, ?_, ?_, ?_, fun pages => ⟨?_, ?_, ?_⟩⟩
  · intro block hblock
    rcases haccounted.granted block hblock with ⟨hbacks, hlen⟩ | ⟨hbacks, hlonger⟩
    · exact ⟨Nat.le_of_eq hlen.symm, fun _ => hbacks, fun _ => hlen⟩
    · refine ⟨Nat.le_of_lt hlonger, fun hlen => absurd hlen (Nat.ne_of_gt hlonger), fun hbacked => ?_⟩
      cases hbacks.symm.trans hbacked
  · exact fun limit hcap => haccounted.capped limit (hlimit.trans hcap)
  · exact fun later => (performAll_accounted haccounted later).2.size
  · intro hmax
    cases hgrow : LinearMemory.growTo pages state with
    | ok done state' => exact absurd (LinearMemory.growTo_eq_ok haccounted hgrow).1 (Nat.not_le.2 hmax)
    | error error state' =>
      rcases (LinearMemory.growTo_eq_error hgrow).2 with ⟨rfl, -, rfl⟩ | ⟨-, hle⟩
      · rfl
      · exact absurd hle (Nat.not_le.2 hmax)
  · intro state' hgrow
    obtain ⟨-, hsize, hbytes⟩ := LinearMemory.growTo_eq_ok haccounted hgrow
    refine ⟨?_, hbytes⟩
    rw [hsize, LinearMemory.targetSize_eq, hlimit]
  · intro error state' hgrow
    obtain ⟨hbytes, ⟨rfl, hmax, -⟩ | ⟨rfl, hmax⟩⟩ := LinearMemory.growTo_eq_error hgrow
    · exact ⟨hbytes, fun h => (by cases h), fun hle => absurd hle (Nat.not_le.2 hmax)⟩
    · exact ⟨hbytes, fun _ => hmax, fun _ => rfl⟩

/-- A memory without bytes whose growth the system refused keeps a grant of `2 ^ 48 - 2 ^ 16` bytes. -/
theorem grant_outgrows_memory :
    let memory : LinearMemory :=
      { LinearMemory.create { defaultMaxPages := 0xFFFFFFFF } ⟨0⟩ 8 with backing := some 0x800000000000 }
    let state := performAll ⟨memory, .system 0⟩ [.grow 0xFFFFFFFF]
    state.memory.size = 0 ∧ state.memory.grant = some ⟨0, 281474976645120⟩ ∧ state.heap.inUse = 281474976645120 := by
  decide +kernel

end MemoryState

end WasmEngine
