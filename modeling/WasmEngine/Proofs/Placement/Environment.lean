import WasmEngine.Proofs.Placement.Machines

/-!
# What making room for code does to the environment

Installing and compiling code takes pages from the pool or from the heap and touches nothing else of the environment
(`Environment.Unnoticed`). A heap of the system goes on serving every request.
-/

namespace WasmEngine

/-! ## Heaps of the system -/

/-- The heap serves every request. -/
def Heap.IsSystem (heap : Heap) : Prop :=
  ∃ inUse, heap = .system inUse

theorem Heap.IsSystem.allocatePage {heap : Heap} (h : heap.IsSystem) (config : Config) (minLines : Nat)
    (sequence : UInt32) : (CodePage.allocate config minLines sequence heap).2.IsSystem := by
  obtain ⟨inUse, rfl⟩ := h
  unfold CodePage.allocate
  cases CodePage.capacityFor? config minLines with
  | none => exact ⟨_, rfl⟩
  | some capacity =>
    simp only [Heap.allocate]
    split <;> exact ⟨_, rfl⟩

theorem LinearMemory.obtainGrant_system (bytes : Nat) (memory : LinearMemory) (inUse : UInt64) :
    ∃ after, obtainGrant bytes ⟨memory, .system inUse⟩ =
      .ok () ⟨{ memory with grant := some ⟨0, bytes⟩ }, .system after⟩ := by
  unfold obtainGrant
  cases memory.grant with
  | none => exact ⟨_, rfl⟩
  | some block => exact ⟨_, rfl⟩

/-- Growing a memory from a system heap does not depend on how much the heap has handed out. -/
theorem LinearMemory.growTo_system (pages : Nat) (memory : LinearMemory) :
    (∃ memory', ∀ inUse, ∃ after, growTo pages ⟨memory, .system inUse⟩ = .ok () ⟨memory', .system after⟩) ∨
      ∃ error memory', ∀ inUse, ∃ after,
        growTo pages ⟨memory, .system inUse⟩ = .error error ⟨memory', .system after⟩ := by
  by_cases hmax : pages > memory.maxPages
  · refine .inr ⟨.memoryOverflow, memory, fun inUse => ⟨inUse, ?_⟩⟩
    change (if pages > memory.maxPages then _ else _ : EStateM Error MemoryState Unit) _ = _
    rw [if_pos hmax]
    rfl
  · have hgrow (inUse : UInt64) : growTo pages ⟨memory, .system inUse⟩ =
        (if pages > memory.numPages then
          if memory.targetSize pages > memory.size then do
            obtainGrant (memory.targetSize pages)
            commitBacked (memory.targetSize pages)
          else pure ()
        else pure () : EStateM Error MemoryState Unit) ⟨{ memory with allocated := true }, .system inUse⟩ := by
      change (if pages > memory.maxPages then _ else _ : EStateM Error MemoryState Unit) _ = _
      rw [if_neg hmax]
      rfl
    by_cases hpages : pages > memory.numPages
    · by_cases hbytes : memory.targetSize pages > memory.size
      · -- Whether the system backs the bytes is a matter of the memory alone.
        have hserved (inUse : UInt64) : ∃ after, growTo pages ⟨memory, .system inUse⟩ =
            commitBacked (memory.targetSize pages)
              ⟨{ memory with allocated := true, grant := some ⟨0, memory.targetSize pages⟩ }, .system after⟩ := by
          obtain ⟨after, hgrant⟩ := obtainGrant_system (memory.targetSize pages) { memory with allocated := true } inUse
          refine ⟨after, ?_⟩
          rw [hgrow, if_pos hpages, if_pos hbytes]
          exact run_bind_of_ok hgrant
        by_cases hbacks : memory.backs (memory.targetSize pages)
        · refine .inl ⟨commit { memory with allocated := true, grant := some ⟨0, memory.targetSize pages⟩ }
            (memory.targetSize pages), fun inUse => ?_⟩
          obtain ⟨after, hserved⟩ := hserved inUse
          exact ⟨after, hserved.trans (if_pos hbacks)⟩
        · refine .inr ⟨.outOfMemory, { memory with allocated := true, grant := some ⟨0, memory.targetSize pages⟩ },
            fun inUse => ?_⟩
          obtain ⟨after, hserved⟩ := hserved inUse
          exact ⟨after, hserved.trans (if_neg hbacks)⟩
      · refine .inl ⟨{ memory with allocated := true }, fun inUse => ⟨inUse, ?_⟩⟩
        rw [hgrow, if_pos hpages, if_neg hbytes]
        rfl
    · refine .inl ⟨{ memory with allocated := true }, fun inUse => ⟨inUse, ?_⟩⟩
      rw [hgrow, if_neg hpages]
      rfl

/-! ## Making room for code -/

/-- Code is made room for without the running code noticing: the host stays, and so does a system heap. -/
structure Environment.Unnoticed (env env' : Environment) : Prop where
  host : env'.host = env.host
  yields : env'.yields = env.yields
  heap : env.heap.IsSystem → env'.heap.IsSystem

theorem CodeArea.unnoticed_acquire (minLines : Nat) (area : CodeArea) :
    area.env.Unnoticed (stateAfter (acquire minLines area)).env := by
  have hcases := acquired minLines area
  generalize acquire minLines area = outcome at hcases ⊢
  have hallocate : ∀ {page : Option CodePage} {heap : Heap},
      CodePage.allocate area.env.config minLines (UInt32.ofNat area.env.pagesAsked) area.env.heap = (page, heap) →
      area.env.heap.IsSystem → heap.IsSystem := by
    intro page heap halloc hsystem
    have hafter := hsystem.allocatePage area.env.config minLines (UInt32.ofNat area.env.pagesAsked)
    rwa [halloc] at hafter
  cases hcases with
  | opened htake => exact ⟨rfl, rfl, id⟩
  | pooled hopen htake => exact ⟨rfl, rfl, id⟩
  | served hopen hpool halloc => exact ⟨rfl, rfl, hallocate halloc⟩
  | refused hopen hpool halloc => exact ⟨rfl, rfl, hallocate halloc⟩

/-- No answer to a compiler is noticed. -/
theorem CodeArea.unnoticed_closed : CompileClosed fun area area' => area.env.Unnoticed area'.env where
  refl _ := ⟨rfl, rfl, id⟩
  trans h h' := ⟨h'.host.trans h.host, h'.yields.trans h.yields, h'.heap ∘ h.heap⟩
  acquire := unnoticed_acquire
  release _ _ := ⟨rfl, rfl, id⟩
  emit _ := ⟨rfl, rfl, id⟩
  patch _ := ⟨rfl, rfl, id⟩
  note _ _ := ⟨rfl, rfl, id⟩

end WasmEngine
