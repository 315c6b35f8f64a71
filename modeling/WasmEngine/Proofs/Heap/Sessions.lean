import Mathlib.Algebra.BigOperators.Ring.List
import Mathlib.Algebra.Ring.Nat
import WasmEngine.Proofs.Allocation.Sessions
import WasmEngine.Proofs.Heap.Machines

/-!
# The heap of a session

Between two actions of a host the heap has handed out what the code pages of the pool and of all machines take and the
bytes of their linear memories. In the end it has everything back.
-/

namespace WasmEngine

/-- What a heap shows that has handed out so many bytes. -/
def Heap.meter : Heap → Nat → Nat
  | .system _, bytes => bytes % 2 ^ 64
  | .arena _, bytes => bytes

theorem Heap.Counts.inUse_eq {heap : Heap} {bytes : Nat} (h : heap.Counts bytes) : heap.inUse = heap.meter bytes := by
  cases heap with
  | system inUse =>
    change inUse.toNat = bytes % 2 ^ 64
    rw [show inUse = UInt64.ofNat bytes from h, UInt64.toNat_ofNat']
  | arena region => exact h

/-- The heap of an environment pays for its pool and its machines, and for nothing else. The system backs that. -/
structure Books (env : Environment) (machines : List Machine) : Prop where
  pays : env.heap.Pays (env.pool.batches.flatten ++ machines.flatMap fun machine => machine.code.pages.toList)
    (machines.map fun machine => machine.memory.size).sum
  paid : ∀ machine ∈ machines, machine.memory.Paid ∧ machine.memory.backing = none
  backing : env.memoryBacking = none

namespace Books

variable {env env' : Environment} {machine : Machine} {machines machines' : List Machine}

theorem of_perm (h : Books env machines) (hperm : machines.Perm machines') : Books env machines' := by
  refine ⟨?_, fun machine hmachine => h.paid machine (hperm.mem_iff.2 hmachine), h.backing⟩
  have hbytes := (hperm.map fun machine => machine.memory.size).sum_eq
  have hpages := (hperm.flatMap_right fun machine => machine.code.pages.toList).append_left env.pool.batches.flatten
  rw [← hbytes]
  exact h.pays.of_perm (hpages.map CodePage.bill)

/-- The accounts of a machine are those of all machines, with the others' pages and bytes set apart. -/
theorem cons_iff : Books env (machine :: machines) ↔
    MachineState.Covers ⟨env, machine⟩ (machines.flatMap fun machine => machine.code.pages.toList)
        (machines.map fun machine => machine.memory.size).sum ∧
      (∀ machine ∈ machines, machine.memory.Paid ∧ machine.memory.backing = none) ∧ env.memoryBacking = none := by
  have hpages : env.pool.batches.flatten ++ (machine :: machines).flatMap (fun machine => machine.code.pages.toList) =
      env.pool.batches.flatten ++ machine.code.pages.toList ++
        machines.flatMap fun machine => machine.code.pages.toList := by
    rw [List.flatMap_cons, List.append_assoc]
  have hbytes : ((machine :: machines).map fun machine => machine.memory.size).sum =
      machine.memory.size + (machines.map fun machine => machine.memory.size).sum := by
    rw [List.map_cons, List.sum_cons]
  constructor
  · intro h
    obtain ⟨⟨hpaid, hbacked⟩, hothers⟩ := List.forall_mem_cons.1 h.paid
    have hpays := h.pays
    rw [hpages, hbytes] at hpays
    exact ⟨⟨hpaid, hpays, hbacked⟩, hothers, h.backing⟩
  · rintro ⟨hcovers, hothers, hbacking⟩
    refine ⟨?_, List.forall_mem_cons.2 ⟨⟨hcovers.paid, hcovers.backing⟩, hothers⟩, hbacking⟩
    rw [hpages, hbytes]
    exact hcovers.pays

theorem of_same (h : Books env machines) (hsame : env.SamePages env') (hheap : env'.heap = env.heap) :
    Books env' machines :=
  ⟨by rw [hsame.pool, hheap]; exact h.pays, h.paid, hsame.backing.trans h.backing⟩

/-- A machine works. -/
theorem work {permit : Permit} {state : MachineState} {places : Multiset Workplace}
    (h : Books env (machine :: machines)) (hsound : Engine.Sound ⟨env, ⟨machine.code, []⟩ ::ₘ places⟩)
    (hevents : MachineState.Events permit ⟨env, machine⟩ state) : Books state.env (state.machine :: machines) := by
  obtain ⟨hcovers, hothers, hbacking⟩ := cons_iff.1 h
  have hkept := (Engine.Reaches.lasts (MachineState.Events.reaches hevents places)).backing
  exact cons_iff.2 ⟨hevents.covers hsound hbacking hcovers, hothers, hkept.trans hbacking⟩

/-- A new machine has nothing to pay for. -/
theorem arrive (h : Books env machines) (hcode : machine.code = {}) (hmemory : machine.memory.Bare)
    (hbacking : machine.memory.backing = none) : Books env (machine :: machines) :=
  cons_iff.2 ⟨.of_new hcode hmemory hbacking h.pays, h.paid, h.backing⟩

/-- What a machine had is given back or goes to the pool. -/
theorem leave {places : Multiset Workplace} (h : Books env (machine :: machines))
    (hsound : Engine.Sound ⟨env, ⟨machine.code, []⟩ ::ₘ places⟩) : Books (machine.dispose env) machines := by
  obtain ⟨opens, fulls, hlaid⟩ := hsound.laid _ (Multiset.mem_cons_self ..)
  obtain ⟨hcovers, hothers, hbacking⟩ := cons_iff.1 h
  have hkept := (Engine.Reaches.lasts (machine.reaches_dispose env places)).backing
  exact ⟨Machine.dispose_pays hlaid hcovers, hothers, hkept.trans hbacking⟩

/-- Tearing down an environment gives back the pool. -/
theorem teardown (h : Books env []) : Books env.teardown [] := by
  have hpool : (env.pool.batches.flatten.map CodePage.bill).Perm (env.pool.pages.map CodePage.bill) :=
    (List.reverse_perm env.pool.batches).symm.flatten.map CodePage.bill
  have hpages : env.heap.Pays env.pool.pages 0 := by
    refine Heap.Pays.of_perm ?_ hpool
    simpa using h.pays
  refine ⟨⟨?_, by simp [Environment.teardown]⟩, by simp, env.lasts_teardown.backing.trans h.backing⟩
  rw [Environment.teardown, Environment.foldl_free]
  simpa using hpages.freeAll

end Books

namespace Session

variable {permit : String → Permit} {session session' : Session}

/-- The machines of a session. -/
def machineList (session : Session) : List Machine :=
  session.machines.entries.map Prod.snd

theorem Effect.books (heffect : Effect permit session session') (hsound : session.engine.Sound)
    (h : Books session.env session.machineList) : Books session'.env session'.machineList := by
  unfold engine at hsound
  have hsplit {name : String} {machine : Machine} (hget : session.machines.get? name = some machine) :
      session.machineList.Perm (machine :: (session.machines.erase name).entries.map Prod.snd) :=
    (Table.perm_of_get? hget).map Prod.snd
  unfold machineList at h ⊢
  cases heffect with
  | tend hmachines henv hheap =>
    rw [hmachines]
    exact h.of_same henv hheap
  | work hget hevents henv hmachines =>
    rw [places_of_get? hget] at hsound
    rw [hmachines, henv]
    exact (h.of_perm (hsplit hget)).work hsound hevents
  | @create name slots machine hmakes hreplaces hget hcreate hmachines =>
    obtain ⟨hcode, -, henv⟩ := Machine.create_eq_ok hcreate
    obtain ⟨hmemory, hheap⟩ := Machine.create_memory hcreate
    obtain ⟨-, -, hinherits⟩ := Machine.create_inherits hcreate
    have hrest : (session.machines.put name machine).entries.map Prod.snd =
        machine :: session.machines.entries.map Prod.snd := by
      rw [← Table.erase_eq_of_get? hget]
      rfl
    rw [hmachines, hrest]
    exact (h.of_same henv hheap).arrive hcode hmemory (hinherits ▸ h.backing)
  | @replace name slots machine old env hmakes hreplaces hget hcreate henv hmachines =>
    obtain ⟨hcode, -, hsame⟩ := Machine.create_eq_ok hcreate
    obtain ⟨hmemory, hheap⟩ := Machine.create_memory hcreate
    obtain ⟨-, -, hinherits⟩ := Machine.create_inherits hcreate
    rw [places_of_get? hget] at hsound
    rw [hmachines, henv]
    have hopened := (h.of_same hsame hheap).of_perm (hsplit hget)
    exact (hopened.leave (hsound.step (.tend _ hsame))).arrive hcode hmemory (hinherits ▸ h.backing)
  | dispose hreplaces hget henv hmachines =>
    rw [places_of_get? hget] at hsound
    rw [hmachines, henv]
    exact (h.of_perm (hsplit hget)).leave hsound
  | teardown hempty henv hmachines =>
    rw [hempty] at h
    rw [hmachines, henv, hempty]
    exact h.teardown

theorem Effects.books (heffects : Effects permit session session') (hsound : session.engine.Sound)
    (h : Books session.env session.machineList) : Books session'.env session'.machineList := by
  induction heffects with
  | refl => exact h
  | tail heffects heffect ih => exact heffect.books (hsound.reaches (Effects.reaches heffects)) ih

theorem books_start (config : Config) (host : Host) {heap : Heap} (hheap : heap.inUse = 0) :
    Books (start config host heap).env (start config host heap).machineList := by
  have hcounts := heap.counts_inUse
  rw [hheap] at hcounts
  exact ⟨⟨hcounts, by simp [start, machineList]⟩, by simp [start, machineList], rfl⟩

theorem books_performAll (actions : List Action) (hsound : session.engine.Sound)
    (h : Books session.env session.machineList) :
    Books (session.performAll actions).env (session.performAll actions).machineList := by
  induction actions generalizing session with
  | nil => exact h
  | cons action actions ih =>
    have heffects := perform_effects session action
    exact ih (hsound.reaches (Effects.reaches heffects)) (Effects.books heffects hsound h)

/-! ## The end of a session -/

/-- An environment that nobody uses has no pages. -/
def Settled (session : Session) : Prop :=
  session.holdsEnvironment = false → session.machines.entries = [] → session.env.pool.batches.flatten = []

theorem settled_settle (session : Session) : session.settle.Settled := by
  intro hholds hempty
  unfold settle at hholds hempty ⊢
  split at hholds
  · rename_i hidle
    rw [if_pos hidle]
    rfl
  · rename_i hidle
    rw [if_neg hidle] at hempty
    simp [hholds, Table.isEmpty, hempty] at hidle

/-- As long as there are machines, nothing is to be settled. -/
theorem settled_put {name : String} {machine : Machine}
    (hmachines : session'.machines = session.machines.put name machine) :
    session'.Settled := by
  intro _ hempty
  rw [hmachines] at hempty
  cases hempty

theorem settled_perform (h : session.Settled) (action : Action) : (session.perform action).2.Settled := by
  have hperforms := performs session action
  generalize (session.perform action).2 = session' at hperforms ⊢
  cases hperforms with
  | idle => exact h
  | tend henv hheap hslots =>
    intro hholds hempty
    rw [henv.pool]
    exact h hholds hempty
  | release => exact settled_settle _
  | create hcreate => exact settled_put rfl
  | dispose hget => exact settled_settle _
  | work hget hevents hrecord hslots => exact settled_put rfl

theorem settled_performAll (h : session.Settled) (actions : List Action) : (session.performAll actions).Settled := by
  induction actions generalizing session with
  | nil => exact h
  | cons action actions ih => exact ih (settled_perform h action)

/-! ## The accounts -/

/-- The code pages of the pool and of all machines. -/
def pages (session : Session) : List CodePage :=
  session.env.pool.pages ++ session.machineList.flatMap fun machine => machine.code.pages.toList

/-- The bytes of all linear memories. -/
def memoryBytes (session : Session) : Nat :=
  (session.machineList.map fun machine => machine.memory.size).sum

/-- Between two actions the heap has handed out the bytes of the code pages of the pool and of all machines and of all
linear memories; the system heap counts them modulo `2 ^ 64`. Once there are no machines and the host does not use the
environment, it has everything back. -/
theorem heap_accounts (config : Config) (host : Host) (heap : Heap) (hheap : heap.inUse = 0) (actions : List Action) :
    let session := (start config host heap).performAll actions
    session.env.heap.inUse =
      session.env.heap.meter (Line.byteSize * (session.pages.map CodePage.capacity).sum + session.memoryBytes) ∧
    (session.holdsEnvironment = false → session.machines.isEmpty = true → session.env.heap.inUse = 0) := by
  intro session
  have hbooks : Books session.env session.machineList :=
    books_performAll actions (sound_startWithin none config host heap) (books_start config host hheap)
  have hsettled : session.Settled := settled_performAll (fun _ _ => rfl) actions
  have hpool : (session.env.pool.pages.map CodePage.bytes).sum =
      (session.env.pool.batches.flatten.map CodePage.bytes).sum :=
    ((List.reverse_perm session.env.pool.batches).flatten.map CodePage.bytes).sum_eq
  have hbytes : Line.byteSize * (session.pages.map CodePage.capacity).sum = (session.pages.map CodePage.bytes).sum :=
    (List.sum_map_mul_left _ _ _).symm
  have hinUse : session.env.heap.inUse =
      session.env.heap.meter (Line.byteSize * (session.pages.map CodePage.capacity).sum + session.memoryBytes) := by
    rw [hbooks.pays.counts.inUse_eq, hbytes, pages, memoryBytes, List.map_append, List.map_append, List.sum_append,
      List.sum_append, hpool]
  refine ⟨hinUse, fun hholds hempty => ?_⟩
  have hmachines : session.machines.entries = [] := List.isEmpty_iff.1 hempty
  have hnone : session.machineList = [] := by rw [machineList, hmachines, List.map_nil]
  have hcounts : session.env.heap.Counts 0 := by
    simpa [hsettled hholds hmachines, hnone] using hbooks.pays.counts
  rw [hcounts.inUse_eq]
  cases session.env.heap <;> rfl

/-- An arena that has no room for a second page, which a compiler asks for, has handed out one page and a linear memory
of one page then, and has them back in the end. -/
theorem heap_accounts_exhausted :
    let actions : List Action :=
      [.create "a" 64, .build "m" [.function "v()" 0 [0x02, 1, 0x03, 8, 0x06, 0x00], .exportFunction 0 "f"],
        .load "a" "m", .grow "a" 1, .find "a" "f"]
    let before := (start { codePageAlign := 128, freeLineThreshold := 3 } (.ofBackends .scripted .absent none)
      (.arena (.ofCapacity 65700))).performAll actions
    let after := before.performAll [.dispose "a", .releaseEnvironment]
    before.env.heap.inUse = 65664 ∧ before.env.heap.inUse = before.env.heap.meter
        (Line.byteSize * (before.pages.map CodePage.capacity).sum + before.memoryBytes) ∧
      after.env.heap.inUse = 0 := by
  intro actions before after
  have hbefore := heap_accounts { codePageAlign := 128, freeLineThreshold := 3 } (.ofBackends .scripted .absent none)
    (.arena (.ofCapacity 65700)) rfl actions
  have hafter := heap_accounts { codePageAlign := 128, freeLineThreshold := 3 } (.ofBackends .scripted .absent none)
    (.arena (.ofCapacity 65700)) rfl (actions ++ [.dispose "a", .releaseEnvironment])
  refine ⟨by decide +kernel, hbefore.1, ?_⟩
  exact hafter.2 (by decide +kernel) (by decide +kernel)

end Session

end WasmEngine
