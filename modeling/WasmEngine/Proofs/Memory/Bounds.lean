import WasmEngine.Proofs.Allocation.Sessions
import WasmEngine.Proofs.Memory.Machines

/-!
# The bounds of linear memory

The committed pages of a machine are meant to stay within its maximum, and the maximum within what 32-bit addresses
reach. Two things break that: the default maximum as it is configured, and a module that sets its own maximum whatever
is committed.
-/

namespace WasmEngine

namespace LinearMemory

variable {memory : LinearMemory}

/-- The committed pages are within the maximum, and the maximum within what addresses reach. -/
def Bounded (memory : LinearMemory) : Prop :=
  memory.numPages ≤ memory.maxPages ∧ memory.maxPages ≤ pageCeiling

/-- The maximum is `bound`, and the committed pages have grown from `first` on, within it. -/
structure Within (first bound : Nat) (memory : LinearMemory) : Prop where
  accounted : memory.Accounted
  maxPages_eq : memory.maxPages = bound
  least : first ≤ memory.numPages
  most : memory.numPages ≤ max first bound

theorem Accounted.within (h : memory.Accounted) : Within memory.numPages memory.maxPages memory :=
  ⟨h, rfl, Nat.le_refl _, Nat.le_max_left ..⟩

theorem Within.bounded_iff {first bound : Nat} (h : Within first bound memory) :
    memory.Bounded ↔ first ≤ bound ∧ bound ≤ pageCeiling := by
  have hmaximum := h.maxPages_eq
  have hleast := h.least
  have hmost := h.most
  unfold Bounded
  constructor
  · rintro ⟨hpages, hceiling⟩
    exact ⟨by omega, by omega⟩
  · rintro ⟨hfirst, hbound⟩
    exact ⟨by omega, by omega⟩

theorem stable_within (first bound : Nat) : Stable (Within first bound) := by
  intro state state' hevent h
  cases hevent with
  | grow pages =>
    have haccounted := h.accounted.growTo pages
    have hgrowth := growth pages state
    generalize growTo pages state = result at hgrowth haccounted ⊢
    cases hgrowth with
    | excess hmax => exact h
    | enough hmax henough => exact ⟨haccounted, h.maxPages_eq, h.least, h.most⟩
    | unpaid hmax hmore hrefused => exact ⟨haccounted, h.maxPages_eq, h.least, h.most⟩
    | unbacked hmax hmore hserved hbacks => exact ⟨haccounted, h.maxPages_eq, h.least, h.most⟩
    | grown hmax hpages hmore hserved hbacks =>
      have hsize := h.accounted.pages
      have htarget := targetSize_le state.memory pages
      have hlow : state.memory.numPages ≤ state.memory.targetSize pages / pageSize := by
        rw [Nat.le_div_iff_mul_le (by decide)]
        omega
      have hhigh : state.memory.targetSize pages / pageSize ≤ pages :=
        Nat.div_le_of_le_mul (Nat.mul_comm pages pageSize ▸ htarget)
      have hmaximum := h.maxPages_eq
      refine ⟨haccounted, hmaximum, Nat.le_trans h.least hlow, ?_⟩
      change state.memory.targetSize pages / pageSize ≤ max first bound
      omega
  | write heap hwrite =>
    have haccounted := h.accounted.write hwrite
    obtain ⟨bytes, rfl, -⟩ := write_eq_ok hwrite
    exact ⟨haccounted, h.maxPages_eq, h.least, h.most⟩

theorem stable_accounted : Stable Accounted :=
  fun _ _ hevent h => (stable_within _ _ _ _ hevent h.within).accounted

theorem stable_bounded : Stable fun memory => memory.Accounted ∧ memory.Bounded := by
  intro state state' hevent h
  have hwithin := stable_within _ _ _ _ hevent h.1.within
  exact ⟨hwithin.accounted, hwithin.bounded_iff.2 h.2⟩

end LinearMemory

/-- A module that is loaded sets the maximum, if it may. -/
theorem Module.bound_within {memory : LinearMemory} (h : memory.Accounted) (module : Module) (config : Config) :
    LinearMemory.Within memory.numPages (module.bound config memory).maxPages (module.bound config memory) := by
  unfold Module.bound
  split
  · exact h.within
  · exact ⟨h.setMaxPages _, rfl, Nat.le_refl _, Nat.le_max_left ..⟩

namespace Session

variable {session session' : Session} {permit : String → Permit}

/-- The bytes of all linear memories are accounted for. -/
def Accounted (session : Session) : Prop :=
  ∀ name machine, session.machines.get? name = some machine → machine.memory.Accounted

/-- All linear memories are within their bounds. -/
def Bounded (session : Session) : Prop :=
  ∀ name machine, session.machines.get? name = some machine → machine.memory.Bounded

end Session

/-- A machine that is made starts with a default maximum that addresses reach, and a module that is loaded sets no
maximum below what is committed. -/
def Action.Respects (session : Session) : Action → Prop
  | .create _ stackBytes =>
    Heap.addressable (stackBytes / slotSize * slotSize) = true → session.env.config.defaultMaxPages ≤ pageCeiling
  | .load name slot =>
    ∀ machine module, session.machines.get? name = some machine → session.slots.get? slot = some module →
      module.isLinked = false → module.memoryImport = none →
      machine.memory.numPages ≤ min (module.maxPages session.env.config) pageCeiling
  | _ => True

namespace Session

variable {session session' : Session} {permit : String → Permit}

theorem Effects.accounted (heffects : Effects permit session session') (h : session.Accounted) : session'.Accounted := by
  induction heffects with
  | refl => exact h
  | tail _ heffect ih =>
    refine heffect.forall_machines (fun _ hcreate => ?_) (fun _ _ _ hevents hmachine => ?_) ih
    · rw [(Machine.create_inherits hcreate).2.2]
      exact MemoryState.accounted_create ..
    · exact hevents.keeps_memory LinearMemory.stable_accounted (fun _ _ pages h => h.setMaxPages pages) hmachine

/-- What loads no module and makes no machine keeps the bounds. -/
theorem Effects.bounded (heffects : Effects permit session session') (hbounds : ∀ name, ¬(permit name).bounds)
    (hmakes : ∀ name slots, ¬(permit name).makes slots) (haccounted : session.Accounted) (h : session.Bounded) :
    session'.Bounded := by
  suffices hkept : ∀ name machine, session'.machines.get? name = some machine →
      machine.memory.Accounted ∧ machine.memory.Bounded from fun name machine hget => (hkept name machine hget).2
  induction heffects with
  | refl => exact fun name machine hget => ⟨haccounted name machine hget, h name machine hget⟩
  | tail _ heffect ih =>
    refine heffect.forall_machines (fun hpermitted _ => absurd hpermitted (hmakes _ _)) ?_ ih
    intro name _ _ hevents hmachine
    exact hevents.keeps_memory LinearMemory.stable_bounded (fun hpermitted => absurd hpermitted (hbounds name)) hmachine

/-- A machine that is put among others within the bounds. -/
theorem bounded_put_iff {name : String} {machine : Machine} (h : session.Bounded)
    (hmachines : session'.machines = session.machines.put name machine) :
    session'.Bounded ↔ machine.memory.Bounded := by
  constructor
  · intro hbounded
    refine hbounded name machine ?_
    rw [hmachines, Table.get?_put]
  · intro hmachine other found hget
    rw [hmachines, Table.get?_put_eq] at hget
    split at hget
    · cases hget
      exact hmachine
    · exact h other found hget

theorem bounded_create_iff (h : session.Bounded) (name : String) (stackBytes : Nat) :
    (session.create name stackBytes).2.Bounded ↔ Action.Respects session (.create name stackBytes) := by
  unfold Session.create
  cases hcreate : Machine.ofStackBytes stackBytes session.env with
  | error error env =>
    have hrefused : ¬Heap.addressable (stackBytes / slotSize * slotSize) = true := by
      intro haddressable
      unfold Machine.ofStackBytes Machine.create at hcreate
      rw [if_pos haddressable] at hcreate
      cases hcreate
    exact ⟨fun _ haddressable => absurd haddressable hrefused, fun _ => h⟩
  | ok machine env =>
    rw [bounded_put_iff h rfl, (Machine.create_inherits hcreate).2.2]
    constructor
    · exact fun hbounded _ => hbounded.2
    · exact fun hrespects => ⟨Nat.zero_le _, hrespects (Machine.create_addressable hcreate)⟩

/-- Loading changes one machine. -/
theorem machines_load {name slot : String} {machine : Machine} {module : Module}
    (hmachine : session.machines.get? name = some machine) (hmodule : session.slots.get? slot = some module) :
    (session.load name slot).2.machines =
      session.machines.put name (Machine.load module ⟨session.env, machine⟩).2.machine := by
  unfold Session.load
  rw [hmachine, hmodule]
  dsimp only
  split <;> rfl

theorem bounded_load_iff (haccounted : session.Accounted) (h : session.Bounded) (name slot : String) :
    (session.load name slot).2.Bounded ↔ Action.Respects session (.load name slot) := by
  cases hmachine : session.machines.get? name with
  | none =>
    have hidle : (session.load name slot).2 = session := by
      unfold Session.load
      rw [hmachine]
    rw [hidle]
    refine ⟨fun _ machine module hget => ?_, fun _ => h⟩
    cases hmachine.symm.trans hget
  | some machine =>
    cases hmodule : session.slots.get? slot with
    | none =>
      have hidle : (session.load name slot).2 = session := by
        unfold Session.load
        rw [hmachine, hmodule]
      rw [hidle]
      refine ⟨fun _ machine module _ hslot => ?_, fun _ => h⟩
      cases hmodule.symm.trans hslot
    | some module =>
      have hwithin := Machine.load_memory module ⟨session.env, machine⟩ (LinearMemory.stable_within _ _)
        (module.bound_within (haccounted name machine hmachine) session.env.config)
      rw [bounded_put_iff h (machines_load hmachine hmodule), hwithin.bounded_iff]
      constructor
      · rintro ⟨hpages, -⟩ found loaded hget hslot hlinked himport
        cases hmachine.symm.trans hget
        cases hmodule.symm.trans hslot
        rw [Module.bound, if_neg (by simp [hlinked, himport])] at hpages
        exact hpages
      · intro hrespects
        unfold Module.bound
        split
        · exact h name machine hmachine
        · rename_i hown
          simp only [Bool.or_eq_true, not_or, Bool.not_eq_true, Option.isSome_eq_false_iff, Option.isNone_iff_eq_none]
            at hown
          exact ⟨hrespects machine module hmachine hmodule hown.1 hown.2, Nat.min_le_right ..⟩

/-- From within the bounds, an action leads out of them exactly if it does not respect them. -/
theorem bounded_perform_iff (haccounted : session.Accounted) (h : session.Bounded) (action : Action) :
    (session.perform action).2.Bounded ↔ action.Respects session := by
  -- All but two actions keep the bounds whatever the session is like.
  have hother (hloads : ∀ name, ¬action.Loads name) (hcreates : ∀ name stackBytes, action ≠ .create name stackBytes) :
      (session.perform action).2.Bounded := by
    refine (perform_effects session action).bounded hloads ?_ haccounted h
    rintro name slots ⟨stackBytes, hcreate, -⟩
    exact absurd hcreate (hcreates name stackBytes)
  cases action with
  | create name stackBytes => exact bounded_create_iff h name stackBytes
  | load name slot => exact bounded_load_iff haccounted h name slot
  | _ =>
    refine iff_of_true (hother ?_ ?_) trivial
    · rintro name ⟨slot, hload⟩
      cases hload
    · rintro name stackBytes hcreate
      cases hcreate

/-- A run stays within the bounds exactly if all its actions respect them. -/
theorem bounded_performAll_iff (haccounted : session.Accounted) (h : session.Bounded) (actions : List Action) :
    (∀ earlier, earlier <+: actions → (session.performAll earlier).Bounded) ↔
      ∀ earlier action, earlier ++ [action] <+: actions → action.Respects (session.performAll earlier) := by
  induction actions generalizing session with
  | nil =>
    constructor
    · intro _ earlier action hearlier
      simp at hearlier
    · intro _ earlier hearlier
      rw [List.prefix_nil.1 hearlier]
      exact h
  | cons first actions ih =>
    have hstep := bounded_perform_iff haccounted h first
    have haccounted' : (session.perform first).2.Accounted := (perform_effects session first).accounted haccounted
    constructor
    · intro hbounded earlier action hearlier
      have hfirst : (session.perform first).2.Bounded := hbounded [first] (by simp)
      cases earlier with
      | nil =>
        obtain ⟨rfl, -⟩ := List.cons_prefix_cons.1 hearlier
        exact hstep.1 hfirst
      | cons action' earlier =>
        obtain ⟨rfl, hrest⟩ := List.cons_prefix_cons.1 hearlier
        refine (ih haccounted' hfirst).1 (fun later hlater => ?_) earlier action hrest
        exact hbounded (action' :: later) (List.cons_prefix_cons.2 ⟨rfl, hlater⟩)
    · intro hrespects earlier hearlier
      have hfirst : (session.perform first).2.Bounded := hstep.2 (hrespects [] first (by simp))
      cases earlier with
      | nil => exact h
      | cons action earlier =>
        obtain ⟨rfl, hrest⟩ := List.cons_prefix_cons.1 hearlier
        refine (ih haccounted' hfirst).2 (fun later next hlater => ?_) earlier hrest
        exact hrespects (action :: later) next (List.cons_prefix_cons.2 ⟨rfl, hlater⟩)

/-- The committed pages of all machines stay within their maximum, and their maximum within what addresses reach,
throughout a session, exactly if no machine is made while the configured default is beyond that reach and no module is
loaded that sets a maximum below what is committed. -/
theorem pages_bounded_iff (backing : Option Nat) (config : Config) (host : Host) (heap : Heap) (actions : List Action) :
    (∀ earlier, earlier <+: actions →
      ∀ name machine, ((startWithin backing config host heap).performAll earlier).machines.get? name = some machine →
        machine.memory.numPages ≤ machine.memory.maxPages ∧ machine.memory.maxPages ≤ pageCeiling) ↔
      ∀ earlier action, earlier ++ [action] <+: actions →
        action.Respects ((startWithin backing config host heap).performAll earlier) := by
  have hempty (name : String) (machine : Machine) :
      (startWithin backing config host heap).machines.get? name ≠ some machine := by
    intro hget
    cases hget
  refine bounded_performAll_iff ?_ ?_ actions
  · intro name machine hget
    exact absurd hget (hempty name machine)
  · intro name machine hget
    exact absurd hget (hempty name machine)

/-- A default maximum of 70000 pages is taken as it is, and a module with a maximum of one page can be loaded when two are
committed. -/
theorem pages_exceed_maximum :
    (∃ machine, ((startWithin none { defaultMaxPages := 70000 } (.ofBackends .threaded .threaded none)
        (.system 0)).performAll [.create "a" 64]).machines.get? "a" = some machine ∧
      pageCeiling < machine.memory.maxPages) ∧
    ∃ machine, ((startWithin none {} (.ofBackends .threaded .threaded none) (.system 0)).performAll
        [.build "p" [.memory ⟨2, none⟩], .build "q" [.memory ⟨0, some 1⟩], .create "a" 64, .load "a" "p",
          .load "a" "q"]).machines.get? "a" = some machine ∧
      machine.memory.maxPages < machine.memory.numPages := by
  have hdefault : (((startWithin none { defaultMaxPages := 70000 } (.ofBackends .threaded .threaded none)
      (.system 0)).performAll [.create "a" 64]).machines.get? "a").map (·.memory.maxPages) = some 70000 := by
    decide +kernel
  have hloaded : (((startWithin none {} (.ofBackends .threaded .threaded none) (.system 0)).performAll
      [.build "p" [.memory ⟨2, none⟩], .build "q" [.memory ⟨0, some 1⟩], .create "a" 64, .load "a" "p",
        .load "a" "q"]).machines.get? "a").map (fun machine => (machine.memory.maxPages, machine.memory.numPages)) =
      some (1, 2) := by decide +kernel
  obtain ⟨machine, hget, hmaximum⟩ := Option.map_eq_some_iff.1 hdefault
  obtain ⟨machine', hget', hpages⟩ := Option.map_eq_some_iff.1 hloaded
  obtain ⟨hone, htwo⟩ := Prod.ext_iff.1 hpages
  refine ⟨⟨machine, hget, ?_⟩, machine', hget', ?_⟩
  · rw [hmaximum]
    decide
  · dsimp only at hone htwo
    omega

end Session

end WasmEngine
