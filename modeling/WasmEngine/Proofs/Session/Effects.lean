import WasmEngine.Proofs.Machine.Events
import WasmEngine.Session.Basic

/-!
# What actions of a host do

`Session.Performs` lists what an action of a host can do to a session. Every action is a sequence of effects on its
machines and their environment (`Session.Effect`).
-/

namespace WasmEngine

/-! ## Tables -/

namespace Table

variable {α : Type} {table : Table α} {name other : String} {item : α}

theorem erase_eq_of_get? (h : table.get? name = none) : (table.erase name).entries = table.entries := by
  refine List.filter_eq_self.2 fun entry hentry => ?_
  have hother : name ≠ entry.1 := by simpa using List.lookup_eq_none_iff.1 h entry hentry
  simpa using hother.symm

/-- A table that has an item is made of the item and the rest. -/
theorem perm_of_get? (h : table.get? name = some item) :
    table.entries.Perm ((name, item) :: (table.erase name).entries) := by
  obtain ⟨entries, hunique⟩ := table
  simp only [get?, erase] at h ⊢
  induction entries with
  | nil => cases h
  | cons entry entries ih =>
    obtain ⟨key, value⟩ := entry
    rw [List.map_cons, List.nodup_cons] at hunique
    by_cases hkey : name = key
    · subst hkey
      have hrest : entries.filter (fun entry => entry.1 ≠ name) = entries := by
        refine List.filter_eq_self.2 fun entry hentry => ?_
        have hmem : entry.1 ∈ entries.map Prod.fst := List.mem_map_of_mem hentry
        have hne : entry.1 ≠ name := fun heq => hunique.1 (heq ▸ hmem)
        simpa using hne
      rw [List.lookup_cons_self] at h
      cases h
      rw [List.filter_cons_of_neg (by simp), hrest]
    · have hlookup : entries.lookup name = some item := by
        rwa [List.lookup_cons, beq_false_of_ne hkey] at h
      rw [List.filter_cons_of_pos (by simpa using fun heq => hkey heq.symm)]
      exact ((ih hunique.2 hlookup).cons _).trans (.swap ..)

theorem get?_erase_of_ne (hne : other ≠ name) : (table.erase name).get? other = table.get? other := by
  obtain ⟨entries, hunique⟩ := table
  simp only [get?, erase]
  clear hunique
  induction entries with
  | nil => rfl
  | cons entry entries ih =>
    obtain ⟨key, value⟩ := entry
    by_cases hkey : key = name
    · rw [List.filter_cons_of_neg (by simpa using hkey), List.lookup_cons, beq_false_of_ne (hkey ▸ hne)]
      exact ih
    · rw [List.filter_cons_of_pos (by simpa using hkey), List.lookup_cons, List.lookup_cons]
      cases other == key with
      | true => rfl
      | false => exact ih

theorem get?_erase_eq (table : Table α) (name other : String) :
    (table.erase name).get? other = if other = name then none else table.get? other := by
  split
  · rename_i heq
    rw [heq, get?_erase]
  · rename_i hne
    exact get?_erase_of_ne hne

theorem get?_put_of_ne (hne : other ≠ name) : (table.put name item).get? other = table.get? other := by
  have hput : (table.put name item).get? other = (table.erase name).get? other := by
    rw [get?, put, List.lookup_cons, beq_false_of_ne hne]
    rfl
  rw [hput, get?_erase_of_ne hne]

theorem get?_put_eq (table : Table α) (name : String) (item : α) (other : String) :
    (table.put name item).get? other = if other = name then some item else table.get? other := by
  split
  · rename_i heq
    rw [heq, get?_put]
  · rename_i hne
    exact get?_put_of_ne hne

end Table

/-- Every item of a table has a property. -/
def Table.All {α : Type} (kept : α → Prop) (table : Table α) : Prop :=
  ∀ name item, table.get? name = some item → kept item

namespace Table.All

variable {α : Type} {kept : α → Prop} {table : Table α}

theorem put (h : table.All kept) (name : String) {item : α} (hitem : kept item) : (table.put name item).All kept := by
  intro other found hfound
  rw [Table.get?_put_eq] at hfound
  split at hfound
  · cases hfound
    exact hitem
  · exact h other found hfound

theorem erase (h : table.All kept) (name : String) : (table.erase name).All kept := by
  intro other found hfound
  rw [Table.get?_erase_eq] at hfound
  split at hfound
  · cases hfound
  · exact h other found hfound

end Table.All

/-! ## Effects -/

namespace Session

/-- What can happen to the machines of a host and their environment, given what may be done to each machine. -/
inductive Effect (permit : String → Permit) (session session' : Session) : Prop where
  /-- Nothing happens to the machines, the code pages and the heap. -/
  | tend (hmachines : session'.machines = session.machines) (henv : session.env.SamePages session'.env)
      (hheap : session'.env.heap = session.env.heap)
  /-- A machine works. -/
  | work {name : String} {machine : Machine} {state : MachineState} (hget : session.machines.get? name = some machine)
      (hevents : MachineState.Events (permit name) ⟨session.env, machine⟩ state) (henv : session'.env = state.env)
      (hmachines : session'.machines = session.machines.put name state.machine)
  /-- A machine is made under a name that none has. -/
  | create {name : String} {slots : Nat} {machine : Machine} (hmakes : (permit name).makes slots)
      (hreplaces : (permit name).replaces) (hget : session.machines.get? name = none)
      (hcreate : Machine.create slots session.env = .ok machine session'.env)
      (hmachines : session'.machines = session.machines.put name machine)
  /-- A machine takes the place of one of the same name. -/
  | replace {name : String} {slots : Nat} {machine old : Machine} {env : Environment}
      (hmakes : (permit name).makes slots) (hreplaces : (permit name).replaces)
      (hget : session.machines.get? name = some old)
      (hcreate : Machine.create slots session.env = .ok machine env) (henv : session'.env = old.dispose env)
      (hmachines : session'.machines = session.machines.put name machine)
  /-- A machine is disposed of. -/
  | dispose {name : String} {machine : Machine} (hreplaces : (permit name).replaces)
      (hget : session.machines.get? name = some machine)
      (henv : session'.env = machine.dispose session.env)
      (hmachines : session'.machines = session.machines.erase name)
  /-- The environment is torn down. -/
  | teardown (hempty : session.machines.entries = []) (henv : session'.env = session.env.teardown)
      (hmachines : session'.machines = session.machines)

/-- A sequence of effects. -/
abbrev Effects (permit : String → Permit) : Session → Session → Prop :=
  Relation.ReflTransGen (Effect permit)

end Session

namespace Action

/-- An action links a function of a machine, which is a matching import of a module. -/
def Links (action : Action) (name : String) (index : Nat) (func : Func) : Prop :=
  ∃ module field signature link, action = .link name index module field signature link ∧
    Machine.importMatches module field func

/-- An action makes a machine, which takes the place of one of the same name, or disposes of it. -/
def Replaces (action : Action) (name : String) : Prop :=
  (∃ stackBytes, action = .create name stackBytes) ∨ action = .dispose name

/-- An action loads a module into a machine. -/
def Loads (action : Action) (name : String) : Prop :=
  ∃ slot, action = .load name slot

/-- What an action may do to a machine. The module that it may load is in no machine. -/
def permit (session : Session) (action : Action) (name : String) : Permit where
  links := action.Links name
  loads functions :=
    ∃ slot module, action = .load name slot ∧ session.slots.get? slot = some module ∧ module.isLinked = false ∧
      module.functions = functions
  bounds := action.Loads name
  makes slots := ∃ stackBytes, action = .create name stackBytes ∧ slots = stackBytes / slotSize
  replaces := action.Replaces name

/-- The machine that an action is an operation of, or whose record it takes. -/
def machine? : Action → Option String
  | .load machine _ => some machine
  | .link machine _ _ _ _ _ => some machine
  | .find machine _ => some machine
  | .call machine _ _ _ => some machine
  | .callMain machine _ _ _ => some machine
  | .grow machine _ => some machine
  | .resetError machine => some machine
  | _ => none

end Action

/-- Where a module in a slot can come from after an action. -/
inductive Session.Yields (session : Session) : Module → Prop where
  | kept {slot : String} {module : Module} (hslot : session.slots.get? slot = some module) : Yields session module
  | named {slot : String} {module : Module} (hslot : session.slots.get? slot = some module) (name : String) :
      Yields session { module with name := some name }
  | built (items : List BuildItem) :
      Yields session (Draft.addAll session.env.config.argumentLimit items ⟨session.env.registry, {}⟩).2.module
  | decoded {bytes : List UInt8} {module : Module}
      (h : (Module.decode session.env.config session.env.registry bytes).1 = .ok module) : Yields session module
  | loaded {name : String} {machine : Machine} {index : Nat} {module : Module}
      (hget : session.machines.get? name = some machine) (hmodule : machine.modules[index]? = some module) :
      Yields session module
  | returned {name slot : String} {machine : Machine} {module module' : Module} {error : Error} {state : MachineState}
      (hget : session.machines.get? name = some machine) (hslot : session.slots.get? slot = some module)
      (h : Machine.load module ⟨session.env, machine⟩ = (.refused error module', state)) : Yields session module'

namespace Session

variable {permit : String → Permit} {session session' : Session}

/-! ## Actions -/

/-- What an action does to a session. -/
inductive Performs (session : Session) : Action → Session → Prop where
  | idle {action : Action} : Performs session action session
  /-- Nothing happens to the machines, the code pages and the heap. -/
  | tend {action : Action} {env : Environment} {slots : Table Module} {issued : List TypeHandle}
      (henv : session.env.SamePages env) (hheap : env.heap = session.env.heap) (hslots : slots.All session.Yields) :
      Performs session action { session with env, slots, issued }
  | release : Performs session .releaseEnvironment (settle { session with holdsEnvironment := false })
  | create {name : String} {stackBytes : Nat} {machine : Machine} {env : Environment}
      (hcreate : Machine.create (stackBytes / slotSize) session.env = .ok machine env) :
      Performs session (.create name stackBytes)
        { session with
          env := (session.machines.get? name).elim env (·.dispose env)
          machines := session.machines.put name machine }
  | dispose {name : String} {machine : Machine} (hget : session.machines.get? name = some machine) :
      Performs session (.dispose name)
        (settle { session with env := machine.dispose session.env, machines := session.machines.erase name })
  /-- A machine works. Its record stays unless this is an operation of the machine. -/
  | work {action : Action} {name : String} {machine : Machine} {state : MachineState} {slots : Table Module}
      (hget : session.machines.get? name = some machine)
      (hevents : MachineState.Events (action.permit session name) ⟨session.env, machine⟩ state)
      (hrecord : action.machine? = some name ∨ state.machine.id = machine.id ∧ state.machine.error = machine.error)
      (hslots : slots.All session.Yields) :
      Performs session action
        { session with env := state.env, machines := session.machines.put name state.machine, slots }

theorem all_yields (session : Session) : session.slots.All session.Yields :=
  fun _ _ => .kept

theorem performs_issue {action : Action} (registry : TypeRegistry) (handle : TypeHandle) :
    Performs session action (issue { session with env := { session.env with registry } } handle).2 := by
  have henv : session.env.SamePages { session.env with registry } := .rest ..
  unfold issue
  split <;> exact .tend henv rfl session.all_yields

theorem performs_onMachine {α : Type} {action : Action} {name : String} {step : MachineM α}
    (hmachine : action.machine? = some name) (h : Keeps (MachineState.Events (action.permit session name)) step) :
    Performs session action (session.onMachine name step).2 := by
  unfold onMachine
  cases hget : session.machines.get? name with
  | none => exact .idle
  | some machine =>
    dsimp only
    cases hstep : step ⟨session.env, machine⟩ with
    | ok value state => exact .work hget (h.of_ok hstep) (.inl hmachine) session.all_yields
    | error error state => exact .work hget (h.of_error hstep) (.inl hmachine) session.all_yields

theorem performs_load (name slot : String) : Performs session (.load name slot) (session.load name slot).2 := by
  unfold Session.load
  cases hget : session.machines.get? name with
  | none => exact .idle
  | some machine =>
    cases hslot : session.slots.get? slot with
    | none => exact .idle
    | some module =>
      have hevents : MachineState.Events ((Action.load name slot).permit session name) _ _ :=
        Machine.load_events module ⟨session.env, machine⟩ ⟨slot, rfl⟩ fun hlinked =>
          ⟨slot, module, rfl, hslot, hlinked, rfl⟩
      have herased := session.all_yields.erase slot
      dsimp only
      rcases hload : Machine.load module ⟨session.env, machine⟩ with ⟨outcome, state⟩
      rw [hload] at hevents
      cases outcome with
      | linked index => exact .work hget hevents (.inl rfl) herased
      | refused error module' =>
        exact .work hget hevents (.inl rfl) (herased.put slot (.returned hget hslot hload))
      | startFailed error index => exact .work hget hevents (.inl rfl) herased

theorem performs (session : Session) (action : Action) : Performs session action (session.perform action).2 := by
  have hyields := session.all_yields
  have hevent {action : Action} {name : String} {machine machine' : Machine}
      (hget : session.machines.get? name = some machine)
      (hevent : MachineState.Event (action.permit session name) ⟨session.env, machine⟩ ⟨session.env, machine'⟩)
      (hrecord : action.machine? = some name ∨ machine'.id = machine.id ∧ machine'.error = machine.error) :
      Performs session action { session with machines := session.machines.put name machine' } :=
    .work hget (.single hevent) hrecord hyields
  cases action with
  | signature text =>
    simp only [perform, Environment.parseSignature]
    cases session.env.registry.parse session.env.config.argumentLimit text with
    | error error => exact .idle
    | ok read => exact performs_issue read.2 read.1
  | intern type => exact performs_issue _ _
  | yieldNow =>
    simp only [perform, Environment.yieldNow]
    cases session.env.host.onYield session.env.yields with
    | ok done => exact .tend (.rest ..) rfl hyields
    | error error => exact .tend (.rest ..) rfl hyields
  | releaseEnvironment => exact .release
  | build slot items =>
    exact .tend (.rest ..) rfl (hyields.put slot (.built items))
  | decode slot bytes =>
    simp only [perform, Session.decode]
    cases hdecode : (Module.decode session.env.config session.env.registry bytes).1 with
    | error error => exact .tend (.rest ..) rfl hyields
    | ok module =>
      exact .tend (.rest ..) rfl (hyields.put slot (.decoded hdecode))
  | copy slot target =>
    simp only [perform]
    cases hslot : session.slots.get? slot with
    | none => exact .idle
    | some module => exact .tend (.refl _) rfl (hyields.put target (.kept hslot))
  | setName slot name =>
    simp only [perform]
    cases hslot : session.slots.get? slot with
    | none => exact .idle
    | some module => exact .tend (.refl _) rfl (hyields.put slot (.named hslot name))
  | create name stackBytes =>
    simp only [perform, Session.create]
    cases hcreate : Machine.ofStackBytes stackBytes session.env with
    | error error env =>
      cases Machine.create_eq_error hcreate
      exact .idle
    | ok machine env =>
      have hperforms : Performs session (.create name stackBytes) _ := .create hcreate
      cases hget : session.machines.get? name <;> rwa [hget] at hperforms
  | dispose name =>
    simp only [perform, Session.dispose]
    cases hget : session.machines.get? name with
    | none => exact .idle
    | some machine => exact .dispose hget
  | load name slot => exact performs_load name slot
  | copyLoaded name index slot =>
    simp only [perform, copyLoaded]
    cases hget : session.machines.get? name with
    | none => exact .idle
    | some machine =>
      dsimp only
      cases hmodule : machine.modules[index]? with
      | none => exact .idle
      | some module => exact .tend (.refl _) rfl (hyields.put slot (.loaded hget hmodule))
  | link name index module field signature link =>
    exact performs_onMachine rfl (Machine.link_events index module field signature link fun func hmatch =>
      ⟨module, field, signature, link, rfl, hmatch⟩)
  | find name function => exact performs_onMachine rfl (Machine.find_events function)
  | call name index function arguments => exact performs_onMachine rfl (Machine.call_events index function arguments)
  | callMain name index function arguments =>
    exact performs_onMachine rfl (Machine.callMain_events index function arguments)
  | grow name pages => exact performs_onMachine rfl (Machine.grow_events pages)
  | poke name offset data =>
    simp only [perform, poke]
    cases hget : session.machines.get? name with
    | none => exact .idle
    | some machine =>
      dsimp only
      cases hmemory : machine.memory? 0 with
      | none => exact .idle
      | some memory =>
        obtain rfl := Machine.eq_of_memory? hmemory
        dsimp only
        cases hwrite : machine.memory.write offset data with
        | error error => exact .idle
        | ok memory => exact hevent hget (.memory (.write session.env.heap hwrite)) (.inr ⟨rfl, rfl⟩)
  | resetError name =>
    simp only [perform]
    cases hget : session.machines.get? name with
    | none => exact .idle
    | some machine => exact hevent hget (.tend _ rfl rfl rfl rfl) (.inl rfl)

theorem settle_effects (session : Session) : Effects permit session session.settle := by
  unfold settle
  split
  · rename_i hsettled
    have hempty : session.machines.isEmpty = true := (Bool.and_eq_true_iff.1 hsettled).2
    exact .single (.teardown (List.isEmpty_iff.1 hempty) rfl rfl)
  · exact .refl

/-- Every action is a sequence of effects that it permits. -/
theorem perform_effects (session : Session) (action : Action) :
    Effects (action.permit session) session (session.perform action).2 := by
  have hperforms := performs session action
  generalize (session.perform action).2 = session' at hperforms ⊢
  cases hperforms with
  | idle => exact .refl
  | tend henv hheap hslots => exact .single (.tend rfl henv hheap)
  | release =>
    have hrelease : Effect (Action.releaseEnvironment.permit session) session
        { session with holdsEnvironment := false } := .tend rfl (.refl _) rfl
    exact .head hrelease (settle_effects _)
  | @create name stackBytes machine env hcreate =>
    have hmakes : ((Action.create name stackBytes).permit session name).makes (stackBytes / slotSize) :=
      ⟨stackBytes, rfl, rfl⟩
    have hreplaces : ((Action.create name stackBytes).permit session name).replaces := .inl ⟨stackBytes, rfl⟩
    cases hget : session.machines.get? name with
    | none => exact .single (.create hmakes hreplaces hget hcreate rfl)
    | some old => exact .single (.replace hmakes hreplaces hget hcreate rfl rfl)
  | dispose hget => exact .head (.dispose (.inr rfl) hget rfl rfl) (settle_effects _)
  | work hget hevents hrecord hslots => exact .single (.work hget hevents rfl rfl)

theorem issue_env (session : Session) (handle : TypeHandle) : (session.issue handle).2.env = session.env := by
  unfold issue
  split <;> rfl

/-! ## Machines -/

/-- What new machines have and machines at work keep, all machines have. -/
theorem Effect.forall_machines (h : Effect permit session session') {kept : Machine → Prop}
    (hnew : ∀ {name slots machine env}, (permit name).makes slots →
      Machine.create slots session.env = .ok machine env → kept machine)
    (hwork : ∀ name machine state, MachineState.Events (permit name) ⟨session.env, machine⟩ state → kept machine →
      kept state.machine)
    (hall : ∀ name machine, session.machines.get? name = some machine → kept machine) :
    ∀ name machine, session'.machines.get? name = some machine → kept machine := by
  have hput {name : String} {machine : Machine} (hmachine : kept machine)
      (hmachines : session'.machines = session.machines.put name machine) :
      ∀ other machine', session'.machines.get? other = some machine' → kept machine' := by
    intro other machine' hget
    rw [hmachines, Table.get?_put_eq] at hget
    split at hget
    · cases hget
      exact hmachine
    · exact hall other machine' hget
  cases h with
  | tend hmachines henv => exact hmachines ▸ hall
  | work hget hevents henv hmachines => exact hput (hwork _ _ _ hevents (hall _ _ hget)) hmachines
  | create hmakes hreplaces hget hcreate hmachines => exact hput (hnew hmakes hcreate) hmachines
  | replace hmakes hreplaces hget hcreate henv hmachines => exact hput (hnew hmakes hcreate) hmachines
  | dispose hreplaces hget henv hmachines =>
    intro other machine' hget'
    rw [hmachines, Table.get?_erase_eq] at hget'
    split at hget'
    · cases hget'
    · exact hall other machine' hget'
  | teardown hempty henv hmachines => exact hmachines ▸ hall

/-- A machine that is not replaced works or stays as it is. -/
theorem Effect.machine (h : Effect permit session session') {name : String} {machine : Machine}
    (hget : session.machines.get? name = some machine) (hkept : ¬(permit name).replaces) :
    ∃ state, MachineState.Events (permit name) ⟨session.env, machine⟩ state ∧
      session'.machines.get? name = some state.machine := by
  have hidle {name' : String} {machine' : Machine} (hne : name ≠ name')
      (hmachines : session'.machines = session.machines.put name' machine') :
      ∃ state, MachineState.Events (permit name) ⟨session.env, machine⟩ state ∧
        session'.machines.get? name = some state.machine :=
    ⟨⟨session.env, machine⟩, .refl, by rw [hmachines, Table.get?_put_of_ne hne, hget]⟩
  have hother {name' : String} (hreplaces : (permit name').replaces) : name ≠ name' := by
    rintro rfl
    exact hkept hreplaces
  cases h with
  | tend hmachines henv => exact ⟨⟨session.env, machine⟩, .refl, hmachines ▸ hget⟩
  | @work name' machine' state hget' hevents henv hmachines =>
    by_cases heq : name = name'
    · cases heq
      cases hget.symm.trans hget'
      exact ⟨state, hevents, by rw [hmachines, Table.get?_put]⟩
    · exact hidle heq hmachines
  | create hmakes hreplaces hget' hcreate hmachines => exact hidle (hother hreplaces) hmachines
  | replace hmakes hreplaces hget' hcreate henv hmachines => exact hidle (hother hreplaces) hmachines
  | dispose hreplaces hget' henv hmachines =>
    exact ⟨⟨session.env, machine⟩, .refl, by rw [hmachines, Table.get?_erase_of_ne (hother hreplaces), hget]⟩
  | teardown hempty henv hmachines => exact ⟨⟨session.env, machine⟩, .refl, hmachines ▸ hget⟩

end Session

end WasmEngine
