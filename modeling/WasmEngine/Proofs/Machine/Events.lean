import Mathlib.Logic.Relation
import WasmEngine.Proofs.Machine.Closure
import WasmEngine.Proofs.Programs

/-!
# What operations of machines do

Every operation of a machine, whether it succeeds or fails, is a sequence of a few kinds of events:
`MachineState.Event` lists them, and `Environment.Event` those that concern the environment alone.
-/

namespace WasmEngine

variable {machine : Machine} {env env' : Environment} {slots : Nat}

/-! ## Events -/

/-- Two environments agree in all that concerns code pages. Machines may have been made in the second one. -/
structure Environment.SamePages (env env' : Environment) : Prop where
  config : env'.config = env.config
  host : env'.host = env.host
  pool : env'.pool = env.pool
  pagesAsked : env'.pagesAsked = env.pagesAsked
  pagesServed : env'.pagesServed = env.pagesServed
  backing : env'.memoryBacking = env.memoryBacking
  made : env.machinesMade ≤ env'.machinesMade

/-- Types, the heap and what the host was told have nothing to do with code pages. -/
theorem Environment.SamePages.rest (env : Environment) (registry : TypeRegistry) (heap : Heap) (yields : Nat)
    (notes : List String) : env.SamePages { env with registry, heap, yields, notes } :=
  ⟨rfl, rfl, rfl, rfl, rfl, rfl, Nat.le_refl _⟩

theorem Environment.SamePages.refl (env : Environment) : env.SamePages env :=
  .rest ..

/-- A new machine has neither modules nor code. -/
theorem Machine.create_eq_ok (h : Machine.create slots env = .ok machine env') :
    machine.code = {} ∧ machine.modules = #[] ∧ env.SamePages env' := by
  unfold Machine.create at h
  split at h
  · cases h
    exact ⟨rfl, rfl, rfl, rfl, rfl, rfl, rfl, rfl, Nat.le_succ _⟩
  · cases h

theorem Machine.create_eq_error {error : Error} (h : Machine.create slots env = .error error env') : env' = env := by
  unfold Machine.create at h
  split at h
  · cases h
  · cases h
    rfl

/-- A linear memory that has nothing and pays for nothing. -/
def LinearMemory.Bare (memory : LinearMemory) : Prop :=
  memory.grant = none ∧ memory.size = 0

/-- Making a machine takes nothing from the heap. -/
theorem Machine.create_memory
    (h : Machine.create slots env = .ok machine env') : machine.memory.Bare ∧ env'.heap = env.heap := by
  unfold Machine.create at h
  split at h
  · cases h
    exact ⟨⟨rfl, rfl⟩, rfl⟩
  · cases h

/-- A machine is made if its stack can be addressed. -/
theorem Machine.create_addressable
    (h : Machine.create slots env = .ok machine env') : Heap.addressable (slots * slotSize) = true := by
  unfold Machine.create at h
  split at h
  · assumption
  · cases h

/-- A machine gets the next number and a memory with the default maximum. -/
theorem Machine.create_inherits (h : Machine.create slots env = .ok machine env') :
    machine.id = ⟨UInt32.ofNat env.machinesMade⟩ ∧ env'.machinesMade = env.machinesMade + 1 ∧
      machine.memory = { LinearMemory.create env.config machine.id slots with backing := env.memoryBacking } := by
  unfold Machine.create at h
  split at h
  · cases h
    exact ⟨rfl, rfl, rfl⟩
  · cases h

/-- What can happen to a linear memory and the heap that it grows from. -/
inductive MemoryState.Event : MemoryState → MemoryState → Prop where
  /-- It grows, or fails to. -/
  | grow (pages : Nat) (state : MemoryState) : Event state (stateAfter (LinearMemory.growTo pages state))
  /-- Bytes are overwritten. -/
  | write {memory memory' : LinearMemory} {offset : Nat} {data : List UInt8} (heap : Heap)
      (h : memory.write offset data = .ok memory') : Event ⟨memory, heap⟩ ⟨memory', heap⟩

/-- What can happen to an environment apart from the machines that stay in it. -/
inductive Environment.Event : Environment → Environment → Prop where
  /-- A constant expression is evaluated on a scratch machine. -/
  | constant (module : Module) (expr : List UInt8) (type : ValType) (env : Environment) :
      Event env (stateAfter (Environment.constValue module expr type env))
  /-- Something happens that concerns neither code pages nor the heap. -/
  | tend {env env' : Environment} (h : env.SamePages env') (hheap : env'.heap = env.heap) : Event env env'

/-- What an operation may do to a machine: the imports that it may link, by the index of their module, the functions of
the modules that it may add, whether it may give the linear memory another maximum, with how many slots it may make the
machine, and whether it may make or dispose of it. -/
structure Permit where
  links : Nat → Func → Prop
  loads : Array Func → Prop
  bounds : Prop
  makes : Nat → Prop
  replaces : Prop

/-- What can happen to a machine and its environment. -/
inductive MachineState.Event (permit : Permit) : MachineState → MachineState → Prop where
  /-- Something happens in the environment. -/
  | environment {env env' : Environment} (machine : Machine) (h : env.Event env') :
      Event permit ⟨env, machine⟩ ⟨env', machine⟩
  /-- Neither the modules nor their code nor the linear memory change. -/
  | tend (env : Environment) {machine machine' : Machine} (hmodules : machine'.modules = machine.modules)
      (hcode : machine'.code = machine.code) (hmemory : machine'.memory = machine.memory)
      (hid : machine'.id = machine.id) : Event permit ⟨env, machine⟩ ⟨env, machine'⟩
  /-- The linear memory gets another maximum. -/
  | bound (env : Environment) (machine : Machine) (pages : Nat) (hbounds : permit.bounds) :
      Event permit ⟨env, machine⟩ ⟨env, { machine with memory := machine.memory.setMaxPages pages }⟩
  /-- Something happens to the linear memory. -/
  | memory {env : Environment} {machine : Machine} {after : MemoryState}
      (h : MemoryState.Event ⟨machine.memory, env.heap⟩ after) :
      Event permit ⟨env, machine⟩ ⟨{ env with heap := after.heap }, { machine with memory := after.memory }⟩
  /-- A function gets its entry. -/
  | compile {env : Environment} {machine : Machine} {index function : Nat} {module : Module} {entry : CodeRef}
      {area : CodeArea} (hmodule : machine.modules[index]? = some module)
      (h : CodeArea.compileFunction module function ⟨env, machine.code⟩ = .ok entry area) :
      Event permit ⟨env, machine⟩ ⟨area.env, { machine with code := area.code }.storeCode index [(function, entry)]⟩
  /-- A function fails to get an entry. -/
  | failCompile {env : Environment} {machine : Machine} {index function : Nat} {module : Module} {error : Error}
      {area : CodeArea} (hmodule : machine.modules[index]? = some module)
      (h : CodeArea.compileFunction module function ⟨env, machine.code⟩ = .error error area) :
      Event permit ⟨env, machine⟩ ⟨area.env, { machine with code := area.code }⟩
  /-- An import is linked. -/
  | link {env : Environment} {machine : Machine} {index function : Nat} {func : Func} {link : HostLink}
      {entry : CodeRef} {area : CodeArea}
      (hfunc : machine.modules[index]?.bind (·.functions[function]?) = some func) (hlinks : permit.links index func)
      (h : CodeArea.install link ⟨env, machine.code⟩ = .ok entry area) :
      Event permit ⟨env, machine⟩ ⟨area.env, { machine with code := area.code }.storeCode index [(function, entry)]⟩
  /-- Linking an import fails. -/
  | failLink {env : Environment} {machine : Machine} {link : HostLink} {error : Error} {area : CodeArea}
      (h : CodeArea.install link ⟨env, machine.code⟩ = .error error area) :
      Event permit ⟨env, machine⟩ ⟨area.env, { machine with code := area.code }⟩
  /-- Code runs, and functions get compiled on the way. -/
  | run {env : Environment} {machine : Machine} {index : Nat} {module : Module} {purpose : CallPurpose}
      {entry : CodeRef} {result : Except Error Unit} {after : ExecState}
      (hmodule : machine.modules[index]? = some module)
      (h : ExecState.execute module purpose entry
        { area := ⟨env, machine.code⟩, stack := machine.stack, memory := machine.memory } = (result, after)) :
      Event permit ⟨env, machine⟩
        ⟨after.area.env,
          { machine with code := after.area.code, stack := after.stack, memory := after.memory }.storeCode index
            after.compiled⟩
  /-- A module of the machine is added. -/
  | push (env : Environment) (machine : Machine) {module : Module} (hloads : permit.loads module.functions)
      (howner : module.owner = some machine.id) :
      Event permit ⟨env, machine⟩ ⟨env, { machine with modules := machine.modules.push module }⟩

/-- A sequence of events. -/
abbrev MachineState.Events (permit : Permit) : MachineState → MachineState → Prop :=
  Relation.ReflTransGen (Event permit)

variable {permit : Permit}

namespace MachineM

open MachineState

theorem keeps_edit {change : Machine → Machine} (hmodules : ∀ machine, (change machine).modules = machine.modules)
    (hcode : ∀ machine, (change machine).code = machine.code)
    (hmemory : ∀ machine, (change machine).memory = machine.memory)
    (hid : ∀ machine, (change machine).id = machine.id) : Keeps (Events permit) (edit change) := by
  intro state
  exact .single (.tend state.env (hmodules _) (hcode _) (hmemory _) (hid _))

theorem keeps_growMemory (pages : Nat) : Keeps (Events permit) (onMemory (LinearMemory.growTo pages)) := by
  intro state
  have hgrown : Event permit state _ := .memory (.grow pages ⟨state.machine.memory, state.env.heap⟩)
  unfold onMemory
  cases h : LinearMemory.growTo pages ⟨state.machine.memory, state.env.heap⟩ with
  | ok value after =>
    rw [h] at hgrown
    exact .single hgrown
  | error error after =>
    rw [h] at hgrown
    exact .single hgrown

theorem keeps_recording {α : Type} (describe : Machine → Option String × Option String × String) {step : MachineM α}
    (h : Keeps (Events permit) step) : Keeps (Events permit) (recording describe step) := by
  intro state
  have hrun := h state
  unfold recording
  cases hstep : step state with
  | ok value after =>
    rw [hstep] at hrun
    exact hrun
  | error error after =>
    rw [hstep] at hrun
    exact hrun.tail (.tend _ rfl rfl rfl rfl)

theorem keeps_parseSignature (signature : String) :
    Keeps (Events permit) (onEnvironment (Environment.parseSignature signature)) := by
  intro state
  unfold onEnvironment Environment.parseSignature
  cases state.env.registry.parse state.env.config.argumentLimit signature with
  | error error => exact .refl
  | ok read => exact .single (.environment _ (.tend (.rest ..) rfl))

end MachineM

namespace Machine

open MachineState MachineM

/-! ## Compiling and linking -/

theorem keeps_ensureCompiled (module function : Nat) :
    Keeps (Events permit) (ensureCompiled module function) := by
  intro state
  unfold ensureCompiled
  rw [run_get_bind]
  cases hmodule : state.machine.modules[module]? with
  | none => exact .refl
  | some found =>
    change Events permit state (stateAfter (EStateM.bind (onCode (CodeArea.compileFunction found function)) _ state))
    unfold EStateM.bind onCode
    cases h : CodeArea.compileFunction found function ⟨state.env, state.machine.code⟩ with
    | error error area => exact .single (.failCompile hmodule h)
    | ok entry area => exact .single (.compile hmodule h)

/-- Installs the call of a host function as the code of an import. -/
theorem install_events {state : MachineState} {index function : Nat} {func : Func} (link : HostLink)
    (hfunc : state.machine.modules[index]?.bind (·.functions[function]?) = some func)
    (hlinks : permit.links index func) :
    Events permit state (stateAfter ((do
      let entry ← onCode (CodeArea.install link)
      edit (·.storeCode index [(function, entry)])
      return true : MachineM Bool) state)) := by
  change Events permit state (stateAfter (EStateM.bind (onCode (CodeArea.install link)) _ state))
  unfold EStateM.bind onCode
  cases h : CodeArea.install link ⟨state.env, state.machine.code⟩ with
  | error error area => exact .single (.failLink h)
  | ok entry area => exact .single (.link hfunc hlinks h)

theorem keeps_linkFunction (index : Nat) (module field signature : String) (link : HostLink) (function : Nat)
    (hlinks : ∀ func, importMatches module field func → permit.links index func) :
    Keeps (Events permit) (linkFunction index module field signature link function) := by
  intro state
  unfold linkFunction
  rw [run_get_bind]
  cases hfunc : state.machine.modules[index]?.bind (·.functions[function]?) with
  | none => exact .refl
  | some func =>
    by_cases hmatch : importMatches module field func
    · simp only [if_pos hmatch]
      have hparsed : Events permit state _ := keeps_parseSignature signature state
      change Events permit state
        (stateAfter (EStateM.bind (onEnvironment (Environment.parseSignature signature)) _ state))
      unfold EStateM.bind onEnvironment Environment.parseSignature at *
      cases hparse : state.env.registry.parse state.env.config.argumentLimit signature with
      | error error => exact .refl
      | ok read =>
        simp only [hparse] at hparsed ⊢
        by_cases htype : read.1.type ≠ func.type.type
        · rw [if_pos htype]
          exact hparsed
        · rw [if_neg htype]
          -- Reading the signature changes nothing but the interned types.
          exact hparsed.trans (install_events link hfunc (hlinks func hmatch))
    · simp only [if_neg hmatch]
      exact .refl

/-- What the code of a loaded module leaves behind, whether or not there is a result to take from slot 0. -/
theorem stateAfter_run {module : Nat} {entry : CodeRef} {purpose : CallPurpose} {state : MachineState} {found : Module}
    {result : Except Error Unit} {after : ExecState} (hmodule : state.machine.modules[module]? = some found)
    (h : ExecState.execute found purpose entry
      { area := ⟨state.env, state.machine.code⟩, stack := state.machine.stack, memory := state.machine.memory } =
        (result, after)) (type : FuncType) :
    stateAfter (run module entry type purpose state) =
      ⟨after.area.env,
        { state.machine with code := after.area.code, stack := after.stack, memory := after.memory }.storeCode module
          after.compiled⟩ := by
  unfold run
  rw [run_get_bind]
  simp only [hmodule, h]
  cases result with
  | error error => rfl
  | ok done =>
    cases type.result with
    | none => rfl
    | some result => cases hslot : after.stack[0]? <;> rfl

theorem keeps_run (module : Nat) (entry : CodeRef) (type : FuncType) (purpose : CallPurpose) :
    Keeps (Events permit) (run module entry type purpose) := by
  intro state
  cases hmodule : state.machine.modules[module]? with
  | none =>
    unfold run
    simp only [run_get_bind, hmodule]
    exact .refl
  | some found =>
    rcases h : ExecState.execute found purpose entry
      { area := ⟨state.env, state.machine.code⟩, stack := state.machine.stack, memory := state.machine.memory }
      with ⟨result, after⟩
    rw [stateAfter_run hmodule h]
    exact .single (.run hmodule h)

theorem keeps_store (offset : Nat) (data : List UInt8) : Keeps (Events permit) (store offset data) := by
  intro state
  unfold store
  rw [run_get_bind]
  cases hwrite : state.machine.memory.write offset data with
  | error error => exact .refl
  | ok memory => exact .single (.memory (.write state.env.heap hwrite))

/-! ## Operations -/

theorem events_closed : MachineM.Closed fun _ program => Keeps (Events permit) program where
  pure := .pure
  throw := .throw
  bind := .bind
  get := .get
  editStack _ := keeps_edit (fun _ => rfl) (fun _ => rfl) (fun _ => rfl) fun _ => rfl
  growMemory := keeps_growMemory
  store := keeps_store
  ensureCompiled := keeps_ensureCompiled
  run := keeps_run

/-- Linking a host function links imports that it matches. -/
theorem link_events (index : Nat) (module field signature : String) (link : HostLink)
    (hlinks : ∀ func, importMatches module field func → permit.links index func) :
    Keeps (Events permit) (Machine.link index module field signature link) := by
  obtain ⟨step, hlink, hstep⟩ := events_closed.link fun function =>
    keeps_linkFunction index module field signature link function hlinks
  rw [hlink]
  exact keeps_recording _ hstep

theorem find_events (name : String) : Keeps (Events permit) (find name) := by
  obtain ⟨step, hfind, hstep⟩ := (@events_closed permit).find name
  rw [hfind]
  exact keeps_recording _ hstep

theorem keeps_runStart (module function : Nat) : Keeps (Events permit) (runStart module function) :=
  events_closed.runStart module function

theorem call_events (module function : Nat) (arguments : List String) :
    Keeps (Events permit) (call module function arguments) :=
  keeps_recording _ (events_closed.invoke module function arguments .ordinary)

theorem callMain_events (module function : Nat) (arguments : List String) :
    Keeps (Events permit) (callMain module function arguments) :=
  keeps_recording _ (events_closed.invokeMain module function arguments)

theorem grow_events (pages : Nat) : Keeps (Events permit) (grow pages) :=
  keeps_recording _ (keeps_growMemory pages)

end Machine

/-! ## Loading -/

/-- The function without its entry. -/
def Func.unplaced (func : Func) : Func :=
  { func with code := none }

/-- The global without its value. -/
def Global.unset (global : Global) : Global :=
  { global with slot := 0 }

/-- The module without what a machine fills in: entries, values of globals and the table. -/
def Module.outline (module : Module) : Module :=
  { module with
    functions := module.functions.map Func.unplaced
    globals := module.globals.map Global.unset
    table := #[] }

theorem map_modify_of_fixed {α β : Type} {f : α → β} {change : α → α} (h : ∀ item, f (change item) = f item)
    (items : Array α) (index : Nat) : (items.modify index change).map f = items.map f := by
  refine Array.ext_getElem? fun other => ?_
  simp only [Array.getElem?_map, Array.getElem?_modify]
  split
  · rw [Option.map_map, show f ∘ change = f from funext h]
  · rfl

theorem Module.outline_setGlobal (module : Module) (index : Nat) (slot : Slot) :
    outline { module with globals := module.globals.modify index ({ · with slot }) } = module.outline := by
  have hglobals : (module.globals.modify index ({ · with slot })).map Global.unset =
      module.globals.map Global.unset := by
    refine map_modify_of_fixed ?_ _ _
    exact fun _ => rfl
  unfold outline
  rw [hglobals]

/-- A machine that a module is loaded into, while loading goes on. -/
def Loading.machineState (state : Loading) (machine : Machine) : MachineState :=
  ⟨state.env, { machine with memory := state.memory }⟩

/-- Loading goes on: the environment and the linear memory change, and the module keeps all that loading does not fill
in. `bounds` says whether the linear memory may get another maximum. -/
structure Loading.Follows (bounds : Prop) (state state' : Loading) : Prop where
  events : ∀ (permit : Permit) (machine : Machine), (bounds → permit.bounds) →
    MachineState.Events permit (state.machineState machine) (state'.machineState machine)
  functions : state'.module.functions = state.module.functions
  outline : state'.module.outline = state.module.outline

variable {bounds : Prop}

instance : Std.Refl (Loading.Follows bounds) where
  refl _ := ⟨fun _ _ _ => .refl, rfl, rfl⟩

instance : IsTrans Loading (Loading.Follows bounds) where
  trans _ _ _ first second :=
    ⟨fun permit machine h => (first.events permit machine h).trans (second.events permit machine h),
      second.functions.trans first.functions, second.outline.trans first.outline⟩

namespace LoadM

open Loading

/-- A property of programs that holds of the steps of loading and of what is put together from them. -/
structure Closed (holds : (α : Type) → LoadM α → Prop) : Prop where
  pure : ∀ {α : Type} (value : α), holds α (pure value)
  throw : ∀ {α : Type} {error : Error}, error ≠ .moduleAlreadyLinked → holds α (throw error)
  bind : ∀ {α β : Type} {first : LoadM α} {second : α → LoadM β}, holds α first →
    (∀ value, holds β (second value)) → holds β (first >>= second)
  get : holds Loading get
  constValue : ∀ (expr : List UInt8) (type : ValType), holds (Slot × Nat) (constValue expr type)
  number : holds UInt32 (read Reader.varU32)
  skip : ∀ count : Nat, holds Unit (read (Reader.skip count))
  copySegment : ∀ segment : DataSegment, holds Unit (copySegment segment)
  /-- Fills in parts of the module. -/
  modify : ∀ {change : Loading → Loading},
    (∀ state, (change state).env = state.env ∧ (change state).memory = state.memory) →
    (∀ state, (change state).module.functions = state.module.functions ∧
      (change state).module.outline = state.module.outline) → holds Unit (modify change)

namespace Closed

variable {holds : (α : Type) → LoadM α → Prop} (h : Closed holds)

include h

theorem forM {α : Type} {step : α → LoadM PUnit} (items : List α) (hstep : ∀ item, holds PUnit (step item)) :
    holds PUnit (items.forM step) := by
  induction items with
  | nil => exact h.pure _
  | cons item items ih => exact h.bind (hstep item) fun _ => ih

theorem setGlobal (index : Nat) : holds Unit (setGlobal index) := by
  refine h.bind h.get fun state => ?_
  cases state.module.globals[index]? with
  | none => exact h.pure _
  | some global =>
    dsimp only
    cases global.initial with
    | none => exact h.pure _
    | some expr =>
      refine h.bind (h.constValue expr global.type) fun (slot, _) => h.modify (fun _ => ⟨rfl, rfl⟩) fun state => ?_
      exact ⟨rfl, state.module.outline_setGlobal index slot⟩

theorem setGlobals : holds Unit LoadM.setGlobals :=
  h.bind h.get fun _ => h.forM _ h.setGlobal

theorem copySegments : holds Unit LoadM.copySegments :=
  h.bind h.get fun _ => h.forM _ h.copySegment

theorem fillSlots (slot count : Nat) : holds Unit (fillSlots slot count) := by
  induction count generalizing slot with
  | zero => exact h.pure _
  | succ count ih =>
    refine h.bind h.number fun function => h.bind h.get fun state => ?_
    dsimp only
    split
    · exact h.throw nofun
    · exact h.bind (h.modify (fun _ => ⟨rfl, rfl⟩) fun _ => ⟨rfl, rfl⟩) fun _ => ih (slot + 1)

theorem reserveTable (size : Nat) : holds Unit (reserveTable size) := by
  refine h.bind h.get fun state => ?_
  split
  · exact h.throw nofun
  · exact h.pure _

theorem segmentHead : holds (UInt32 × UInt32) segmentHead := by
  refine h.bind h.number fun index => ?_
  dsimp only
  split
  · exact h.throw nofun
  · refine h.bind h.get fun state => h.bind (h.constValue _ _) fun (slot, length) => ?_
    exact h.bind (h.skip _) fun _ => h.bind h.number fun count => h.pure _

theorem segmentBody (offset count : UInt32) : holds Unit (segmentBody offset count) := by
  unfold LoadM.segmentBody
  dsimp only
  split
  · exact h.throw nofun
  · refine h.bind (h.reserveTable _) fun _ => ?_
    exact h.bind (h.modify (fun _ => ⟨rfl, rfl⟩) fun _ => ⟨rfl, rfl⟩) fun _ => h.fillSlots _ _

theorem elementSegment : holds Unit elementSegment :=
  h.bind h.segmentHead fun (offset, count) => h.segmentBody offset count

theorem elementSegments (count : Nat) : holds Unit (elementSegments count) := by
  induction count with
  | zero => exact h.pure _
  | succ count ih => exact h.bind h.elementSegment fun _ => ih

/-- Everything that is done once the linear memory is sized. -/
theorem fill : holds Unit (do LoadM.setGlobals; LoadM.copySegments; fillTable) := by
  refine h.bind h.setGlobals fun _ => h.bind h.copySegments fun _ => ?_
  refine h.bind (h.modify (fun _ => ⟨rfl, rfl⟩) fun _ => ⟨rfl, rfl⟩) fun _ => ?_
  exact h.bind h.get fun state => h.elementSegments _

end Closed

theorem keeps_modify {change : Loading → Loading}
    (hplace : ∀ state, (change state).env = state.env ∧ (change state).memory = state.memory)
    (hmodule : ∀ state, (change state).module.functions = state.module.functions ∧
      (change state).module.outline = state.module.outline) :
    Keeps (Follows bounds) (modify change : LoadM Unit) := by
  refine .modify fun state => ⟨fun permit machine _ => ?_, (hmodule state).1, (hmodule state).2⟩
  rw [machineState, machineState, (hplace state).1, (hplace state).2]

theorem keeps_constValue (expr : List UInt8) (type : ValType) : Keeps (Follows bounds) (constValue expr type) := by
  intro state
  have hevent := Environment.Event.constant state.module expr type state.env
  unfold constValue
  cases h : Environment.constValue state.module expr type state.env with
  | ok value env =>
    rw [h] at hevent
    exact ⟨fun _ _ _ => .single (.environment _ hevent), rfl, rfl⟩
  | error error env =>
    rw [h] at hevent
    exact ⟨fun _ _ _ => .single (.environment _ hevent), rfl, rfl⟩

theorem keeps_read {α : Type} (program : Read α) : Keeps (Follows bounds) (read program) := by
  intro state
  unfold read
  cases program state.input with
  | ok value input => exact ⟨fun _ _ _ => .refl, rfl, rfl⟩
  | error error input => exact ⟨fun _ _ _ => .refl, rfl, rfl⟩

/-- The linear memory gets its maximum and grows. -/
theorem follows_grow {state : Loading} {maximum pages : Nat} {after : MemoryState}
    (h : stateAfter (LinearMemory.growTo pages ⟨state.memory.setMaxPages maximum, state.env.heap⟩) = after) :
    Follows True state { state with memory := after.memory, env := { state.env with heap := after.heap } } := by
  refine ⟨fun permit machine hbounds => ?_, rfl, rfl⟩
  have hgrow := MemoryState.Event.grow pages ⟨state.memory.setMaxPages maximum, state.env.heap⟩
  rw [h] at hgrow
  exact .head (.bound state.env _ maximum (hbounds trivial)) (.single (.memory hgrow))

theorem keeps_sizeMemory : Keeps (Follows True) sizeMemory := by
  intro state
  unfold sizeMemory
  split
  · exact Std.Refl.refl state
  · dsimp only
    cases h : LinearMemory.growTo (state.module.memory.getD ⟨0, none⟩).initial _ with
    | ok value after => exact follows_grow (congrArg stateAfter h)
    | error error after => exact follows_grow (congrArg stateAfter h)

theorem keeps_copySegment (segment : DataSegment) : Keeps (Follows bounds) (copySegment segment) := by
  refine .bind (keeps_constValue _ _) fun (slot, _) => ?_
  intro state
  change Follows bounds state (stateAfter ((if !state.memory.allocated then _ else _ : LoadM Unit) state))
  split
  · exact Std.Refl.refl state
  · dsimp only
    split
    · exact Std.Refl.refl state
    · cases hwrite : state.memory.write slot.toNat segment.bytes with
      | ok memory => exact ⟨fun _ _ _ => .single (.memory (.write state.env.heap hwrite)), rfl, rfl⟩
      | error error => exact Std.Refl.refl state

theorem keeps_closed : Closed fun _ program => Keeps (Follows bounds) program where
  pure := .pure
  throw _ := .throw _
  bind := .bind
  get := .get
  constValue := keeps_constValue
  number := keeps_read _
  skip _ := keeps_read _
  copySegment := keeps_copySegment
  modify := keeps_modify

/-- Once the linear memory is sized, its maximum stays. -/
theorem keeps_fill : Keeps (Follows bounds) (do setGlobals; copySegments; fillTable) :=
  keeps_closed.fill

theorem keeps_prepare : Keeps (Follows True) prepare :=
  .bind keeps_sizeMemory fun _ => keeps_fill

end LoadM

namespace Machine

/-- What loading begins with. -/
def preparing (module : Module) (state : MachineState) : Loading where
  env := state.env
  memory := state.machine.memory
  module := { module with owner := some state.machine.id }

/-- A machine takes the module that was prepared for it. -/
def taking (state : MachineState) (after : Loading) : MachineState :=
  ⟨after.env, { state.machine with memory := after.memory, modules := state.machine.modules.push after.module }⟩

/-- The ways in which loading can go. -/
inductive Loaded (module : Module) (state : MachineState) : LoadOutcome × MachineState → Prop where
  /-- The module is in a machine. -/
  | present (hlinked : module.isLinked = true) :
      Loaded module state (.refused .moduleAlreadyLinked module,
        { state with machine := state.machine.record .moduleAlreadyLinked module.name none "" })
  /-- Preparing it fails. -/
  | refused {error : Error} {after : Loading} (hlinked : module.isLinked = false)
      (hprepare : LoadM.prepare (preparing module state) = .error error after) :
      Loaded module state (.refused error { after.module with owner := none },
        ⟨after.env, { state.machine with memory := after.memory }.record error after.module.name none ""⟩)
  /-- It has no start function. -/
  | linked {after : Loading} (hlinked : module.isLinked = false)
      (hprepare : LoadM.prepare (preparing module state) = .ok () after) (hstart : after.module.start = none) :
      Loaded module state (.linked state.machine.modules.size, taking state after)
  /-- Its start function returns. -/
  | started {after : Loading} {start : Nat} {final : MachineState} (hlinked : module.isLinked = false)
      (hprepare : LoadM.prepare (preparing module state) = .ok () after) (hstart : after.module.start = some start)
      (hrun : runStart state.machine.modules.size start (taking state after) = .ok () final) :
      Loaded module state (.linked state.machine.modules.size, final)
  /-- Its start function fails. -/
  | startFailed {error : Error} {after : Loading} {start : Nat} {final : MachineState}
      (hlinked : module.isLinked = false) (hprepare : LoadM.prepare (preparing module state) = .ok () after)
      (hstart : after.module.start = some start)
      (hrun : runStart state.machine.modules.size start (taking state after) = .error error final) :
      Loaded module state (.startFailed error state.machine.modules.size,
        { final with
          machine := final.machine.record error (final.machine.moduleName state.machine.modules.size)
            (final.machine.describe state.machine.modules.size start) "start function failed" })

theorem loaded (module : Module) (state : MachineState) : Loaded module state (load module state) := by
  unfold load
  cases hlinked : module.isLinked with
  | true => exact .present hlinked
  | false =>
    rw [if_neg Bool.false_ne_true]
    dsimp only
    split
    · rename_i hprepare
      exact .refused hlinked hprepare
    · rename_i hprepare
      split
      · rename_i hstart
        exact .linked hlinked hprepare hstart
      · rename_i hstart
        split
        · rename_i hrun
          exact .started hlinked hprepare hstart hrun
        · rename_i hrun
          exact .startFailed hlinked hprepare hstart hrun

/-- Loading a module that is in no machine adds its functions and may give the linear memory another maximum. -/
theorem load_events (module : Module) (state : MachineState) (hbounds : permit.bounds)
    (hloads : module.isLinked = false → permit.loads module.functions) :
    MachineState.Events permit state (load module state).2 := by
  have htaken {after : Loading} (hlinked : module.isLinked = false)
      (hprepare : LoadM.prepare (preparing module state) = .ok () after) :
      MachineState.Events permit state (taking state after) := by
    have hprepared := LoadM.keeps_prepare.of_ok hprepare
    refine (hprepared.events permit state.machine fun _ => hbounds).tail ?_
    exact .push _ _ (hprepared.functions ▸ hloads hlinked) (congrArg Module.owner hprepared.outline)
  have hloaded := loaded module state
  generalize load module state = outcome at hloaded ⊢
  cases hloaded with
  | present hlinked => exact .single (.tend _ rfl rfl rfl rfl)
  | refused hlinked hprepare =>
    have hprepared := LoadM.keeps_prepare.of_error hprepare
    exact (hprepared.events permit state.machine fun _ => hbounds).tail (.tend _ rfl rfl rfl rfl)
  | linked hlinked hprepare hstart => exact htaken hlinked hprepare
  | started hlinked hprepare hstart hrun =>
    exact (htaken hlinked hprepare).trans ((keeps_runStart _ _).of_ok hrun)
  | startFailed hlinked hprepare hstart hrun =>
    exact ((htaken hlinked hprepare).trans ((keeps_runStart _ _).of_error hrun)).tail (.tend _ rfl rfl rfl rfl)

/-- A module that is handed back was in a machine already, or it has its functions. -/
theorem load_refused {module module' : Module} {state state' : MachineState} {error : Error}
    (h : load module state = (.refused error module', state')) :
    module' = module ∧ module.isLinked = true ∨ module'.functions = module.functions ∧ module.isLinked = false := by
  have hloaded := loaded module state
  rw [h] at hloaded
  cases hloaded with
  | present hlinked => exact .inl ⟨rfl, hlinked⟩
  | refused hlinked hprepare => exact .inr ⟨(LoadM.keeps_prepare.of_error hprepare).functions, hlinked⟩

end Machine

end WasmEngine
