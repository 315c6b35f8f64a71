import WasmEngine.Proofs.Machine.Events

/-!
# What loading fills in

Loading sets globals that have an initial value, extends the table, and sets slots of the table. A run of loading is a
list of such steps, and steps that are taken again have no part in what the module becomes.
-/

namespace WasmEngine

/-- A step of filling in a module. -/
inductive FillStep where
  /-- Sets a global, unless it has no initial value. -/
  | setGlobal (index : Nat) (slot : Slot)
  /-- Makes the table at least so long. -/
  | extendTable (size : Nat)
  /-- Sets a slot of the table, which is made long enough. -/
  | setSlot (slot function : Nat)

/-- Sets the value of a global that has an initial value. -/
def Global.fill (slot : Slot) (global : Global) : Global :=
  if global.initial.isSome then { global with slot } else global

namespace FillStep

/-- What a step does to the globals. -/
def onGlobals : FillStep → Array Global → Array Global
  | .setGlobal index slot, globals => globals.modify index (Global.fill slot)
  | .extendTable _, globals => globals
  | .setSlot _ _, globals => globals

/-- What a step does to the table. -/
def onTable : FillStep → Array (Option Nat) → Array (Option Nat)
  | .setGlobal _ _, table => table
  | .extendTable size, table => LoadM.extendTable table size
  | .setSlot slot function, table => (LoadM.extendTable table (slot + 1)).setIfInBounds slot (some function)

/-- The value that a step gives a global. -/
def value? : FillStep → Nat → Option Slot
  | .setGlobal index slot, other => if index = other then some slot else none
  | .extendTable _, _ => none
  | .setSlot _ _, _ => none

/-- The function that a step puts into a slot of the table. -/
def content? : FillStep → Nat → Option Nat
  | .setGlobal _ _, _ => none
  | .extendTable _, _ => none
  | .setSlot slot function, other => if slot = other then some function else none

/-- How long the table is after a step at least. -/
def reach : FillStep → Nat
  | .setGlobal _ _ => 0
  | .extendTable size => size
  | .setSlot slot _ => slot + 1

/-- The globals after some steps. -/
def globalsAfter (steps : List FillStep) (globals : Array Global) : Array Global :=
  steps.foldl (fun globals step => step.onGlobals globals) globals

/-- The table after some steps. -/
def tableAfter (steps : List FillStep) (table : Array (Option Nat)) : Array (Option Nat) :=
  steps.foldl (fun table step => step.onTable table) table

end FillStep

namespace Module

/-- The module after some steps. -/
def fill (module : Module) (steps : List FillStep) : Module :=
  { module with
    globals := FillStep.globalsAfter steps module.globals
    table := FillStep.tableAfter steps module.table }

/-- The module without what loading fills in and without its owner. -/
def blueprint (module : Module) : Module :=
  { module.outline with owner := none }

end Module

/-! ## Globals -/

namespace Global

theorem unset_fill (slot : Slot) (global : Global) : (global.fill slot).unset = global.unset := by
  unfold fill
  split <;> rfl

theorem fill_fill (slot slot' : Slot) (global : Global) : (global.fill slot).fill slot' = global.fill slot' := by
  unfold fill
  split <;> simp_all

theorem fill_slot (global : Global) : global.fill global.slot = global := by
  unfold fill
  split <;> rfl

/-- The value that is set last counts. -/
theorem fill_getD_fill_getD (global : Global) (first second : Option Slot) :
    (global.fill (first.getD global.slot)).fill (second.getD (global.fill (first.getD global.slot)).slot) =
      global.fill ((second.or first).getD global.slot) := by
  cases second with
  | none => exact fill_slot _
  | some slot => exact fill_fill _ _ _

theorem fill_of_imported {global : Global} (h : global.initial = none) (slot : Slot) : global.fill slot = global := by
  simp [fill, h]

end Global

namespace FillStep

theorem getElem?_onGlobals (step : FillStep) (globals : Array Global) (index : Nat) :
    (step.onGlobals globals)[index]? =
      globals[index]?.map fun global => global.fill ((step.value? index).getD global.slot) := by
  have hsame : globals[index]? = globals[index]?.map fun global => global.fill global.slot := by
    simp [Global.fill_slot]
  cases step with
  | setGlobal target slot =>
    simp only [onGlobals, value?, Array.getElem?_modify]
    by_cases heq : target = index
    · simp only [if_pos heq, Option.getD_some]
    · simp only [if_neg heq, Option.getD_none]
      exact hsame
  | extendTable size => exact hsame
  | setSlot slot function => exact hsame

/-- A list of steps puts its own values over those of the globals. -/
theorem getElem?_globalsAfter (steps : List FillStep) :
    ∃ values : Nat → Option Slot, ∀ (globals : Array Global) (index : Nat),
      (globalsAfter steps globals)[index]? =
        globals[index]?.map fun global => global.fill ((values index).getD global.slot) := by
  induction steps with
  | nil => exact ⟨fun _ => none, fun globals index => by simp [globalsAfter, Global.fill_slot]⟩
  | cons step steps ih =>
    obtain ⟨values, hvalues⟩ := ih
    refine ⟨fun index => (values index).or (step.value? index), fun globals index => ?_⟩
    change (globalsAfter steps (step.onGlobals globals))[index]? = _
    rw [hvalues, getElem?_onGlobals, Option.map_map]
    exact congrArg (Option.map · _) (funext fun global => global.fill_getD_fill_getD _ _)

theorem unset_globalsAfter (steps : List FillStep) (globals : Array Global) :
    (globalsAfter steps globals).map Global.unset = globals.map Global.unset := by
  obtain ⟨values, hvalues⟩ := getElem?_globalsAfter steps
  refine Array.ext_getElem? fun index => ?_
  rw [Array.getElem?_map, Array.getElem?_map, hvalues, Option.map_map]
  exact congrArg (Option.map · _) (funext fun global => global.unset_fill _)

/-! ## Tables -/

theorem size_extendTable (table : Array (Option Nat)) (size : Nat) :
    (LoadM.extendTable table size).size = max table.size size := by
  simp only [LoadM.extendTable, Array.size_append, Array.size_replicate]
  omega

/-- New slots are empty. -/
theorem join_extendTable (table : Array (Option Nat)) (size slot : Nat) :
    (LoadM.extendTable table size)[slot]?.join = table[slot]?.join := by
  unfold LoadM.extendTable
  rcases Nat.lt_or_ge slot table.size with hlt | hle
  · rw [Array.getElem?_append_left hlt]
  · rw [Array.getElem?_append_right hle, Array.getElem?_eq_none hle, Array.getElem?_replicate]
    split <;> rfl

theorem size_onTable (step : FillStep) (table : Array (Option Nat)) :
    (step.onTable table).size = max table.size step.reach := by
  cases step with
  | setGlobal index slot => exact (Nat.max_zero _).symm
  | extendTable size => exact size_extendTable table size
  | setSlot slot function => rw [onTable, Array.size_setIfInBounds, size_extendTable, reach]

theorem join_onTable (step : FillStep) (table : Array (Option Nat)) (slot : Nat) :
    (step.onTable table)[slot]?.join = (step.content? slot).or table[slot]?.join := by
  cases step with
  | setGlobal index value => rfl
  | extendTable size => exact join_extendTable table size slot
  | setSlot target function =>
    have hlt : target < (LoadM.extendTable table (target + 1)).size := by
      rw [size_extendTable]
      omega
    simp only [onTable, content?, Array.getElem?_setIfInBounds]
    by_cases heq : target = slot
    · simp [heq ▸ hlt, heq]
    · simp [heq, join_extendTable]

/-- A list of steps puts its own content over that of the table. -/
theorem join_tableAfter (steps : List FillStep) :
    ∃ (size : Nat) (contents : Nat → Option Nat), ∀ table : Array (Option Nat),
      (tableAfter steps table).size = max table.size size ∧
      ∀ slot : Nat, (tableAfter steps table)[slot]?.join = (contents slot).or table[slot]?.join := by
  induction steps with
  | nil => exact ⟨0, fun _ => none, fun table => ⟨by simp [tableAfter], fun slot => rfl⟩⟩
  | cons step steps ih =>
    obtain ⟨size, contents, hafter⟩ := ih
    refine ⟨max step.reach size, fun slot => (contents slot).or (step.content? slot), fun table => ?_⟩
    obtain ⟨hsize, hcontents⟩ := hafter (step.onTable table)
    refine ⟨hsize.trans ?_, fun slot => (hcontents slot).trans ?_⟩
    · rw [size_onTable, Nat.max_assoc]
    · rw [join_onTable, Option.or_assoc]

/-- A table is known from its size and what is in its slots. -/
theorem table_ext {table table' : Array (Option Nat)} (hsize : table.size = table'.size)
    (h : ∀ slot : Nat, table[slot]?.join = table'[slot]?.join) : table = table' := by
  refine Array.ext hsize fun slot hlt hlt' => ?_
  simpa [hlt, hlt'] using h slot

theorem tableAfter_twice (steps : List FillStep) (table : Array (Option Nat)) :
    tableAfter steps (tableAfter steps table) = tableAfter steps table := by
  obtain ⟨size, content, hafter⟩ := join_tableAfter steps
  refine table_ext ?_ fun slot => ?_
  · rw [(hafter _).1, (hafter table).1, Nat.max_assoc, Nat.max_self]
  · rw [(hafter _).2, (hafter table).2]
    cases content slot <;> rfl

theorem globalsAfter_twice (steps : List FillStep) (globals : Array Global) :
    globalsAfter steps (globalsAfter steps globals) = globalsAfter steps globals := by
  obtain ⟨values, hvalues⟩ := getElem?_globalsAfter steps
  refine Array.ext_getElem? fun index => ?_
  rw [hvalues, hvalues, Option.map_map]
  refine congrArg (Option.map · _) (funext fun global => ?_)
  exact (global.fill_getD_fill_getD _ _).trans (by rw [Option.or_self])

end FillStep

/-! ## Modules -/

namespace Module

theorem fill_append (module : Module) (first second : List FillStep) :
    module.fill (first ++ second) = (module.fill first).fill second := by
  unfold fill FillStep.globalsAfter FillStep.tableAfter
  rw [List.foldl_append, List.foldl_append]

/-- Steps that were taken before do not matter to a run that takes them again. -/
theorem fill_of_prefix (module : Module) {taken steps : List FillStep} (h : taken <+: steps) :
    (module.fill taken).fill steps = module.fill steps := by
  obtain ⟨rest, rfl⟩ := h
  have htwice : (module.fill taken).fill taken = module.fill taken := by
    unfold fill
    dsimp only
    rw [FillStep.globalsAfter_twice, FillStep.tableAfter_twice]
  rw [fill_append, fill_append, htwice]

@[simp]
theorem blueprint_fill (module : Module) (steps : List FillStep) : (module.fill steps).blueprint = module.blueprint := by
  unfold blueprint outline fill
  dsimp only
  rw [FillStep.unset_globalsAfter]

/-- Imported globals are left as they are. -/
theorem getElem?_fill_of_imported {module : Module} {index : Nat}
    (h : ∀ global, module.globals[index]? = some global → global.initial = none) (steps : List FillStep) :
    (module.fill steps).globals[index]? = module.globals[index]? := by
  obtain ⟨values, hvalues⟩ := FillStep.getElem?_globalsAfter steps
  change (FillStep.globalsAfter steps module.globals)[index]? = _
  rw [hvalues]
  cases hglobal : module.globals[index]? with
  | none => rfl
  | some global => rw [Option.map_some, Global.fill_of_imported (h global hglobal)]

end Module

end WasmEngine
