import WasmEngine.Proofs.Machine.Linking
import WasmEngine.Proofs.Machine.Quiet

/-!
# The record of the last failure

What a machine records can be told from outside: from the outcome of each operation, and from the names that the
machine has for the place of the failure (`Action.report`). The record is the last of these reports as a whole.
-/

namespace WasmEngine

open MachineState (SameRecord)

namespace Action

/-- What an operation with an outcome reports of a machine. The machine that it leaves behind tells the place of the
failure. -/
def report (session : Session) (id : MachineId) (after : Machine) :
    (action : Action) → action.Outcome → Option ErrorRecord
  | .load _ slot, some (.error ⟨error, none, _⟩) =>
    some
      { error := some error
        machine := some id
        module := (session.slots.get? slot).bind (·.name) }
  | .load _ slot, some (.error ⟨error, some index, _⟩) =>
    some
      { error := some error
        machine := some id
        module := after.moduleName index
        function := ((session.slots.get? slot).bind (·.start)).bind (after.describe index)
        message := "start function failed" }
  | .link _ index module field _ _, some (.error error) =>
    some
      { error := some error
        machine := some id
        module := after.moduleName index
        function := some field
        message := module ++ "." ++ field }
  | .find _ name, some (.error error) =>
    some
      { error := some error
        machine := some id
        module := after.moduleName (after.modules.size - 1)
        function := some name
        message := "'" ++ name ++ "'" }
  | .call _ index function _, some (.error error) =>
    some
      { error := some error
        machine := some id
        module := after.moduleName index
        function := after.describe index function }
  | .callMain _ index function _, some (.error error) =>
    some
      { error := some error
        machine := some id
        module := after.moduleName index
        function := after.describe index function }
  | .grow _ _, some (.error error) => some { error := some error, machine := some id }
  | .resetError _, _ => some {}
  | _, _ => none

end Action

namespace Session

/-- What an action reports of the machine with a name and a number. -/
def report (session : Session) (name : String) (id : MachineId) (action : Action) : Option ErrorRecord :=
  if action.machine? = some name then
    ((session.perform action).2.machines.get? name).bind fun after =>
      action.report session id after (session.perform action).1
  else none

/-- The reports of a machine in the order of the actions. -/
def reports (session : Session) (name : String) (id : MachineId) : List Action → List ErrorRecord
  | [] => []
  | action :: actions => (session.report name id action).toList ++ (session.perform action).2.reports name id actions

variable {session : Session} {name name' : String} {machine : Machine}

/-! ## One action -/

/-- The machine with a name is there, with its number and its record. -/
def Undisturbed (machine : Machine) (name : String) (session : Session) : Prop :=
  ∃ after, session.machines.get? name = some after ∧ after.id = machine.id ∧ after.error = machine.error

theorem machines_settle (session : Session) : session.settle.machines = session.machines := by
  unfold settle
  split <;> rfl

/-- Whatever is not an operation of a machine leaves its record alone. -/
theorem undisturbed_perform (hget : session.machines.get? name = some machine) {action : Action}
    (hother : action.machine? ≠ some name) (hkept : ¬action.Replaces name) :
    Undisturbed machine name (session.perform action).2 := by
  have hsame {session' : Session} (h : session'.machines.get? name = session.machines.get? name) :
      Undisturbed machine name session' := ⟨machine, h.trans hget, rfl, rfl⟩
  have hperforms := performs session action
  generalize (session.perform action).2 = session' at hperforms ⊢
  cases hperforms with
  | idle => exact hsame rfl
  | tend henv hheap hslots => exact hsame rfl
  | release => exact hsame (congrArg (·.get? name) (machines_settle _))
  | @create name' stackBytes made env hcreate =>
    exact hsame (Table.get?_put_of_ne fun heq => hkept (.inl ⟨stackBytes, heq ▸ rfl⟩))
  | @dispose name' found hfound =>
    have hne : name ≠ name' := fun heq => hkept (.inr (heq ▸ rfl))
    exact hsame (by rw [machines_settle, Table.get?_erase_of_ne hne])
  | @work _ name' found state slots hfound hevents hrecord hslots =>
    by_cases heq : name = name'
    · subst heq
      cases hget.symm.trans hfound
      obtain ⟨hid, herror⟩ := hrecord.resolve_left hother
      exact ⟨state.machine, Table.get?_put .., hid, herror⟩
    · exact hsame (Table.get?_put_of_ne heq)

/-- An operation that does not touch the record itself either succeeds and leaves the record alone, or fails and
replaces it as a whole. -/
theorem onMachine_record {α : Type} (hget : session.machines.get? name = some machine) {operation step : MachineM α}
    {describe : Machine → Option String × Option String × String}
    (report : Machine → Option (Except Error α) → Option ErrorRecord)
    (hoperation : operation = MachineM.recording describe step) (hstep : Keeps SameRecord step)
    (hok : ∀ after value, report after (some (.ok value)) = none)
    (herror : ∀ (found : Machine) (error : Error),
      report (found.record error (describe found).1 (describe found).2.1 (describe found).2.2) (some (.error error)) =
        some
          { error := some error
            machine := some machine.id
            module := (describe found).1
            function := (describe found).2.1
            message := (describe found).2.2 }) :
    ∃ after, (session.onMachine name operation).2.machines.get? name = some after ∧ after.id = machine.id ∧
      after.error = (report after (session.onMachine name operation).1).getD machine.error := by
  have hrun := hstep ⟨session.env, machine⟩
  simp only [onMachine, hget, hoperation, MachineM.recording]
  cases h : step ⟨session.env, machine⟩ with
  | ok value state =>
    rw [h] at hrun
    refine ⟨state.machine, Table.get?_put .., hrun.id, ?_⟩
    simp only [hok, Option.getD_none]
    exact hrun.record
  | error error state =>
    rw [h] at hrun
    refine ⟨_, Table.get?_put .., hrun.id, ?_⟩
    rw [herror, ← show state.machine.id = machine.id from hrun.id]
    rfl

/-- Linking one function records nothing, however it goes. -/
theorem sameRecord_linkFunction (index : Nat) (module field signature : String) (link : HostLink) (function : Nat) :
    Keeps SameRecord (Machine.linkFunction index module field signature link function) := by
  intro state
  have hcases := Machine.linkFunction_outcome index module field signature link function state
  generalize Machine.linkFunction index module field signature link function state = result at hcases ⊢
  cases hcases with
  | other hother => exact ⟨rfl, rfl⟩
  | unread hmatches hread => exact ⟨rfl, rfl⟩
  | mismatch hfunc hmatch hread htype => exact ⟨rfl, rfl⟩
  | refused hfunc hmatch hread htype hinstall => exact ⟨rfl, rfl⟩
  | bound hfunc hmatch hread htype hinstall => exact ⟨rfl, rfl⟩

/-- The record after a load: the one before it if the module is linked, and else the report of the failure. -/
theorem load_record (hget : session.machines.get? name = some machine) (slot : String) :
    ∃ after, (session.load name slot).2.machines.get? name = some after ∧ after.id = machine.id ∧
      after.error =
        (Action.report session machine.id after (.load name slot) (session.load name slot).1).getD machine.error := by
  unfold Session.load
  cases hslot : session.slots.get? slot with
  | none =>
    rw [hget]
    exact ⟨machine, hget, rfl, rfl⟩
  | some module =>
    rw [hget]
    dsimp only
    have hloaded := Machine.loaded module ⟨session.env, machine⟩
    generalize Machine.load module ⟨session.env, machine⟩ = outcome at hloaded ⊢
    cases hloaded with
    | present hlinked =>
      refine ⟨_, Table.get?_put .., rfl, ?_⟩
      simp only [Action.report, hslot]
      rfl
    | @refused error after hlinked hprepare =>
      have hname : after.module.name = module.name :=
        congrArg (·.name) (LoadM.keeps_prepare.of_error hprepare).outline
      refine ⟨_, Table.get?_put .., rfl, ?_⟩
      simp only [Action.report, hslot, Machine.record, hname, Option.bind_some, Option.getD_some]
    | linked hlinked hprepare hstart => exact ⟨_, Table.get?_put .., rfl, rfl⟩
    | started hlinked hprepare hstart hrun =>
      have hquiet := (Machine.sameRecord_closed.runStart _ _).of_ok hrun
      exact ⟨_, Table.get?_put .., hquiet.id, hquiet.record⟩
    | @startFailed error after start final hlinked hprepare hstart hrun =>
      have hquiet := (Machine.sameRecord_closed.runStart _ _).of_error hrun
      have hprepared := LoadM.keeps_prepare.of_ok hprepare
      have hmodule : module.start = some start := Eq.trans (congrArg (·.start) hprepared.outline).symm hstart
      refine ⟨_, Table.get?_put .., hquiet.id, ?_⟩
      rw [← show final.machine.id = machine.id from hquiet.id]
      simp only [Action.report, hslot, hmodule, Option.bind_some, Option.getD_some]
      rfl

/-- The record after an operation of the machine is the report of the operation, if it reports something. -/
theorem perform_record (hget : session.machines.get? name = some machine) {action : Action}
    (hkept : ¬action.Replaces name) :
    ∃ after, (session.perform action).2.machines.get? name = some after ∧ after.id = machine.id ∧
      after.error = (session.report name machine.id action).getD machine.error := by
  by_cases hother : action.machine? = some name
  · unfold report
    simp only [if_pos hother]
    -- An operation of the machine: the report is told by the outcome and the machine afterwards.
    suffices h : ∃ after, (session.perform action).2.machines.get? name = some after ∧ after.id = machine.id ∧
        after.error = (action.report session machine.id after (session.perform action).1).getD machine.error by
      obtain ⟨after, hafter, hid, herror⟩ := h
      exact ⟨after, hafter, hid, by rw [hafter]; exact herror⟩
    cases action with
    | load name' slot =>
      cases hother
      exact load_record hget slot
    | link name' index module field signature link =>
      cases hother
      obtain ⟨step, hlink, hstep⟩ := Machine.sameRecord_closed.link
        (sameRecord_linkFunction index module field signature link)
      exact onMachine_record hget
        (fun after => Action.report session machine.id after (.link name index module field signature link)) hlink hstep
        (fun _ _ => rfl) fun _ _ => rfl
    | find name' function =>
      cases hother
      obtain ⟨step, hfind, hstep⟩ := Machine.sameRecord_closed.find function
      exact onMachine_record hget (fun after => Action.report session machine.id after (.find name function)) hfind
        hstep (fun _ _ => rfl) fun _ _ => rfl
    | call name' index function arguments =>
      cases hother
      exact onMachine_record hget
        (fun after => Action.report session machine.id after (.call name index function arguments)) rfl
        (Machine.sameRecord_closed.invoke index function arguments .ordinary) (fun _ _ => rfl) fun _ _ => rfl
    | callMain name' index function arguments =>
      cases hother
      exact onMachine_record hget
        (fun after => Action.report session machine.id after (.callMain name index function arguments)) rfl
        (Machine.sameRecord_closed.invokeMain index function arguments) (fun _ _ => rfl) fun _ _ => rfl
    | grow name' pages =>
      cases hother
      exact onMachine_record hget (fun after => Action.report session machine.id after (.grow name pages)) rfl
        (Machine.sameRecord_closed.growMemory pages) (fun _ _ => rfl) fun _ _ => rfl
    | resetError name' =>
      cases hother
      simp only [perform, hget]
      exact ⟨_, Table.get?_put .., rfl, rfl⟩
    | _ => cases hother
  · unfold report
    simp only [if_neg hother]
    obtain ⟨after, hafter, hid, herror⟩ := undisturbed_perform hget hother hkept
    exact ⟨after, hafter, hid, herror⟩

/-! ## Every run -/

/-- Without any report, the record is the one from the beginning. -/
theorem performAll_record (hget : session.machines.get? name = some machine) {actions : List Action}
    (hkept : ∀ action ∈ actions, ¬action.Replaces name) :
    ∃ after, (session.performAll actions).machines.get? name = some after ∧ after.id = machine.id ∧
      after.error = (session.reports name machine.id actions).getLast?.getD machine.error := by
  induction actions generalizing session machine with
  | nil => exact ⟨machine, hget, rfl, rfl⟩
  | cons action actions ih =>
    obtain ⟨between, hbetween, hid, herror⟩ := perform_record hget (hkept action (List.mem_cons_self ..))
    obtain ⟨after, hafter, hid', herror'⟩ := ih hbetween fun later hlater => hkept later (List.mem_cons_of_mem _ hlater)
    refine ⟨after, hafter, hid'.trans hid, ?_⟩
    rw [herror', herror, hid, reports, List.getLast?_append]
    cases session.report name machine.id action with
    | none => simp
    | some record => cases ((session.perform action).2.reports name machine.id actions).getLast? <;> rfl

/-- A machine that was just made has an empty record. -/
theorem create_record {stackBytes : Nat} {made : MachineId × Nat}
    (h : (session.perform (.create name stackBytes)).1 = .ok made) :
    ∃ machine, (session.perform (.create name stackBytes)).2.machines.get? name = some machine ∧
      machine.id = made.1 ∧ machine.error = {} := by
  change (session.create name stackBytes).1 = .ok made at h
  change ∃ machine, (session.create name stackBytes).2.machines.get? name = some machine ∧ _
  unfold create at h ⊢
  cases hcreate : Machine.ofStackBytes stackBytes session.env with
  | error error env =>
    rw [hcreate] at h
    cases h
  | ok machine env =>
    rw [hcreate] at h
    cases h
    refine ⟨machine, Table.get?_put .., rfl, ?_⟩
    unfold Machine.ofStackBytes Machine.create at hcreate
    split at hcreate
    · cases hcreate
      rfl
    · cases hcreate

/-- The record of a machine is the last report since the machine was made, whatever the host does in between: the report
of the operation that failed last, with its error and the number of the machine, or an empty record if the record was
taken since or nothing failed at all. From any later point on, it is the last report since then, or else the record that
was there. -/
theorem record_eq_last {actions : List Action} (hkept : ∀ action ∈ actions, ¬action.Replaces name) :
    (∀ stackBytes made, (session.perform (.create name stackBytes)).1 = .ok made →
      let session' := (session.perform (.create name stackBytes)).2
      ∃ after, (session'.performAll actions).machines.get? name = some after ∧ after.id = made.1 ∧
        after.error = (session'.reports name made.1 actions).getLast?.getD {}) ∧
    ∀ machine, session.machines.get? name = some machine →
      ∃ after, (session.performAll actions).machines.get? name = some after ∧ after.id = machine.id ∧
        after.error = (session.reports name machine.id actions).getLast?.getD machine.error := by
  refine ⟨fun stackBytes made hcreate => ?_, fun machine hget => performAll_record hget hkept⟩
  obtain ⟨machine, hget, hid, herror⟩ := create_record hcreate
  rw [← hid, ← herror]
  exact performAll_record hget hkept

/-- The record of a new machine is empty. A failed growth is taken, a lookup fails, and what another machine fails at
does not matter. -/
theorem record_eq_last_lookup :
    let session := start {} (.ofBackends .threaded .threaded none) (.system 0)
    let created := session.perform (.create "a" 64)
    let actions : List Action :=
      [.grow "a" 70000, .resetError "a", .find "a" "f", .grow "a" 1, .create "b" 64, .find "b" "g"]
    ∃ machine after, created.1 = .ok (⟨0⟩, 8) ∧ (∀ action ∈ actions, ¬action.Replaces "a") ∧
      created.2.machines.get? "a" = some machine ∧ machine.error = {} ∧
      (created.2.performAll actions).machines.get? "a" = some after ∧
      (after.error.error, after.error.machine, after.error.function) = (some .noModulesLoaded, some ⟨0⟩, some "f") := by
  intro session created actions
  have hcreate : created.1 = .ok (⟨0⟩, 8) := by decide +kernel
  have hlast : (created.2.reports "a" ⟨0⟩ actions).getLast?.map (fun record =>
      (record.error, record.machine, record.function)) = some (some .noModulesLoaded, some ⟨0⟩, some "f") := by
    decide +kernel
  have hkept : ∀ action ∈ actions, ¬action.Replaces "a" := by
    simp [actions, Action.Replaces]
  have hnone : ∀ action ∈ ([] : List Action), ¬action.Replaces "a" := by simp
  obtain ⟨machine, hget, -, hempty⟩ := (record_eq_last hnone).1 64 _ hcreate
  obtain ⟨after, hafter, -, herror⟩ := (record_eq_last hkept).1 64 _ hcreate
  obtain ⟨record, hrecord, hfields⟩ := Option.map_eq_some_iff.1 hlast
  rw [hrecord, Option.getD_some] at herror
  exact ⟨machine, after, hcreate, hkept, hget, hempty, hafter, herror ▸ hfields⟩

end Session

end WasmEngine
