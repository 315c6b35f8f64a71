import Mathlib.Data.List.Pairwise
import WasmEngine.Proofs.Machine.Admission
import WasmEngine.Proofs.Machine.Crowding
import WasmEngine.Proofs.Threaded.Execution

/-!
# Links that succeed

A link that succeeds puts a call of its host function behind the code of the machine for each import that it binds.
What it does to functions and to code follows by induction on `Machine.Installs`, and `HostLink.CalledAt` says what a
call of such an import does.
-/

namespace WasmEngine

/-! ## Calls of host functions -/

/-- An executor that runs calls of host functions and nothing else, or the threaded one. -/
def Executor.CallsHosts (executor : Executor) : Prop :=
  executor = .nativeOnly ∨ ∃ fuel, executor = Threaded.executor (fuel + 1)

namespace HostLink

/-- What a host function does with its frame at a slot: its slots are those of the stack from there on. -/
def perform (link : HostLink) (sp : Nat) (exec : ExecState) : Except Error Unit × ExecState :=
  (link.function.body link.cookie).run.run (ExecState.answerFrame sp) exec

/-- Whatever code comes to stand behind some code, what stands at an entry calls a host function: as the code that an
executor starts with, and as a call in threaded code, which then goes on. -/
structure CalledAt (link : HostLink) (code : CodeStore) (entry : CodeRef) : Prop where
  started : ∀ (exec : ExecState) (found : Module) (purpose : CallPurpose), code.Extends exec.area.code →
    exec.area.env.host.executor.CallsHosts → exec.execute found purpose entry = link.perform 0 exec
  returned : ∀ (exec between : ExecState) (found : Module) (fuel sp : Nat) (after : Exec Unit),
    code.Extends exec.area.code → sp ≤ exec.stack.size → link.perform sp exec = (.ok (), between) →
    (Threaded.run found (fuel + 1) { pc := entry, sp } after).exec found exec = after.exec found between
  failed : ∀ (exec between : ExecState) (found : Module) (fuel sp : Nat) (after : Exec Unit) (error : Error),
    code.Extends exec.area.code → sp ≤ exec.stack.size → link.perform sp exec = (.error error, between) →
    (Threaded.run found (fuel + 1) { pc := entry, sp } after).exec found exec = (.error error, between)

variable {link : HostLink} {code : CodeStore} {entry : CodeRef}

theorem exec_callNative (link : HostLink) {sp : Nat} {exec : ExecState} (hsp : sp ≤ exec.stack.size) (found : Module) :
    (Exec.callNative link.function sp link.cookie).exec found exec = link.perform sp exec := by
  change exec.callNative link.function sp link.cookie = _
  unfold ExecState.callNative perform
  rw [if_pos hsp]

/-- The lines of a link call its host function. -/
theorem calledAt_of_holds (h : code.Holds entry link.lines) : link.CalledAt code entry where
  started exec found purpose hextends hexecutor := by
    have hcall := link.exec_callNative (Nat.zero_le exec.stack.size) found
    have hholds := h.extends hextends
    change (exec.area.env.host.executor.run found purpose entry).exec found exec = _
    rcases hexecutor with hexecutor | ⟨fuel, hexecutor⟩
    · rw [hexecutor]
      exact (Exec.exec_callNativeAt hholds).trans hcall
    · rw [hexecutor]
      refine (Threaded.run_native hholds).trans ?_
      rw [← hcall]
      cases hfirst : (Exec.callNative link.function 0 link.cookie).exec found exec with
      | mk result between =>
        cases result with
        | ok value => exact Exec.exec_bind_ok hfirst _
        | error error => exact Exec.exec_bind_error hfirst _
  returned exec between found fuel sp after hextends hsp hperform := by
    rw [Threaded.run_native (h.extends hextends)]
    exact Exec.exec_bind_ok ((link.exec_callNative hsp found).trans hperform) _
  failed exec between found fuel sp after error hextends hsp hperform := by
    rw [Threaded.run_native (h.extends hextends)]
    exact Exec.exec_bind_error ((link.exec_callNative hsp found).trans hperform) _

end HostLink

namespace Machine

variable {index : Nat} {module field signature : String} {link : HostLink} {firstOnly : Bool}

/-! ## Entries -/

/-- Two functions of a module have no line in common among the first so many at their entries. -/
def EntriesApart (machine : Machine) (index length first second : Nat) : Prop :=
  ∀ entry entry', machine.placement.entryOf index first = some entry →
    machine.placement.entryOf index second = some entry' → entry.Apart length entry' length

instance (machine : Machine) (index length : Nat) : Std.Symm (machine.EntriesApart index length) where
  symm _ _ h entry entry' hentry hentry' := (h entry' entry hentry' hentry).symm

/-- No two of the imports share a line. -/
theorem Installs.apart {functions : List Nat} {state state' : MachineState}
    (h : Installs signature link index functions state state') (hnodup : functions.Nodup)
    (haddr : state'.machine.code.Addressable) :
    functions.Pairwise (state'.machine.EntriesApart index link.lines.length) := by
  induction h with
  | nil => exact .nil
  | @cons first rest state state' func handle registry entry area hfunc hread htype hinstall h ih =>
    obtain ⟨hfirst, hrest⟩ := List.nodup_cons.1 hnodup
    refine List.pairwise_cons.2 ⟨fun second hsecond start start' hstart hstart' => ?_, ih hrest haddr⟩
    -- What is installed first stands in the code before the others are installed.
    have hgains := (CodeArea.install_ok hinstall).2 (haddr.of_grows h.code.grows)
    obtain ⟨found, entry', -, -, hbound, hgains'⟩ := h.bound hrest second hsecond
    have hentered : state'.machine.func? index first = some { func with code := some entry } := by
      rw [h.kept index first fun hbound => hfirst hbound.2, func?_storeCode_single]
      exact Placement.enter_self hfunc entry
    cases hstart.symm.trans (Placement.entryOf_eq_some.2 ⟨_, hentered, rfl⟩)
    cases hstart'.symm.trans (Placement.entryOf_eq_some.2 ⟨_, hbound, rfl⟩)
    exact ((hgains' haddr).apart hgains.holds).symm

/-! ## Calls of imports -/

/-- As long as an import has its entry and no code is lost, a call that is admitted runs the host function on the stack
with the arguments. -/
def CallsRun (link : HostLink) (code : CodeStore) (index function : Nat) (entry : CodeRef) : Prop :=
  ∀ (later : MachineState) (texts : List String) (found : Module) (func : Func) (start : CodeRef) (slots : List Slot),
    code.Extends later.machine.code → later.machine.placement.entryOf index function = some entry →
    later.env.host.executor.CallsHosts →
    Decides later.machine index function texts (.admitted found func start slots) →
    ∃ stack : Array Slot, Holding slots later.machine.stack stack ∧
      call index function texts later = MachineM.recording (callRecord index function)
        (fun _ => conclude later.machine index func.type.type
          (link.perform 0 ⟨⟨later.env, later.machine.code⟩, stack, later.machine.memory, []⟩)) later

theorem callsRun_of_calledAt {code : CodeStore} {entry : CodeRef} (h : link.CalledAt code entry) (function : Nat) :
    CallsRun link code index function entry := by
  intro later texts found func start slots hextends hentry hexecutor hdecides
  obtain ⟨-, stack, hholding, hcall⟩ := hdecides.call_admitted
  have hhas := hdecides.hasEntry
  have hfunc : later.machine.func? index function = some func :=
    Option.bind_eq_some_iff.2 ⟨found, hhas.module, hhas.function⟩
  have hstart : later.machine.placement.entryOf index function = some start :=
    Placement.entryOf_eq_some.2 ⟨func, hfunc, hhas.entry⟩
  cases hentry.symm.trans hstart
  refine ⟨stack, hholding, ?_⟩
  rw [hcall, h.started _ found .ordinary hextends hexecutor]

/-! ## Links -/

/-- A link that succeeds binds the imports of its module that go by its field and its module, or the first of them if
it has a cookie. There is at least one, and no other function changes. Each has the type that the signature denotes and
gets an entry, and all the code that was there stays. As long as all lines have numbers, the entry is behind that code,
no two entries share a line, and the lines there are the call of the host function, with its cookie. Running them runs
the host function on the stack from its frame on, and so does a call of the import that is admitted. -/
theorem link_binds {state state' : MachineState}
    (h : Machine.link index module field signature link state = .ok () state') :
    (∃ function, state.machine.IsTarget index module field link function) ∧
    (∀ index' function, ¬(index' = index ∧ state.machine.IsTarget index module field link function) →
      state'.machine.func? index' function = state.machine.func? index' function) ∧
    (∀ function, state.machine.IsTarget index module field link function → ∃ func entry,
      state.machine.func? index function = some func ∧
      FuncType.ofSignature? state.env.config.argumentLimit signature = .ok func.type.type ∧
      state'.machine.func? index function = some { func with code := some entry } ∧
      (state'.machine.code.Addressable →
        (state.machine.code.text entry.page).length ≤ entry.line ∧
        (link.cookie = none → state'.machine.code.Holds entry [.op Line.callNative, .native link.function]) ∧
        (∀ cookie, link.cookie = some cookie →
          state'.machine.code.Holds entry [.op Line.callNativeWithCookie, .native link.function, .imm cookie]) ∧
        link.CalledAt state'.machine.code entry ∧ CallsRun link state'.machine.code index function entry)) ∧
    state.machine.code.Extends state'.machine.code ∧
    (state'.machine.code.Addressable → ∀ first second, state.machine.IsTarget index module field link first →
      state.machine.IsTarget index module field link second → first ≠ second →
      state'.machine.EntriesApart index link.lines.length first second) := by
  obtain ⟨functions, hnodup, hsome, htargets, hinstalls⟩ := installs_of_link h
  refine ⟨?_, fun index' function hnot => ?_, fun function htarget => ?_, hinstalls.code, fun haddr => ?_⟩
  · obtain ⟨function, hmem⟩ := List.exists_mem_of_ne_nil functions hsome
    exact ⟨function, (htargets function).1 hmem⟩
  · exact hinstalls.kept index' function fun hbound => hnot ⟨hbound.1, (htargets function).1 hbound.2⟩
  · obtain ⟨func, entry, hfunc, hsignature, hbound, hgains⟩ :=
      hinstalls.bound hnodup function ((htargets function).2 htarget)
    refine ⟨func, entry, hfunc, hsignature, hbound, fun haddr => ?_⟩
    obtain ⟨-, hfresh, hholds⟩ := hgains haddr
    have hcalled := HostLink.calledAt_of_holds hholds
    refine ⟨hfresh, fun hcookie => ?_, fun cookie hcookie => ?_, hcalled, callsRun_of_calledAt hcalled function⟩
    · rw [HostLink.lines, hcookie] at hholds
      exact hholds
    · rw [HostLink.lines, hcookie] at hholds
      exact hholds
  · intro first second hfirst hsecond hne
    exact (hinstalls.apart hnodup haddr).forall ((htargets first).2 hfirst) ((htargets second).2 hsecond) hne

/-- Of three imports, a link to a field of any module binds the first and the third; with a cookie it binds the first
only. -/
theorem link_binds_any :
    let link : HostLink := { function := ⟨fun _ => pure ()⟩ }
    let linkWithCookie : HostLink := { link with cookie := some 7 }
    let session := (Session.start {} (.ofBackends .threaded .threaded none) (.system 0)).performAll
      [.build "m" [.importFunction ⟨"env", "f"⟩ "v()", .importFunction ⟨"env", "g"⟩ "v()",
          .importFunction ⟨"host", "f"⟩ "v()"],
        .create "a" 64, .load "a" "m"]
    ∃ machine bound boundOnce, session.machines.get? "a" = some machine ∧
      Machine.link 0 "*" "f" "v()" link ⟨session.env, machine⟩ = .ok () bound ∧
      Machine.link 0 "*" "f" "v()" linkWithCookie ⟨session.env, machine⟩ = .ok () boundOnce ∧
      machine.IsTarget 0 "*" "f" link 0 ∧ machine.IsTarget 0 "*" "f" link 2 ∧
      bound.machine.func? 0 1 = machine.func? 0 1 ∧ bound.machine.EntriesApart 0 2 0 2 ∧
      (∃ entry, bound.machine.placement.entryOf 0 2 = some entry ∧ CallsRun link bound.machine.code 0 2 entry) ∧
      boundOnce.machine.func? 0 2 = machine.func? 0 2 := by
  intro link linkWithCookie session
  have hlinked : (session.machines.get? "a").map (fun machine =>
      (resultOf (Machine.link 0 "*" "f" "v()" link ⟨session.env, machine⟩),
        resultOf (Machine.link 0 "*" "f" "v()" linkWithCookie ⟨session.env, machine⟩))) =
      some (.ok (), .ok ()) := by
    decide +kernel
  have hsizes : (session.machines.get? "a").map (fun machine =>
      (stateAfter (Machine.link 0 "*" "f" "v()" link ⟨session.env, machine⟩)).machine.code.pages.all
          fun page => page.lines.size ≤ 0xFFFFFFFF) = some true := by
    decide +kernel
  have hfields : (session.machines.get? "a").map (fun machine =>
      (List.range 3).map fun function => (machine.func? 0 function).map (·.imported)) =
      some [some (some ⟨"env", "f"⟩), some (some ⟨"env", "g"⟩), some (some ⟨"host", "f"⟩)] := by
    decide +kernel
  obtain ⟨machine, hget, hfields⟩ := Option.map_eq_some_iff.1 hfields
  rw [hget, Option.map_some, Option.some.injEq] at hlinked hsizes
  obtain ⟨hlink, hlinkOnce⟩ := Prod.ext_iff.1 hlinked
  have himports (function : Nat) (name : ImportName)
      (hname : (machine.func? 0 function).map (·.imported) = some (some name)) (hfield : name.field = "f") :
      machine.Imports 0 "*" "f" function := by
    obtain ⟨func, hfunc, himported⟩ := Option.map_eq_some_iff.1 hname
    exact ⟨func, name, hfunc, himported, hfield, .inl rfl⟩
  have hfirst : machine.Imports 0 "*" "f" 0 := himports 0 _ (Option.some.inj (congrArg (·[0]?) hfields)) rfl
  have hthird : machine.Imports 0 "*" "f" 2 := himports 2 _ (Option.some.inj (congrArg (·[2]?) hfields)) rfl
  have hsecond : ¬machine.Imports 0 "*" "f" 1 := by
    rintro ⟨func, name, hfunc, himported, hfield, -⟩
    have hname : (machine.func? 0 1).map (·.imported) = some (some ⟨"env", "g"⟩) :=
      Option.some.inj (congrArg (·[1]?) hfields)
    rw [hfunc, Option.map_some, himported] at hname
    cases hname
    exact absurd hfield (by decide)
  have htarget : machine.IsTarget 0 "*" "f" link 0 := ⟨hfirst, nofun⟩
  have htarget' : machine.IsTarget 0 "*" "f" link 2 := ⟨hthird, nofun⟩
  have hbound := eq_ok_of_resultOf hlink
  have hboundOnce := eq_ok_of_resultOf hlinkOnce
  have haddr := CodeStore.addressable_of_all hsizes
  obtain ⟨-, hkept, hentries, -, hapart⟩ := link_binds hbound
  obtain ⟨-, hkeptOnce, -⟩ := link_binds hboundOnce
  obtain ⟨func, entry, -, -, hfunc, hplaced⟩ := hentries 2 htarget'
  obtain ⟨-, -, -, -, hcalls⟩ := hplaced haddr
  refine ⟨machine, _, _, hget, hbound, hboundOnce, htarget, htarget', hkept 0 1 fun h => hsecond h.2.imports,
    hapart haddr 0 2 htarget htarget' (by decide), ⟨entry, ?_, hcalls⟩, hkeptOnce 0 2 fun h => ?_⟩
  · exact Placement.entryOf_eq_some.2 ⟨_, hfunc, rfl⟩
  · exact h.2.first rfl 0 (by decide) hfirst

/-- A call of an import that is bound is refused if the arguments do not fit on the stack. Where lines have no numbers
any more, a link succeeds and gives two imports the same entry. -/
theorem bound_import_not_run :
    let link : HostLink := { function := ⟨fun _ => pure ()⟩ }
    let session := (Session.start {} (.ofBackends .threaded .threaded none) (.system 0)).performAll
      [.build "m" [.importFunction ⟨"env", "f"⟩ "v(ii)"], .create "a" 8, .load "a" "m",
        .link "a" 0 "env" "f" "v(ii)" link]
    ((session.machines.get? "a").bind (fun machine => machine.placement.entryOf 0 0) = some ⟨0, 0⟩ ∧
      (session.perform (.call "a" 0 0 ["1", "2"])).1 = some (.error (.trap .stackOverflow))) ∧
    ∃ count machine after, (Session.relinked count).machines.get? "a" = some machine ∧
      Machine.link 0 "env" "f" "v()" link ⟨(Session.relinked count).env, machine⟩ = .ok () after ∧
      after.machine.placement.entryOf 0 0 = some ⟨0, 0xFFFFFFFF⟩ ∧
      after.machine.placement.entryOf 0 1 = some ⟨0, 0xFFFFFFFF⟩ := by
  intro link session
  exact ⟨by decide +kernel, Session.exists_sharedEntry rfl⟩

end Machine

end WasmEngine
