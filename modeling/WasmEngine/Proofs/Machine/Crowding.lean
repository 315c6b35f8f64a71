import WasmEngine.Proofs.Machine.FailedLoad
import WasmEngine.Proofs.Machine.Linking
import WasmEngine.Proofs.Session.Success

/-!
# Code behind the last line that has a number

On a page with more lines than have numbers, the next line is said to be at the highest number (`CodePage.pc`), where
other code stands already. A session gets there by linking over and over.
-/

namespace WasmEngine

/-! ## Code on one page -/

/-- All code is on one page, which nobody holds and which is open. -/
structure CodeStore.OnPage (store : CodeStore) (page : CodePage) : Prop where
  pages : store.pages = #[page]
  openHead : store.openHead = some 0
  usage : page.usage = 0
  next : page.next = none

/-- A page with more lines. -/
def CodePage.append (page : CodePage) (lines : List Line) : CodePage :=
  { page with lines := page.lines ++ lines.toArray }

namespace CodeArea

variable {area : CodeArea} {page : CodePage}

/-- The page is acquired as long as it has room. -/
theorem acquire_onPage (h : area.code.OnPage page) {minLines : Nat}
    (hroom : minLines ≤ page.freeLines) :
    ∃ code, acquire minLines area = .ok 0 ⟨area.env, code⟩ ∧ code.pages = #[{ page with usage := 1 }] ∧
      code.openHead = none := by
  obtain ⟨env, ⟨pages, openHead, fullHead, numOpen, numFull, numActive, numTotal⟩⟩ := area
  obtain ⟨lines, capacity, usage, sequence, next, grant⟩ := page
  obtain ⟨hpages, hopen, husage, hnext⟩ := h
  dsimp only at hpages hopen husage hnext
  subst hpages hopen husage hnext
  simp [acquire, CodeStore.takeOpen, CodeStore.findRoom, CodeStore.hold, CodeStore.unlink, CodeStore.update, hroom]

end CodeArea

namespace CodeStore

variable {store : CodeStore} {page : CodePage}

/-- Lines go behind those on the page. -/
theorem emitAll_onPage (hpages : store.pages = #[page]) {lines : List Line} (hroom : lines.length ≤ page.freeLines) :
    store.emitAll 0 lines = (.ok (), { store with pages := #[page.append lines] }) := by
  induction lines generalizing store page with
  | nil => simp [emitAll, CodePage.append, ← hpages]
  | cons line lines ih =>
    rw [List.length_cons] at hroom
    have hfree : page.freeLines ≠ 0 := by omega
    have hemit : store.emit 0 line =
        .ok (⟨0, page.pc⟩, { store with pages := #[{ page with lines := page.lines.push line }] }) := by
      simp [emit, hpages, CodePage.emit, hfree]
    have hroom' : lines.length ≤ CodePage.freeLines { page with lines := page.lines.push line } := by
      simp only [CodePage.freeLines, Array.size_push] at hroom ⊢
      omega
    rw [emitAll, hemit]
    dsimp only
    rw [ih rfl hroom']
    simp [CodePage.append]

/-- A page that is let go of is open as long as it has room. -/
theorem release_onPage (hpages : store.pages = #[page]) (hopen : store.openHead = none) (husage : page.usage = 1)
    {threshold : Nat} (hroom : threshold ≤ page.freeLines) :
    (store.release threshold 0).OnPage { page with usage := 0, next := none } := by
  have hfree : ¬page.freeLines < threshold := by omega
  constructor <;> simp [release, hpages, hopen, husage, hfree, update]

end CodeStore

/-- What is installed on the page gets the place of its next line as its entry. -/
theorem CodeArea.install_onPage {area : CodeArea} {page : CodePage} (h : area.code.OnPage page) {link : HostLink}
    (hroom : link.lines.length + area.env.config.freeLineThreshold ≤ page.freeLines) :
    ∃ code, install link area = .ok ⟨0, page.pc⟩ ⟨area.env, code⟩ ∧ code.OnPage (page.append link.lines) := by
  obtain ⟨held, hacquire, hpages, hopen⟩ := acquire_onPage h (Nat.le_of_add_right_le hroom)
  have hpc : held.pc 0 = ⟨0, page.pc⟩ := by
    simp [CodeStore.pc, hpages, CodePage.pc]
  have hemit := CodeStore.emitAll_onPage hpages (Nat.le_of_add_right_le hroom)
  generalize hemitted : { held with pages := #[CodePage.append { page with usage := 1 } link.lines] } = emitted at hemit
  have hfree : area.env.config.freeLineThreshold ≤
      (CodePage.append { page with usage := 1 } link.lines).freeLines := by
    simp only [CodePage.append, CodePage.freeLines, Array.size_append, List.size_toArray] at hroom ⊢
    omega
  have hreleased : (emitted.release area.env.config.freeLineThreshold 0).OnPage
      { CodePage.append { page with usage := 1 } link.lines with usage := 0, next := none } :=
    CodeStore.release_onPage (hemitted ▸ rfl) (hemitted ▸ hopen) rfl hfree
  refine ⟨emitted.release area.env.config.freeLineThreshold 0, ?_, ?_⟩
  · unfold install
    rw [run_bind_of_ok hacquire, run_get_bind]
    simp only [hemit, run_set_bind, hpc]
    rfl
  · have hpage : { CodePage.append { page with usage := 1 } link.lines with usage := 0, next := none } =
        page.append link.lines := by
      simp [CodePage.append, ← h.usage, ← h.next]
    exact hpage ▸ hreleased

/-! ## Two imports of one name -/

/-- What a link sees of the functions of a module. -/
def Module.links (module : Module) : List (Option ImportName × FuncType) :=
  module.functions.toList.map fun func => (func.imported, func.type.type)

/-- Entries do not matter for links. -/
theorem Module.links_setCode (module : Module) (function : Nat) (entry : CodeRef) :
    (module.setCode function entry).links = module.links := by
  have hfunctions : (module.functions.modify function ({ · with code := some entry })).map
      (fun func => (func.imported, func.type.type)) =
        module.functions.map fun func => (func.imported, func.type.type) := by
    refine map_modify_of_fixed ?_ _ _
    exact fun _ => rfl
  simpa [setCode, updateFunction, links] using congrArg Array.toList hfunctions

/-- A machine on pages of 2^33 lines that has all its code on one of them, and a module with two imports of one name. -/
structure MachineState.Crowded (state : MachineState) (page : CodePage) : Prop where
  config : state.env.config = { codePageAlign := 0x2000000000 }
  code : state.machine.code.OnPage page
  capacity : page.capacity = 0x200000000
  links : state.machine.modules.map Module.links = #[List.replicate 2 (some ⟨"env", "f"⟩, ⟨none, []⟩)]

namespace MachineState.Crowded

variable {state : MachineState} {page : CodePage} (h : state.Crowded page)

include h

/-- The functions of the module are the two imports. -/
theorem exists_module : ∃ target, state.machine.modules[0]? = some target ∧ target.functions.size = 2 ∧
    ∀ function < 2, ∃ func, target.functions[function]? = some func ∧ func.imported = some ⟨"env", "f"⟩ ∧
      func.type.type = ⟨none, []⟩ := by
  have hlinks := congrArg (·[0]?) h.links
  rw [Array.getElem?_map] at hlinks
  obtain ⟨target, hmodule, hlinks⟩ := Option.map_eq_some_iff.1 hlinks
  refine ⟨target, hmodule, by simpa [Module.links] using congrArg List.length hlinks, fun function hlt => ?_⟩
  have hlink : (target.functions.toList.map fun func => (func.imported, func.type.type))[function]? =
      (List.replicate 2 (some ⟨"env", "f"⟩, ⟨none, []⟩))[function]? := congrArg (·[function]?) hlinks
  rw [List.getElem?_map, List.getElem?_replicate, if_pos hlt, Array.getElem?_toList] at hlink
  obtain ⟨func, hfunc, heq⟩ := Option.map_eq_some_iff.1 hlink
  exact ⟨func, hfunc, congrArg Prod.fst heq, congrArg Prod.snd heq⟩

/-- An import is bound to the next line. -/
theorem linkFunction {function : Nat} (hlt : function < 2) (hsize : page.lines.size ≤ 0x180000000) (link : HostLink) :
    ∃ state', Machine.linkFunction 0 "env" "f" "v()" link function state = .ok true state' ∧
      state'.Crowded (page.append link.lines) ∧
      state'.machine.func? = Placement.enter state.machine.func? 0 function ⟨0, page.pc⟩ := by
  obtain ⟨target, hmodule, -, hfunctions⟩ := h.exists_module
  obtain ⟨func, hfunction, himported, htype⟩ := hfunctions function hlt
  have hfunc : state.machine.func? 0 function = some func := by
    simp [Machine.func?, hmodule, hfunction]
  have hmatch : Machine.importMatches "env" "f" func := by
    simp [Machine.importMatches, himported]
  obtain ⟨handle, registry, hread, hhandle⟩ : ∃ handle registry,
      state.env.registry.parse state.env.config.argumentLimit "v()" = .ok (handle, registry) ∧
        handle.type = func.type.type := by
    have hsignature : FuncType.ofSignature? state.env.config.argumentLimit "v()" = .ok func.type.type := by
      rw [h.config, htype]
      decide +kernel
    rw [TypeRegistry.parse, hsignature]
    exact ⟨_, _, rfl, (state.env.registry.intern_spec func.type.type).1⟩
  have hlength : link.lines.length ≤ 3 := by
    unfold HostLink.lines
    split <;> simp
  have hroom : link.lines.length + state.env.config.freeLineThreshold ≤ page.freeLines := by
    rw [h.config, CodePage.freeLines, h.capacity]
    change _ + 5 ≤ _
    omega
  have hcode : (CodeArea.mk { state.env with registry } state.machine.code).code.OnPage page := h.code
  obtain ⟨code, hinstall, honpage⟩ := CodeArea.install_onPage hcode hroom
  refine ⟨⟨{ state.env with registry }, { state.machine with code }.storeCode 0 [(function, ⟨0, page.pc⟩)]⟩, ?_,
    ⟨h.config, honpage, h.capacity, ?_⟩, Machine.func?_storeCode_single ..⟩
  · have houtcome := Machine.linkFunction_outcome 0 "env" "f" "v()" link function state
    generalize Machine.linkFunction 0 "env" "f" "v()" link function state = result at houtcome ⊢
    cases houtcome with
    | other hother => exact absurd ⟨func, hfunc, hmatch⟩ hother
    | unread _ hread' => cases hread.symm.trans hread'
    | mismatch hfunc' _ hread' htype' =>
      cases hfunc.symm.trans hfunc'
      cases hread.symm.trans hread'
      exact absurd hhandle htype'
    | refused _ _ hread' _ hinstall' =>
      cases hread.symm.trans hread'
      cases hinstall.symm.trans hinstall'
    | bound _ _ hread' _ hinstall' =>
      cases hread.symm.trans hread'
      cases hinstall.symm.trans hinstall'
      rfl
  · exact (Machine.map_storeCode Module.links_setCode _ _ _).trans h.links

/-- A link binds both imports, one behind the other. -/
theorem link (hsize : page.lines.size ≤ 0x140000000) {link : HostLink} (hcookie : link.cookie = none) :
    ∃ state', Machine.link 0 "env" "f" "v()" link state = .ok () state' ∧
      state'.Crowded ((page.append link.lines).append link.lines) ∧
      state'.machine.placement.entryOf 0 0 = some ⟨0, page.pc⟩ ∧
      state'.machine.placement.entryOf 0 1 = some ⟨0, (page.append link.lines).pc⟩ := by
  have hsize' : (page.append link.lines).lines.size ≤ 0x180000000 := by
    simp only [CodePage.append, HostLink.lines, hcookie, Array.size_append, List.size_toArray, List.length_cons,
      List.length_nil]
    omega
  obtain ⟨between, hfirst, hbetween, hfunc?⟩ := h.linkFunction (show 0 < 2 by decide) (by omega) link
  obtain ⟨after, hsecond, hafter, hfunc?'⟩ := hbetween.linkFunction (show 1 < 2 by decide) hsize' link
  obtain ⟨target, hmodule, htarget, hfunctions⟩ := h.exists_module
  have hfound (function : Nat) (hlt : function < 2) : ∃ func, state.machine.func? 0 function = some func := by
    obtain ⟨func, hfunc, -⟩ := hfunctions function hlt
    exact ⟨func, by simp [Machine.func?, hmodule, hfunc]⟩
  refine ⟨after, ?_, hafter, ?_, ?_⟩
  · unfold Machine.link MachineM.recording
    rw [run_get_bind]
    simp only [hmodule, htarget, hcookie, Option.isSome_none]
    have hlinked : Machine.linkFunctions 0 "env" "f" "v()" link false (List.range 2) state = .ok true after := by
      rw [show List.range 2 = [0, 1] from rfl, Machine.linkFunctions, run_bind_of_ok hfirst]
      change (Machine.linkFunctions 0 "env" "f" "v()" link false [1] >>= _) between = _
      rw [Machine.linkFunctions]
      rw [bind_assoc, run_bind_of_ok hsecond]
      rfl
    rw [run_bind_of_ok hlinked]
    rfl
  · obtain ⟨func, hfunc⟩ := hfound 0 (by decide)
    refine Placement.entryOf_eq_some.2 ⟨{ func with code := some _ }, ?_, rfl⟩
    have hkept : after.machine.func? 0 0 = between.machine.func? 0 0 := by
      rw [hfunc?', Placement.enter_of_ne (by decide)]
    exact hkept.trans ((congrFun (congrFun hfunc? 0) 0).trans (Placement.enter_self hfunc _))
  · obtain ⟨func, hfunc⟩ := hfound 1 (by decide)
    refine Placement.entryOf_eq_some.2 ⟨{ func with code := some _ }, ?_, rfl⟩
    have hkept : between.machine.func? 0 1 = some func := by
      rw [hfunc?, Placement.enter_of_ne (by decide), hfunc]
    exact (congrFun (congrFun hfunc?' 0) 1).trans (Placement.enter_self hkept _)

end MachineState.Crowded

/-! ## A session that links them over and over -/

namespace Session

/-- Links the imports. -/
def linkAgain : Action :=
  .link "a" 0 "env" "f" "v()" { function := ⟨fun _ => pure ()⟩ }

/-- A machine on pages of 2^33 lines with two imports of one name that were linked so many times and once more. -/
def relinked (count : Nat) : Session :=
  (startWithin none { codePageAlign := 0x2000000000 } (.ofBackends .threaded .threaded none) (.system 0)).performAll
    ([.build "m" [.importFunction ⟨"env", "f"⟩ "v()", .importFunction ⟨"env", "f"⟩ "v()"], .create "a" 64,
      .load "a" "m", linkAgain] ++ List.replicate count linkAgain)

/-- The configuration stays. -/
theorem config_relinked (count : Nat) : (relinked count).env.config = { codePageAlign := 0x2000000000 } :=
  (Engine.Reaches.fixed (performAll_reaches _ _)).1

/-- The first link acquires the page. -/
theorem relinked_zero : ∃ machine page, (relinked 0).machines.get? "a" = some machine ∧
    MachineState.Crowded ⟨(relinked 0).env, machine⟩ page ∧ page.lines.size = 4 := by
  have hlinks : ((relinked 0).machines.get? "a").map (·.modules.map Module.links) =
      some #[List.replicate 2 (some ⟨"env", "f"⟩, ⟨none, []⟩)] := by
    decide +kernel
  have hcode : ((relinked 0).machines.get? "a").map (fun machine => (machine.code.openHead,
      machine.code.pages.toList.map fun page => (page.lines.size, page.capacity, page.usage, page.next))) =
      some (some 0, [(4, 0x200000000, 0, none)]) := by
    decide +kernel
  obtain ⟨machine, hget, hlinks⟩ := Option.map_eq_some_iff.1 hlinks
  rw [hget, Option.map_some, Option.some.injEq, Prod.mk.injEq] at hcode
  obtain ⟨hopen, hpages⟩ := hcode
  obtain ⟨page, hpages, hpage⟩ := List.map_eq_singleton_iff.1 hpages
  obtain ⟨hsize, hcapacity, husage, hnext⟩ : _ ∧ _ ∧ _ ∧ _ := by simpa using hpage
  exact ⟨machine, page, hget,
    ⟨config_relinked 0, ⟨Array.toList_inj.1 hpages, hopen, husage, hnext⟩, hcapacity, hlinks⟩, hsize⟩

/-- However often the imports are linked, the code stays on one page. -/
theorem exists_crowded {count : Nat} (hcount : count ≤ 0x40000000) :
    ∃ machine page, (relinked count).machines.get? "a" = some machine ∧
      MachineState.Crowded ⟨(relinked count).env, machine⟩ page ∧ page.lines.size = 4 * count + 4 := by
  induction count with
  | zero => exact relinked_zero
  | succ count ih =>
    obtain ⟨machine, page, hget, h, hsize⟩ := ih (Nat.le_of_succ_le hcount)
    have hagain : relinked (count + 1) = ((relinked count).perform linkAgain).2 := by
      unfold relinked performAll
      rw [List.replicate_succ', ← List.append_assoc, List.foldl_append]
      rfl
    obtain ⟨after, hlink, hafter, -⟩ :=
      h.link (by omega) (show (HostLink.mk ⟨fun _ => pure ()⟩ none).cookie = none from rfl)
    refine ⟨after.machine, _, ?_, ⟨config_relinked _, hafter.code, hafter.capacity, hafter.links⟩, ?_⟩
    · rw [hagain]
      refine (get?_onMachine hget).trans ?_
      rw [hlink]
      rfl
    · simp only [CodePage.append, HostLink.lines, Array.size_append, List.size_toArray, List.length_cons,
        List.length_nil, hsize]
      omega

/-- Past the highest number of a line, a link succeeds and gives two imports the same entry. -/
theorem exists_sharedEntry {link : HostLink} (hcookie : link.cookie = none) :
    ∃ count machine after, (relinked count).machines.get? "a" = some machine ∧
      Machine.link 0 "env" "f" "v()" link ⟨(relinked count).env, machine⟩ = .ok () after ∧
      after.machine.placement.entryOf 0 0 = some ⟨0, 0xFFFFFFFF⟩ ∧
      after.machine.placement.entryOf 0 1 = some ⟨0, 0xFFFFFFFF⟩ := by
  obtain ⟨count, hcount⟩ : ∃ count, count = 0x40000000 := ⟨_, rfl⟩
  obtain ⟨machine, page, hget, h, hsize⟩ := exists_crowded (Nat.le_of_eq hcount)
  obtain ⟨after, hlink, -, hfirst, hsecond⟩ := h.link (by omega) hcookie
  have hpc (page' : CodePage) (hle : page.lines.size ≤ page'.lines.size) : page'.pc = 0xFFFFFFFF := by
    unfold CodePage.pc
    omega
  rw [hpc page (Nat.le_refl _)] at hfirst
  rw [hpc (page.append link.lines) (by simp [CodePage.append])] at hsecond
  exact ⟨count, machine, after, hget, hlink, hfirst, hsecond⟩

end Session

end WasmEngine
