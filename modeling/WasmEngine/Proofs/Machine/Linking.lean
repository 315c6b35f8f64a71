import WasmEngine.Proofs.Allocation.Sessions
import WasmEngine.Proofs.Placement.Machines

/-!
# Linking binds imports one after the other

`Machine.LinkOutcome` lists how linking can go for one function, and `Machine.Installs` is the run over the imports
that get bound, as far as a link gets. `Machine.BoundBy` says which imports a link binds.
-/

namespace WasmEngine.Machine

variable {index : Nat} {module field signature : String} {link : HostLink} {firstOnly : Bool}

/-- A function of a loaded module is an import that goes by a field of a module. -/
def Matches (machine : Machine) (index : Nat) (module field : String) (function : Nat) : Prop :=
  ∃ func, machine.func? index function = some func ∧ importMatches module field func

/-- The ways in which linking one function can go. -/
inductive LinkOutcome (index : Nat) (module field signature : String) (link : HostLink) (function : Nat)
    (state : MachineState) : EStateM.Result Error MachineState Bool → Prop where
  /-- It is not a matching import. -/
  | other (h : ¬state.machine.Matches index module field function) :
      LinkOutcome index module field signature link function state (.ok false state)
  /-- The signature cannot be read. -/
  | unread {error : Error} (h : state.machine.Matches index module field function)
      (hread : state.env.registry.parse state.env.config.argumentLimit signature = .error error) :
      LinkOutcome index module field signature link function state (.error error state)
  /-- The signature denotes another type. -/
  | mismatch {func : Func} {handle : TypeHandle} {registry : TypeRegistry}
      (hfunc : state.machine.func? index function = some func) (hmatch : importMatches module field func)
      (hread : state.env.registry.parse state.env.config.argumentLimit signature = .ok (handle, registry))
      (htype : handle.type ≠ func.type.type) :
      LinkOutcome index module field signature link function state
        (.error .signatureMismatch { state with env := { state.env with registry } })
  /-- The call of the host function cannot be installed. -/
  | refused {func : Func} {handle : TypeHandle} {registry : TypeRegistry} {error : Error} {area : CodeArea}
      (hfunc : state.machine.func? index function = some func) (hmatch : importMatches module field func)
      (hread : state.env.registry.parse state.env.config.argumentLimit signature = .ok (handle, registry))
      (htype : handle.type = func.type.type)
      (hinstall : CodeArea.install link ⟨{ state.env with registry }, state.machine.code⟩ = .error error area) :
      LinkOutcome index module field signature link function state
        (.error error ⟨area.env, { state.machine with code := area.code }⟩)
  /-- The import is bound. -/
  | bound {func : Func} {handle : TypeHandle} {registry : TypeRegistry} {entry : CodeRef} {area : CodeArea}
      (hfunc : state.machine.func? index function = some func) (hmatch : importMatches module field func)
      (hread : state.env.registry.parse state.env.config.argumentLimit signature = .ok (handle, registry))
      (htype : handle.type = func.type.type)
      (hinstall : CodeArea.install link ⟨{ state.env with registry }, state.machine.code⟩ = .ok entry area) :
      LinkOutcome index module field signature link function state
        (.ok true ⟨area.env, { state.machine with code := area.code }.storeCode index [(function, entry)]⟩)

theorem linkFunction_outcome (index : Nat) (module field signature : String) (link : HostLink) (function : Nat)
    (state : MachineState) :
    LinkOutcome index module field signature link function state
      (linkFunction index module field signature link function state) := by
  unfold linkFunction
  rw [run_get_bind]
  cases hfunc : state.machine.func? index function with
  | none =>
    rw [func?] at hfunc
    simp only [hfunc]
    refine .other ?_
    rintro ⟨func, hsome, -⟩
    rw [func?, hfunc] at hsome
    cases hsome
  | some func =>
    have hfunc' := hfunc
    rw [func?] at hfunc'
    simp only [hfunc']
    by_cases hmatch : importMatches module field func
    · rw [if_pos hmatch]
      change LinkOutcome _ _ _ _ _ _ _
        (EStateM.bind (MachineM.onEnvironment (Environment.parseSignature signature)) _ state)
      unfold EStateM.bind MachineM.onEnvironment Environment.parseSignature
      cases hread : state.env.registry.parse state.env.config.argumentLimit signature with
      | error error => exact .unread ⟨func, hfunc, hmatch⟩ hread
      | ok read =>
        obtain ⟨handle, registry⟩ := read
        dsimp only
        by_cases htype : handle.type = func.type.type
        · rw [if_neg (not_not.2 htype)]
          change LinkOutcome _ _ _ _ _ _ _ (EStateM.bind (MachineM.onCode (CodeArea.install link)) _ _)
          unfold EStateM.bind MachineM.onCode
          dsimp only
          cases hinstall : CodeArea.install link ⟨{ state.env with registry }, state.machine.code⟩ with
          | error error area => exact .refused hfunc hmatch hread htype hinstall
          | ok entry area => exact .bound hfunc hmatch hread htype hinstall
        · rw [if_pos htype]
          exact .mismatch hfunc hmatch hread htype
    · rw [if_neg hmatch]
      refine .other ?_
      rintro ⟨found, hsome, hfound⟩
      cases hfunc.symm.trans hsome
      exact hmatch hfound

/-- Getting an entry does not make a function match or not. -/
theorem matches_enter {machine between : Machine} {function : Nat} {entry : CodeRef}
    (hentered : between.func? = Placement.enter machine.func? index function entry) (other : Nat) :
    between.Matches index module field other ↔ machine.Matches index module field other := by
  unfold Matches
  rw [hentered, Placement.enter]
  split
  · constructor
    · rintro ⟨func, hfunc, hmatch⟩
      obtain ⟨old, hold, rfl⟩ := Option.map_eq_some_iff.1 hfunc
      exact ⟨old, hold, hmatch⟩
    · rintro ⟨func, hfunc, hmatch⟩
      exact ⟨{ func with code := some entry }, by rw [hfunc, Option.map_some], hmatch⟩
  · exact Iff.rfl

/-! ## Imports to bind -/

/-- A function of a loaded module is imported by a field of a module, where `*` stands for any module. -/
def Imports (machine : Machine) (index : Nat) (module field : String) (function : Nat) : Prop :=
  ∃ func name, machine.func? index function = some func ∧ func.imported = some name ∧ name.field = field ∧
    (module = "*" ∨ name.module = module)

/-- An import that a link is to bind. With a cookie it is the first one only. -/
structure IsTarget (machine : Machine) (index : Nat) (module field : String) (link : HostLink) (function : Nat) :
    Prop where
  imports : machine.Imports index module field function
  first : link.cookie.isSome → ∀ earlier < function, ¬machine.Imports index module field earlier

/-- The matching imports among some functions, or the first of them. -/
def targets (machine : Machine) (index : Nat) (module field : String) (firstOnly : Bool) (functions : List Nat) :
    List Nat :=
  let found := functions.filter fun function => (machine.func? index function).any (importMatches module field)
  if firstOnly then found.take 1 else found

section Targets

variable {machine between : Machine} {function : Nat} {functions : List Nat}

theorem matches_iff_imports :
    machine.Matches index module field function ↔ machine.Imports index module field function := by
  unfold Matches Imports importMatches anyModule
  refine exists_congr fun func => ?_
  cases func.imported with
  | none => simp
  | some name => simp

/-- The test of a function says whether it matches. -/
theorem any_importMatches_iff :
    (machine.func? index function).any (importMatches module field) = true ↔
      machine.Matches index module field function :=
  Option.any_eq_true _ _

theorem targets_cons_of_not (h : ¬machine.Matches index module field function) :
    machine.targets index module field firstOnly (function :: functions) =
      machine.targets index module field firstOnly functions := by
  have hany : (machine.func? index function).any (importMatches module field) = false :=
    Bool.eq_false_iff.2 fun hany => h (any_importMatches_iff.1 hany)
  simp only [targets, List.filter_cons, hany, Bool.false_eq_true, if_false]

theorem targets_cons_first (h : machine.Matches index module field function) :
    machine.targets index module field true (function :: functions) = [function] := by
  simp only [targets, List.filter_cons, any_importMatches_iff.2 h, if_true, List.take_succ_cons, List.take_zero]

theorem targets_cons_all (h : machine.Matches index module field function) :
    machine.targets index module field false (function :: functions) =
      function :: machine.targets index module field false functions := by
  simp only [targets, List.filter_cons, any_importMatches_iff.2 h, if_true, Bool.false_eq_true, if_false]

/-- Getting an entry does not make a function a target or not. -/
theorem targets_enter {entry : CodeRef} (h : between.func? = Placement.enter machine.func? index function entry) :
    between.targets index module field firstOnly functions =
      machine.targets index module field firstOnly functions := by
  have hsame (other : Nat) : (between.func? index other).any (importMatches module field) =
      (machine.func? index other).any (importMatches module field) := by
    rw [Bool.eq_iff_iff, any_importMatches_iff, any_importMatches_iff]
    exact matches_enter h other
  unfold targets
  simp only [hsame]

theorem nodup_targets (h : functions.Nodup) : (machine.targets index module field firstOnly functions).Nodup := by
  unfold targets
  dsimp only
  split
  · exact (h.filter _).take
  · exact h.filter _

/-- If not only the first is to be bound, all that match are targets. -/
theorem mem_targets_all : function ∈ machine.targets index module field false functions ↔
    function ∈ functions ∧ machine.Matches index module field function := by
  simp only [targets, Bool.false_eq_true, if_false, List.mem_filter, any_importMatches_iff]

/-- The targets among the functions of a module are the imports to bind. -/
theorem mem_targets_range {target : Module} (hmodule : machine.modules[index]? = some target) :
    function ∈ machine.targets index module field link.cookie.isSome (List.range target.functions.size) ↔
      machine.IsTarget index module field link function := by
  have hlt : machine.Matches index module field function → function < target.functions.size := by
    rintro ⟨func, hfunc, -⟩
    simp only [func?, hmodule, Option.bind_some] at hfunc
    exact (Array.getElem?_eq_some_iff.1 hfunc).1
  cases hcookie : link.cookie.isSome with
  | true =>
    unfold targets
    dsimp only
    rw [if_pos rfl, List.take_one, List.head?_filter, Option.mem_toList, List.find?_range_eq_some,
      any_importMatches_iff, List.mem_range]
    constructor
    · rintro ⟨hmatches, -, hfirst⟩
      refine ⟨matches_iff_imports.1 hmatches, fun _ earlier hearlier himports => ?_⟩
      have hnot := hfirst earlier hearlier
      rw [any_importMatches_iff.2 (matches_iff_imports.2 himports)] at hnot
      cases hnot
    · intro h
      have hmatches := matches_iff_imports.2 h.imports
      refine ⟨hmatches, hlt hmatches, fun earlier hearlier => ?_⟩
      rw [Bool.not_eq_true', Bool.eq_false_iff]
      intro hany
      exact h.first hcookie earlier hearlier (matches_iff_imports.1 (any_importMatches_iff.1 hany))
  | false =>
    rw [mem_targets_all, List.mem_range]
    constructor
    · rintro ⟨-, hmatches⟩
      refine ⟨matches_iff_imports.1 hmatches, fun hsome => ?_⟩
      cases hcookie.symm.trans hsome
    · intro h
      have hmatches := matches_iff_imports.2 h.imports
      exact ⟨hlt hmatches, hmatches⟩

/-- Where something matches, there is an import to bind. -/
theorem exists_isTarget (h : machine.Matches index module field function) :
    ∃ first, machine.IsTarget index module field link first := by
  classical
  have hexists : ∃ first, machine.Imports index module field first := ⟨function, matches_iff_imports.1 h⟩
  exact ⟨Nat.find hexists, Nat.find_spec hexists, fun _ earlier hearlier => Nat.find_min hexists hearlier⟩

end Targets

/-! ## The run of a link -/

/-- Imports of the type that the signature denotes are bound one after the other. -/
inductive Installs (signature : String) (link : HostLink) (index : Nat) :
    List Nat → MachineState → MachineState → Prop where
  | nil (state : MachineState) : Installs signature link index [] state state
  | cons {function : Nat} {functions : List Nat} {state state' : MachineState} {func : Func} {handle : TypeHandle}
      {registry : TypeRegistry} {entry : CodeRef} {area : CodeArea}
      (hfunc : state.machine.func? index function = some func)
      (hread : state.env.registry.parse state.env.config.argumentLimit signature = .ok (handle, registry))
      (htype : handle.type = func.type.type)
      (hinstall : CodeArea.install link ⟨{ state.env with registry }, state.machine.code⟩ = .ok entry area)
      (h : Installs signature link index functions
        ⟨area.env, { state.machine with code := area.code }.storeCode index [(function, entry)]⟩ state') :
      Installs signature link index (function :: functions) state state'

/-- Linking that succeeds is a run over the targets, and it tells whether there are any. -/
theorem linkFunctions_installs {functions : List Nat} {linked : Bool} {state state' : MachineState}
    (h : linkFunctions index module field signature link firstOnly functions state = .ok linked state') :
    Installs signature link index (state.machine.targets index module field firstOnly functions) state state' ∧
      (linked = true ↔ state.machine.targets index module field firstOnly functions ≠ []) := by
  induction functions generalizing state linked with
  | nil =>
    have hnone : state.machine.targets index module field firstOnly [] = [] := by
      cases firstOnly <;> rfl
    rw [hnone]
    cases h
    exact ⟨.nil _, by simp⟩
  | cons function functions ih =>
    unfold linkFunctions at h
    obtain ⟨bound, between, hfirst, h⟩ := run_bind_eq_ok h
    have houtcome := linkFunction_outcome index module field signature link function state
    rw [hfirst] at houtcome
    cases houtcome with
    | other hother =>
      obtain ⟨others, last, hothers, hlast⟩ := run_bind_eq_ok h
      cases hlast
      rw [targets_cons_of_not hother]
      exact ih hothers
    | @bound func handle registry entry area hfunc hmatch hread htype hinstall =>
      cases firstOnly with
      | true =>
        cases h
        rw [targets_cons_first ⟨func, hfunc, hmatch⟩]
        exact ⟨.cons hfunc hread htype hinstall (.nil _), by simp⟩
      | false =>
        obtain ⟨others, last, hothers, hlast⟩ := run_bind_eq_ok h
        cases hlast
        obtain ⟨hinstalls, -⟩ := ih hothers
        have hentered := func?_storeCode_single state.machine area.code index function entry
        rw [targets_enter hentered] at hinstalls
        rw [targets_cons_all ⟨func, hfunc, hmatch⟩]
        exact ⟨.cons hfunc hread htype hinstall hinstalls, by simp⟩

/-- Linking fails at a matching import, after a run over those before it, if any are to be bound. -/
theorem linkFunctions_stops {functions : List Nat} {error : Error} {state state' : MachineState}
    (h : linkFunctions index module field signature link firstOnly functions state = .error error state') :
    ∃ before failed after between, functions = before ++ failed :: after ∧
      state.machine.Matches index module field failed ∧
      Installs signature link index (state.machine.targets index module field false before) state between ∧
      state'.machine.func? = between.machine.func? ∧ between.machine.code.Extends state'.machine.code ∧
      (firstOnly → ∀ function ∈ before, ¬state.machine.Matches index module field function) := by
  induction functions generalizing state with
  | nil => cases h
  | cons function functions ih =>
    unfold linkFunctions at h
    have houtcome := linkFunction_outcome index module field signature link function state
    rcases run_bind_eq_error h with hfirst | ⟨linked, between, hfirst, h⟩
    · have hsame : state.machine.Matches index module field function ∧
          state'.machine.func? = state.machine.func? ∧ state.machine.code.Extends state'.machine.code := by
        rw [hfirst] at houtcome
        cases houtcome with
        | unread hmatches => exact ⟨hmatches, rfl, .refl _⟩
        | mismatch hfunc hmatch => exact ⟨⟨_, hfunc, hmatch⟩, rfl, .refl _⟩
        | refused hfunc hmatch hread htype hinstall => exact ⟨⟨_, hfunc, hmatch⟩, rfl, CodeArea.install_error hinstall⟩
      exact ⟨[], function, functions, state, rfl, hsame.1, .nil _, hsame.2.1, hsame.2.2, by simp⟩
    · rw [hfirst] at houtcome
      cases houtcome with
      | other hother =>
        rcases run_bind_eq_error h with hrest | ⟨_, _, _, hlast⟩
        · obtain ⟨before, failed, after, final, rfl, hfailed, hinstalls, hfunc?, hextends, hnone⟩ := ih hrest
          rw [← targets_cons_of_not hother] at hinstalls
          exact ⟨function :: before, failed, after, final, rfl, hfailed, hinstalls, hfunc?, hextends,
            fun hfirstOnly => List.forall_mem_cons.2 ⟨hother, hnone hfirstOnly⟩⟩
        · cases hlast
      | @bound func handle registry entry area hfunc hmatch hread htype hinstall =>
        cases firstOnly with
        | true => cases h
        | false =>
          rcases run_bind_eq_error h with hrest | ⟨_, _, _, hlast⟩
          · obtain ⟨before, failed, after, final, rfl, hfailed, hinstalls, hfunc?, hextends, -⟩ := ih hrest
            have hentered := func?_storeCode_single state.machine area.code index function entry
            rw [targets_enter hentered] at hinstalls
            refine ⟨function :: before, failed, after, final, rfl, (matches_enter hentered failed).1 hfailed, ?_,
              hfunc?, hextends, nofun⟩
            rw [targets_cons_all ⟨func, hfunc, hmatch⟩]
            exact .cons hfunc hread htype hinstall hinstalls
          · cases hlast

namespace Installs

variable {functions : List Nat} {state state' : MachineState}
  (h : Installs signature link index functions state state')

include h

/-- Only the functions that are bound change. -/
theorem kept (index' function : Nat) (hnot : ¬(index' = index ∧ function ∈ functions)) :
    state'.machine.func? index' function = state.machine.func? index' function := by
  induction h with
  | nil => rfl
  | @cons first rest state state' func handle registry entry area hfunc hread htype hinstall h ih =>
    rw [ih fun hrest => hnot ⟨hrest.1, List.mem_cons_of_mem _ hrest.2⟩, func?_storeCode_single, Placement.enter, if_neg]
    rintro ⟨rfl, rfl⟩
    exact hnot ⟨rfl, List.mem_cons_self⟩

/-- No code is lost. -/
theorem code : state.machine.code.Extends state'.machine.code := by
  induction h with
  | nil => exact .refl _
  | cons hfunc hread htype hinstall h ih => exact (CodeArea.install_ok hinstall).1.trans ih

/-- Each import that is bound has the type of the signature and gets an entry behind all the code that was there. -/
theorem bound (hnodup : functions.Nodup) :
    ∀ function ∈ functions, ∃ func entry, state.machine.func? index function = some func ∧
      FuncType.ofSignature? state.env.config.argumentLimit signature = .ok func.type.type ∧
      state'.machine.func? index function = some { func with code := some entry } ∧
      (state'.machine.code.Addressable → state.machine.code.Gains state'.machine.code entry link.lines) := by
  induction h with
  | nil => simp
  | @cons first rest state state' func handle registry entry area hfunc hread htype hinstall h ih =>
    obtain ⟨hfirst, hrest⟩ := List.nodup_cons.1 hnodup
    obtain ⟨hextends, hgains⟩ := CodeArea.install_ok hinstall
    have hentered := func?_storeCode_single state.machine area.code index first entry
    intro function hmem
    rcases List.mem_cons.1 hmem with rfl | hmem
    · refine ⟨func, entry, hfunc, htype ▸ TypeRegistry.ofSignature?_of_parse hread, ?_, fun haddr => ?_⟩
      · rw [h.kept index function fun hbound => hfirst hbound.2, hentered]
        exact Placement.enter_self hfunc entry
      · exact (hgains (haddr.of_grows h.code.grows)).extends h.code
    · obtain ⟨found, entry', hfound, hsignature, hbound, hgains'⟩ := ih hrest function hmem
      have hne : (index, function) ≠ (index, first) := by
        rintro heq
        cases heq
        exact hfirst hmem
      rw [hentered, Placement.enter_of_ne hne] at hfound
      rw [CodeArea.config_install hinstall] at hsignature
      exact ⟨found, entry', hfound, hsignature, hbound, fun haddr => .after hextends (hgains' haddr)⟩

end Installs

/-- The numbers before a number in a range are those below it. -/
theorem eq_range_of_range_eq_append {count failed : Nat} {before after : List Nat}
    (h : List.range count = before ++ failed :: after) : before = List.range failed := by
  rw [List.range_eq_range', List.range'_eq_append_iff] at h
  obtain ⟨length, -, hbefore, hafter⟩ := h
  obtain ⟨hfailed, -, -⟩ := List.range'_eq_cons_iff.1 hafter.symm
  rw [hbefore, List.range_eq_range', ← hfailed, Nat.zero_add, Nat.mul_one]

/-- An operation that fails adds nothing but the record of its failure. -/
theorem recording_eq_error {α : Type} {describe : Machine → Option String × Option String × String}
    {step : MachineM α} {error : Error} {state state' : MachineState}
    (h : MachineM.recording describe step state = .error error state') :
    ∃ after, step state = .error error after ∧ state'.machine.func? = after.machine.func? ∧
      state'.machine.code = after.machine.code := by
  unfold MachineM.recording at h
  split at h
  · cases h
  · rename_i after hrun
    cases h
    exact ⟨after, hrun, rfl, rfl⟩

/-- An operation that succeeds records nothing. -/
theorem recording_eq_ok {α : Type} {describe : Machine → Option String × Option String × String} {step : MachineM α}
    {value : α} {state state' : MachineState} (h : MachineM.recording describe step state = .ok value state') :
    step state = .ok value state' := by
  unfold MachineM.recording at h
  split at h
  · rename_i hstep
    cases h
    exact hstep
  · cases h

/-! ## Links -/

/-- A link that succeeds is a run over the targets among the functions of its module, and there are some. -/
theorem installs_of_link {state state' : MachineState}
    (h : Machine.link index module field signature link state = .ok () state') :
    ∃ functions, functions.Nodup ∧ functions ≠ [] ∧
      (∀ function, function ∈ functions ↔ state.machine.IsTarget index module field link function) ∧
      Installs signature link index functions state state' := by
  have hlink := recording_eq_ok h
  rw [run_get_bind] at hlink
  cases hmodule : state.machine.modules[index]? with
  | none =>
    rw [hmodule] at hlink
    cases hlink
  | some target =>
    simp only [hmodule] at hlink
    obtain ⟨linked, between, hlink, hlast⟩ := run_bind_eq_ok hlink
    obtain ⟨hinstalls, hlinked⟩ := linkFunctions_installs hlink
    cases linked with
    | false => cases hlast
    | true =>
      cases hlast
      exact ⟨_, nodup_targets List.nodup_range, hlinked.1 rfl, fun function => mem_targets_range hmodule, hinstalls⟩

/-- A link that fails finds no matching import, or it fails at one after a run over those before it. -/
theorem stops_of_link {error : Error} {state state' : MachineState}
    (h : Machine.link index module field signature link state = .error error state') :
    (error = .functionLookupFailed ∧ (∀ function, ¬state.machine.Matches index module field function) ∧
      state'.machine.func? = state.machine.func?) ∨
    ∃ failed between, state.machine.Matches index module field failed ∧
      Installs signature link index (state.machine.targets index module field false (List.range failed)) state between ∧
      state'.machine.func? = between.machine.func? ∧ between.machine.code.Extends state'.machine.code ∧
      (link.cookie.isSome → ∀ function ∈ List.range failed, ¬state.machine.Matches index module field function) := by
  obtain ⟨after, hsearch, hfunc?, hcode⟩ := recording_eq_error h
  rw [run_get_bind] at hsearch
  cases hmodule : state.machine.modules[index]? with
  | none =>
    rw [hmodule] at hsearch
    cases hsearch
    refine .inl ⟨rfl, ?_, hfunc?⟩
    rintro function ⟨func, hfunc, -⟩
    simp [func?, hmodule] at hfunc
  | some target =>
    simp only [hmodule] at hsearch
    rcases run_bind_eq_error hsearch with hsearch | ⟨linked, between, hsearch, hlast⟩
    · obtain ⟨before, failed, rest, between, hrange, hfailed, hinstalls, hsame, hextends, hnone⟩ :=
        linkFunctions_stops hsearch
      rw [eq_range_of_range_eq_append hrange] at hinstalls hnone
      exact .inr ⟨failed, between, hfailed, hinstalls, hfunc?.trans hsame, hcode ▸ hextends, hnone⟩
    · obtain ⟨hinstalls, hlinked⟩ := linkFunctions_installs hsearch
      cases linked with
      | true => cases hlast
      | false =>
        cases hlast
        have hnone : state.machine.targets index module field link.cookie.isSome
            (List.range target.functions.size) = [] := by_contra fun hsome => Bool.false_ne_true (hlinked.2 hsome)
        rw [hnone] at hinstalls
        cases hinstalls
        refine .inl ⟨rfl, fun function hmatches => ?_, hfunc?⟩
        obtain ⟨first, hfirst⟩ : ∃ first, state.machine.IsTarget index module field link first :=
          exists_isTarget hmatches
        rw [← mem_targets_range hmodule, hnone] at hfirst
        cases hfirst

/-- The matching imports among some functions get entries for a link, behind the code that was there as long as all
lines have numbers, and no other function changes. -/
structure Binds (index : Nat) (module field : String) (link : HostLink) (functions : List Nat)
    (machine machine' : Machine) : Prop where
  bound : ∀ function ∈ functions, ∀ func, machine.func? index function = some func → importMatches module field func →
    ∃ entry, machine'.func? index function = some { func with code := some entry } ∧
      (machine'.code.Addressable → machine.code.Gains machine'.code entry link.lines)
  kept : ∀ index' function, ¬(index' = index ∧ function ∈ functions ∧ machine.Matches index module field function) →
    machine'.func? index' function = machine.func? index' function

/-- A run over the matching imports binds them, and code that is written afterwards does not matter. -/
theorem Installs.binds {functions : List Nat} {state between : MachineState} {machine' : Machine}
    (h : Installs signature link index (state.machine.targets index module field false functions) state between)
    (hnodup : functions.Nodup) (hfunc? : machine'.func? = between.machine.func?)
    (hextends : between.machine.code.Extends machine'.code) :
    Binds index module field link functions state.machine machine' where
  bound function hmem func hfunc hmatch := by
    obtain ⟨found, entry, hfound, -, hbound, hgains⟩ :=
      h.bound (nodup_targets hnodup) function (mem_targets_all.2 ⟨hmem, func, hfunc, hmatch⟩)
    cases hfunc.symm.trans hfound
    refine ⟨entry, by rw [hfunc?, hbound], fun haddr => ?_⟩
    exact (hgains (haddr.of_grows hextends.grows)).extends hextends
  kept index' function hnot := by
    rw [hfunc?]
    exact h.kept index' function fun ⟨hindex, hmem⟩ => hnot ⟨hindex, mem_targets_all.1 hmem⟩

/-- A failed link finds no matching import and changes no function, or fails at a matching import: it has bound the
matching imports of the module before that one and changed no other function, and none at all if only the first one
was to be bound. -/
theorem link_stopped {error : Error} {state state' : MachineState}
    (h : Machine.link index module field signature link state = .error error state') :
    (error = .functionLookupFailed ∧ (∀ function, ¬state.machine.Matches index module field function) ∧
      state'.machine.func? = state.machine.func?) ∨
    ∃ failed, state.machine.Matches index module field failed ∧
      Binds index module field link (List.range failed) state.machine state'.machine ∧
      (link.cookie.isSome → state'.machine.func? = state.machine.func?) := by
  obtain hnone | ⟨failed, between, hfailed, hinstalls, hfunc?, hextends, hnone⟩ := stops_of_link h
  · exact .inl hnone
  · refine .inr ⟨failed, hfailed, hinstalls.binds List.nodup_range hfunc? hextends, fun hcookie => ?_⟩
    funext index' function
    rw [hfunc?]
    refine hinstalls.kept index' function fun ⟨_, hmem⟩ => ?_
    obtain ⟨hlt, hmatches⟩ := mem_targets_all.1 hmem
    exact hnone hcookie function hlt hmatches

/-- A link to the field of any module binds the first import and fails at the third, which has another type. -/
theorem link_stopped_third :
    let link : HostLink := { function := ⟨fun _ => pure ()⟩ }
    let session := (Session.start {} (.ofBackends .threaded .threaded none) (.system 0)).performAll
      [.build "m" [.importFunction ⟨"env", "f"⟩ "v()", .importFunction ⟨"env", "g"⟩ "v()",
          .importFunction ⟨"host", "f"⟩ "v(i)"],
        .create "a" 64, .load "a" "m"]
    ∃ machine state', session.machines.get? "a" = some machine ∧
      Machine.link 0 "*" "f" "v()" link ⟨session.env, machine⟩ = .error .signatureMismatch state' ∧
      ∃ failed, machine.Matches 0 "*" "f" failed ∧ Binds 0 "*" "f" link (List.range failed) machine state'.machine := by
  intro link session
  have hfails : (session.machines.get? "a").map (fun machine =>
      resultOf (Machine.link 0 "*" "f" "v()" link ⟨session.env, machine⟩)) = some (.error .signatureMismatch) := by
    decide +kernel
  obtain ⟨machine, hget, hfails⟩ := Option.map_eq_some_iff.1 hfails
  have hlink := eq_error_of_resultOf hfails
  refine ⟨machine, _, hget, hlink, ?_⟩
  rcases link_stopped hlink with ⟨herror, -, -⟩ | ⟨failed, hmatches, hbinds, -⟩
  · cases herror
  · exact ⟨failed, hmatches, hbinds⟩

/-- Of two imports that go by one field, the first is bound by a link that fails as the second has another type. -/
theorem link_fails_after_binding :
    let link : HostLink := { function := ⟨fun _ => pure ()⟩ }
    let session := (Session.start {} (.ofBackends .threaded .threaded none) (.system 0)).performAll
      [.build "m" [.importFunction ⟨"env", "f"⟩ "v(i)", .importFunction ⟨"env", "f"⟩ "v()"], .create "a" 64,
        .load "a" "m"]
    ∃ machine state', session.machines.get? "a" = some machine ∧
      Machine.link 0 "env" "f" "v(i)" link ⟨session.env, machine⟩ = .error .signatureMismatch state' ∧
      (machine.func? 0 0).map Func.code = some none ∧ (state'.machine.func? 0 0).map Func.code = some (some ⟨0, 0⟩) := by
  intro link session
  have hfacts : (session.machines.get? "a").map (fun machine =>
      let result := Machine.link 0 "env" "f" "v(i)" link ⟨session.env, machine⟩
      (resultOf result, (machine.func? 0 0).map Func.code,
        ((stateAfter result).machine.func? 0 0).map Func.code)) =
      some (.error .signatureMismatch, some none, some (some ⟨0, 0⟩)) := by decide +kernel
  obtain ⟨machine, hget, hfacts⟩ := Option.map_eq_some_iff.1 hfacts
  obtain ⟨hfails, hcodes⟩ := Prod.ext_iff.1 hfacts
  obtain ⟨hbefore, hafter⟩ := Prod.ext_iff.1 hcodes
  exact ⟨machine, _, hget, eq_error_of_resultOf hfails, hbefore, hafter⟩

/-! ## The imports that a link binds -/

/-- A link binds an import: it succeeds and the import is to be bound, or it has no cookie and fails at a later matching
import. -/
def BoundBy (index : Nat) (module field signature : String) (link : HostLink) (state : MachineState) (function : Nat) :
    Prop :=
  match Machine.link index module field signature link state with
  | .ok _ _ => state.machine.IsTarget index module field link function
  | .error _ after => link.cookie = none ∧ state.machine.Matches index module field function ∧
    ∃ failed > function, state.machine.Matches index module field failed ∧
      Binds index module field link (List.range failed) state.machine after.machine

/-- However a link goes, it changes no function that it does not bind. -/
theorem func?_link {state : MachineState} {function : Nat}
    (h : ¬BoundBy index module field signature link state function) :
    (stateAfter (Machine.link index module field signature link state)).machine.func? index function =
      state.machine.func? index function := by
  unfold BoundBy at h
  cases hlink : Machine.link index module field signature link state with
  | ok done after =>
    rw [hlink] at h
    obtain ⟨functions, -, -, htargets, hinstalls⟩ := installs_of_link hlink
    exact hinstalls.kept index function fun hbound => h ((htargets function).1 hbound.2)
  | error error after =>
    rw [hlink] at h
    obtain ⟨-, -, hfunc?⟩ | ⟨failed, between, hfailed, hinstalls, hfunc?, hextends, hnone⟩ := stops_of_link hlink
    · exact congrFun (congrFun hfunc? index) function
    · refine (congrFun (congrFun hfunc? index) function).trans (hinstalls.kept index function fun hbound => ?_)
      obtain ⟨hmem, hmatches⟩ := mem_targets_all.1 hbound.2
      have hcookie : link.cookie = none := by
        cases hcookie : link.cookie with
        | none => rfl
        | some cookie => exact absurd hmatches (hnone (by rw [hcookie]; rfl) function hmem)
      exact h ⟨hcookie, hmatches, failed, List.mem_range.1 hmem, hfailed,
        hinstalls.binds List.nodup_range hfunc? hextends⟩

end WasmEngine.Machine
