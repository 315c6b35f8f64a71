import WasmEngine.Proofs.Machine.Commands

/-!
# Admission of calls

A call with arguments given as text is decided upon before its code runs. `Machine.Decides` lists the verdicts: each
way to refuse a call, with what must have gone well before, and the two ways to admit one.
-/

namespace WasmEngine

/-- The machine with another stack. -/
def MachineState.withStack (state : MachineState) (stack : Array Slot) : MachineState :=
  { state with machine := { state.machine with stack } }

namespace Machine

open MachineM

variable {func : Func} {slots : List Slot} {stack : Array Slot} {place count : Nat}

/-! ## Verdicts -/

/-- Texts that are read as values of some types, and the slots that hold the values. -/
inductive Encodes : List ValType → List String → List Slot → Prop where
  | nil : Encodes [] [] []
  | cons {type : ValType} {text : String} {value : Value} {types : List ValType} {texts : List String}
      {slots : List Slot} (hvalue : Value.ofText? type text = .ok value) (h : Encodes types texts slots) :
      Encodes (type :: types) (text :: texts) (value.toSlot :: slots)

/-- A function of a loaded module that has an entry. -/
structure HasEntry (machine : Machine) (module function : Nat) (found : Module) (func : Func) (entry : CodeRef) :
    Prop where
  module : machine.modules[module]? = some found
  function : found.functions[function]? = some func
  entry : func.code = some entry

/-- What is decided about a call. -/
inductive Verdict where
  /-- The call fails, and only so many of the first slots may have changed. -/
  | refused (error : Error) (touched : Nat)
  /-- The code at the entry of a function runs with its arguments in the first slots. -/
  | admitted (found : Module) (func : Func) (entry : CodeRef) (slots : List Slot)

/-- The verdict on a call. Each condition is looked at only if those before hold. -/
inductive Decides (machine : Machine) (module function : Nat) (texts : List String) : Verdict → Prop where
  | notLoaded (hmodule : machine.modules[module]? = none) :
      Decides machine module function texts (.refused .functionLookupFailed 0)
  | notDefined {found : Module} (hmodule : machine.modules[module]? = some found)
      (hfunction : found.functions[function]? = none) :
      Decides machine module function texts (.refused .functionIndexOutOfRange 0)
  | noEntry {found : Module} {func : Func} (hmodule : machine.modules[module]? = some found)
      (hfunction : found.functions[function]? = some func) (hentry : func.code = none) :
      Decides machine module function texts (.refused .missingCode 0)
  | wrongCount {found : Module} {func : Func} {entry : CodeRef}
      (hentry : HasEntry machine module function found func entry) (hname : func.name ≠ some startEntry)
      (hcount : texts.length ≠ func.type.type.params.length) :
      Decides machine module function texts (.refused .argumentCountMismatch 0)
  | noRoom {found : Module} {func : Func} {entry : CodeRef}
      (hentry : HasEntry machine module function found func entry)
      (hcount : func.name ≠ some startEntry → texts.length = func.type.type.params.length)
      (hroom : machine.stack.size < func.type.type.params.length) :
      Decides machine module function texts (.refused (.trap .stackOverflow) 0)
  /-- A text cannot be read, and it is the first one: those before are. -/
  | misread {found : Module} {func : Func} {entry : CodeRef} {type : ValType} {text : String}
      {before after : List ValType} {earlier later : List String} {slots : List Slot}
      (hentry : HasEntry machine module function found func entry) (hname : func.name ≠ some startEntry)
      (hcount : texts.length = func.type.type.params.length)
      (hroom : func.type.type.params.length ≤ machine.stack.size)
      (hparams : func.type.type.params = before ++ type :: after) (htexts : texts = earlier ++ text :: later)
      (hearlier : Encodes before earlier slots) (htext : Value.ofTrimmed? type (Text.trim text.toList) = none) :
      Decides machine module function texts
        (.refused (.invalidArgument (String.ofList (Text.trim text.toList))) func.type.type.params.length)
  | called {found : Module} {func : Func} {entry : CodeRef} {slots : List Slot}
      (hentry : HasEntry machine module function found func entry) (hname : func.name ≠ some startEntry)
      (hroom : func.type.type.params.length ≤ machine.stack.size)
      (hslots : Encodes func.type.type.params texts slots) :
      Decides machine module function texts (.admitted found func entry slots)
  /-- No text is looked at. -/
  | started {found : Module} {func : Func} {entry : CodeRef}
      (hentry : HasEntry machine module function found func entry) (hname : func.name = some startEntry)
      (hroom : func.type.type.params.length ≤ machine.stack.size) :
      Decides machine module function texts
        (.admitted found func entry (List.replicate func.type.type.params.length 0))

/-- A call is admitted at the entry of its function. -/
theorem Decides.hasEntry {machine : Machine} {module function : Nat} {texts : List String} {found : Module}
    {entry : CodeRef}
    (h : Decides machine module function texts (.admitted found func entry slots)) :
    HasEntry machine module function found func entry := by
  cases h with
  | called hentry => exact hentry
  | started hentry => exact hentry

theorem Encodes.length_eq {types : List ValType} {texts : List String}
    (h : Encodes types texts slots) : texts.length = types.length ∧ slots.length = types.length := by
  induction h with
  | nil => exact ⟨rfl, rfl⟩
  | cons _ _ ih => exact ⟨congrArg (· + 1) ih.1, congrArg (· + 1) ih.2⟩

/-- As many texts as types are all read, or there is a first one that is not. -/
theorem encodes_or_misread (types : List ValType) (texts : List String) (hcount : texts.length = types.length) :
    (∃ slots, Encodes types texts slots) ∨
      ∃ before type after earlier text later slots, types = before ++ type :: after ∧
        texts = earlier ++ text :: later ∧ Encodes before earlier slots ∧
        Value.ofTrimmed? type (Text.trim text.toList) = none := by
  induction types generalizing texts with
  | nil =>
    cases List.length_eq_zero_iff.1 hcount
    exact .inl ⟨[], .nil⟩
  | cons type types ih =>
    cases texts with
    | nil => cases hcount
    | cons text texts =>
      cases hread : Value.ofTrimmed? type (Text.trim text.toList) with
      | none => exact .inr ⟨[], type, types, [], text, texts, [], rfl, rfl, .nil, hread⟩
      | some value =>
        have hvalue : Value.ofText? type text = .ok value := by simp only [Value.ofText?, hread]
        rcases ih texts (Nat.succ.inj hcount) with
          ⟨slots, hslots⟩ | ⟨before, other, after, earlier, bad, later, slots, rfl, rfl, hslots, hbad⟩
        · exact .inl ⟨_, .cons hvalue hslots⟩
        · exact .inr ⟨type :: before, other, after, text :: earlier, bad, later, _, rfl, rfl, .cons hvalue hslots, hbad⟩

/-- There is a verdict on every call. -/
theorem exists_decides (machine : Machine) (module function : Nat) (texts : List String) :
    ∃ verdict, Decides machine module function texts verdict := by
  cases hmodule : machine.modules[module]? with
  | none => exact ⟨_, .notLoaded hmodule⟩
  | some found =>
    cases hfunction : found.functions[function]? with
    | none => exact ⟨_, .notDefined hmodule hfunction⟩
    | some func =>
      cases hcode : func.code with
      | none => exact ⟨_, .noEntry hmodule hfunction hcode⟩
      | some entry =>
        have hentry : HasEntry machine module function found func entry := ⟨hmodule, hfunction, hcode⟩
        by_cases hname : func.name = some startEntry
        · rcases Nat.lt_or_ge machine.stack.size func.type.type.params.length with hroom | hroom
          · exact ⟨_, .noRoom hentry (fun hother => absurd hname hother) hroom⟩
          · exact ⟨_, .started hentry hname hroom⟩
        · by_cases hcount : texts.length = func.type.type.params.length
          · rcases Nat.lt_or_ge machine.stack.size func.type.type.params.length with hroom | hroom
            · exact ⟨_, .noRoom hentry (fun _ => hcount) hroom⟩
            · rcases encodes_or_misread _ texts hcount with
                ⟨slots, hslots⟩ | ⟨_, _, _, _, _, _, _, hparams, htexts, hearlier, htext⟩
              · exact ⟨_, .called hentry hname hroom hslots⟩
              · exact ⟨_, .misread hentry hname hcount hroom hparams htexts hearlier htext⟩
          · exact ⟨_, .wrongCount hentry hname hcount⟩

/-! ## Arguments in slots -/

/-- Puts values into the slots from one on. -/
def putFrom (stack : Array Slot) (index : Nat) : List Slot → Array Slot
  | [] => stack
  | slot :: slots => putFrom (stack.setIfInBounds index slot) (index + 1) slots

@[simp]
theorem size_putFrom (stack : Array Slot) (index : Nat) (slots : List Slot) :
    (putFrom stack index slots).size = stack.size := by
  induction slots generalizing stack index with
  | nil => rfl
  | cons slot slots ih => rw [putFrom, ih, Array.size_setIfInBounds]

theorem getElem?_putFrom_of_lt {index : Nat} (slots : List Slot) (hlt : place < index) :
    (putFrom stack index slots)[place]? = stack[place]? := by
  induction slots generalizing stack index with
  | nil => rfl
  | cons slot slots ih =>
    rw [putFrom, ih (Nat.lt_succ_of_lt hlt), Array.getElem?_setIfInBounds_ne (Nat.ne_of_gt hlt)]

theorem getElem?_putFrom_of_le {index : Nat}
    (hle : index + slots.length ≤ place) : (putFrom stack index slots)[place]? = stack[place]? := by
  induction slots generalizing stack index with
  | nil => rfl
  | cons slot slots ih =>
    rw [List.length_cons] at hle
    rw [putFrom, ih (by omega), Array.getElem?_setIfInBounds_ne (by omega)]

/-- The values are in their slots. -/
theorem getElem?_putFrom {index : Nat} (hlt : place < slots.length)
    (hroom : index + slots.length ≤ stack.size) : (putFrom stack index slots)[index + place]? = slots[place]? := by
  induction slots generalizing stack index place with
  | nil => cases hlt
  | cons slot slots ih =>
    rw [List.length_cons] at hlt hroom
    rw [putFrom]
    cases place with
    | zero =>
      have hhere : (stack.setIfInBounds index slot)[index]? = some slot :=
        Array.getElem?_setIfInBounds_self_of_lt (by omega)
      exact (getElem?_putFrom_of_lt slots (Nat.lt_succ_self index)).trans hhere
    | succ place =>
      have hroom' : index + 1 + slots.length ≤ (stack.setIfInBounds index slot).size := by
        rw [Array.size_setIfInBounds]
        omega
      rw [← Nat.add_assoc, Nat.add_right_comm, ih (by omega) hroom', List.getElem?_cons_succ]

theorem size_clearSlots (hroom : count ≤ stack.size) :
    (clearSlots stack count).size = stack.size := by
  simp only [clearSlots, Array.size_append, Array.size_replicate, Array.size_extract, Nat.min_self]
  omega

theorem getElem?_clearSlots_of_lt (hlt : place < count) :
    (clearSlots stack count)[place]? = some 0 := by
  rw [clearSlots, Array.getElem?_append_left (by rwa [Array.size_replicate]), Array.getElem?_replicate, if_pos hlt]

theorem getElem?_clearSlots_of_le (hle : count ≤ place) :
    (clearSlots stack count)[place]? = stack[place]? := by
  rw [clearSlots, Array.getElem?_append_right (by rwa [Array.size_replicate]), Array.size_replicate,
    Array.getElem?_extract]
  split
  · rw [Nat.add_sub_of_le hle]
  · rename_i hout
    rw [Array.getElem?_eq_none]
    omega

variable {module function : Nat} {texts : List String} {state : MachineState}

/-- Texts that are read fill their slots, and filling goes on with the texts behind them. -/
theorem fillArguments_append {types types' : List ValType} {texts' : List String}
    (h : Encodes types texts slots) (index : Nat) (state : MachineState) :
    fillArguments index (types ++ types') (texts ++ texts') state =
      fillArguments (index + slots.length) types' texts'
        (state.withStack (putFrom state.machine.stack index slots)) := by
  induction h generalizing index state with
  | nil => rfl
  | @cons type text value types texts slots hvalue _ ih =>
    rw [List.cons_append, List.cons_append, fillArguments, hvalue]
    dsimp only
    have hedit : MachineM.edit (fun machine => { machine with stack := machine.stack.setIfInBounds index value.toSlot })
        state = .ok () (state.withStack (state.machine.stack.setIfInBounds index value.toSlot)) := rfl
    rw [run_bind_of_ok hedit, ih, List.length_cons, Nat.add_assoc, Nat.add_comm 1]
    rfl

/-! ## Calls -/

/-- What a call makes of what its code has come to: the machine gets back what the code worked on. -/
def conclude (machine : Machine) (module : Nat) (type : FuncType) :
    Except Error Unit × ExecState → EStateM.Result Error MachineState (Option Value)
  | (result, exec) =>
    let after : MachineState := ⟨exec.area.env,
      { machine with code := exec.area.code, stack := exec.stack, memory := exec.memory }.storeCode module
        exec.compiled⟩
    match result, type.result, exec.stack[0]? with
    | .error error, _, _ => .error error after
    | .ok (), none, _ => .ok none after
    | .ok (), some _, none => .error (.trap .stackOverflow) after
    | .ok (), some type, some slot => .ok (some (Value.ofSlot type slot)) after

theorem run_eq_conclude {found : Module} (hmodule : state.machine.modules[module]? = some found) (entry : CodeRef)
    (type : FuncType) (purpose : CallPurpose) :
    run module entry type purpose state =
      conclude state.machine module type (state.toExec.execute found purpose entry) := by
  unfold MachineState.toExec run conclude
  rw [run_get_bind]
  simp only [hmodule, run_set_bind]
  cases (ExecState.execute found purpose entry _).1 with
  | error error => rfl
  | ok value =>
    cases type.result with
    | none => rfl
    | some result =>
      dsimp only
      cases (ExecState.execute found purpose entry _).2.stack[0]? <;> rfl

/-- What a refused call leaves of a machine: the stack may have changed, and the failure is recorded. -/
def refused (state : MachineState) (module function : Nat) (error : Error) (stack : Array Slot) : MachineState :=
  ⟨state.env, { state.machine with stack }.record error (state.machine.moduleName module)
    (state.machine.describe module function) ""⟩

theorem call_of_refused {error : Error}
    (h : invoke module function texts .ordinary state = .error error (state.withStack stack)) :
    call module function texts state = .error error (refused state module function error stack) := by
  unfold call recording
  rw [h]
  rfl

section Entry

variable {found : Module} {func : Func} {entry : CodeRef}
  (hentry : HasEntry state.machine module function found func entry) {accepted : List String}

include hentry

theorem invoke_of_entry : invoke module function texts .ordinary state = (do
    let accepted ← acceptArguments func texts
    failIf (func.type.type.params.length > (← get).machine.stack.size) (.trap .stackOverflow)
    edit fun machine => { machine with stack := clearSlots machine.stack func.type.type.params.length }
    fillArguments 0 func.type.type.params accepted
    run module entry func.type.type .ordinary) state := by
  unfold invoke
  rw [run_bind_of_ok (entryPoint_of_code hentry.module hentry.function hentry.entry)]

theorem invoke_of_noRoom (haccept : acceptArguments func texts = pure accepted)
    (hroom : state.machine.stack.size < func.type.type.params.length) :
    invoke module function texts .ordinary state = .error (.trap .stackOverflow) state := by
  rw [invoke_of_entry hentry, haccept, pure_bind, run_get_bind]
  exact run_bind_of_error (run_failIf hroom _ _)

/-- Where there is room, the slots of the parameters are cleared and filled, and then the code runs. -/
theorem invoke_of_room (haccept : acceptArguments func texts = pure accepted)
    (hroom : func.type.type.params.length ≤ state.machine.stack.size) :
    invoke module function texts .ordinary state =
      (fillArguments 0 func.type.type.params accepted >>= fun _ => run module entry func.type.type .ordinary)
        (state.withStack (clearSlots state.machine.stack func.type.type.params.length)) := by
  rw [invoke_of_entry hentry, haccept, pure_bind, run_get_bind, failIf_of_not (Nat.not_lt.2 hroom), pure_bind]
  rfl

end Entry

theorem acceptArguments_of_start (hname : func.name = some startEntry) :
    acceptArguments func texts = pure [] :=
  if_pos hname

theorem acceptArguments_of_count (hname : func.name ≠ some startEntry)
    (hcount : texts.length = func.type.type.params.length) : acceptArguments func texts = pure texts := by
  unfold acceptArguments
  rw [if_neg hname, if_neg (not_not_intro hcount)]

theorem exists_acceptArguments (hcount : func.name ≠ some startEntry → texts.length = func.type.type.params.length) :
    ∃ accepted, acceptArguments func texts = pure accepted := by
  by_cases hname : func.name = some startEntry
  · exact ⟨_, acceptArguments_of_start hname⟩
  · exact ⟨_, acceptArguments_of_count hname (hcount hname)⟩

/-- A stack holds values in its first slots, and is another one in the slots behind. -/
structure Holding (slots : List Slot) (stack stack' : Array Slot) : Prop where
  size : stack'.size = stack.size
  first : ∀ place < slots.length, stack'[place]? = slots[place]?
  others : ∀ place, slots.length ≤ place → stack'[place]? = stack[place]?

theorem holding_replicate (hroom : count ≤ stack.size) :
    Holding (List.replicate count 0) stack (clearSlots stack count) := by
  refine ⟨size_clearSlots hroom, fun place hlt => ?_, fun place hle => ?_⟩
  · rw [List.length_replicate] at hlt
    rw [getElem?_clearSlots_of_lt hlt, List.getElem?_replicate, if_pos hlt]
  · rw [List.length_replicate] at hle
    exact getElem?_clearSlots_of_le hle

theorem holding_putFrom (hroom : slots.length ≤ stack.size) :
    Holding slots stack (putFrom (clearSlots stack slots.length) 0 slots) := by
  refine ⟨(size_putFrom _ _ _).trans (size_clearSlots hroom), fun place hlt => ?_, fun place hle => ?_⟩
  · have hfilled : (putFrom (clearSlots stack slots.length) 0 slots)[0 + place]? = slots[place]? :=
      getElem?_putFrom hlt (by rwa [Nat.zero_add, size_clearSlots hroom])
    rwa [Nat.zero_add] at hfilled
  · rw [getElem?_putFrom_of_le (by rwa [Nat.zero_add]), getElem?_clearSlots_of_le hle]

/-- A call that is refused fails with the error of the verdict and changes the slots of the parameters only. -/
theorem Decides.call_refused {error : Error} {touched : Nat}
    (h : Decides state.machine module function texts (.refused error touched)) :
    ∃ stack : Array Slot, call module function texts state = .error error (refused state module function error stack) ∧
      stack.size = state.machine.stack.size ∧
      ∀ place, touched ≤ place → stack[place]? = state.machine.stack[place]? := by
  -- In all cases but one nothing was written before.
  have hsame (h : invoke module function texts .ordinary state = .error error state) :
      ∃ stack : Array Slot, call module function texts state =
        .error error (refused state module function error stack) ∧ stack.size = state.machine.stack.size ∧
        ∀ place, touched ≤ place → stack[place]? = state.machine.stack[place]? :=
    ⟨state.machine.stack, call_of_refused h, rfl, fun _ _ => rfl⟩
  cases h with
  | notLoaded hmodule =>
    have hlookup : entryPoint module function state = .error .functionLookupFailed state := by
      unfold entryPoint
      rw [run_get_bind, hmodule]
      rfl
    exact hsame (run_bind_of_error hlookup)
  | notDefined hmodule hfunction =>
    have hlookup : entryPoint module function state = .error .functionIndexOutOfRange state := by
      unfold entryPoint
      rw [run_get_bind]
      simp only [hmodule, hfunction]
      rfl
    exact hsame (run_bind_of_error hlookup)
  | noEntry hmodule hfunction hentry =>
    have hlookup : entryPoint module function state = .error .missingCode state := by
      unfold entryPoint
      rw [run_get_bind]
      simp only [hmodule, hfunction, hentry]
      rfl
    exact hsame (run_bind_of_error hlookup)
  | wrongCount hentry hname hcount =>
    refine hsame ?_
    rw [invoke_of_entry hentry, acceptArguments, if_neg hname, if_pos hcount]
    rfl
  | noRoom hentry hcount hroom =>
    obtain ⟨accepted, haccept⟩ := exists_acceptArguments hcount
    exact hsame (invoke_of_noRoom hentry haccept hroom)
  | @misread found func entry type text before after earlier later slots hentry hname hcount hroom hparams htexts
      hearlier htext =>
    have hfill : ∀ between : MachineState, fillArguments 0 func.type.type.params texts between =
        .error (.invalidArgument (String.ofList (Text.trim text.toList)))
          (between.withStack (putFrom between.machine.stack 0 slots)) := by
      intro between
      rw [hparams, htexts, fillArguments_append hearlier, fillArguments, Value.ofText?]
      simp only [htext]
      rfl
    have hlength : slots.length ≤ func.type.type.params.length := by
      rw [hearlier.length_eq.2, hparams, List.length_append]
      exact Nat.le_add_right _ _
    have hinvoke := (invoke_of_room hentry (acceptArguments_of_count hname hcount) hroom).trans
      (run_bind_of_error (hfill _))
    refine ⟨_, call_of_refused hinvoke, (size_putFrom _ _ _).trans (size_clearSlots hroom), fun place hle => ?_⟩
    exact (getElem?_putFrom_of_le (by omega)).trans (getElem?_clearSlots_of_le hle)

/-- A call that is admitted runs its code once, on a stack with the arguments. -/
theorem Decides.call_admitted {found : Module} {entry : CodeRef}
    (h : Decides state.machine module function texts (.admitted found func entry slots)) :
    slots.length = func.type.type.params.length ∧ ∃ stack : Array Slot, Holding slots state.machine.stack stack ∧
      call module function texts state = recording (callRecord module function)
        (fun _ => conclude state.machine module func.type.type
          (ExecState.execute found .ordinary entry ⟨⟨state.env, state.machine.code⟩, stack, state.machine.memory, []⟩))
        state := by
  suffices hinvoke : slots.length = func.type.type.params.length ∧
      ∃ stack : Array Slot, Holding slots state.machine.stack stack ∧
        HasEntry state.machine module function found func entry ∧
        invoke module function texts .ordinary state =
          run module entry func.type.type .ordinary (state.withStack stack) by
    obtain ⟨hlength, stack, hholding, hentry, hinvoke⟩ := hinvoke
    have hmodule : (state.withStack stack).machine.modules[module]? = some found := hentry.module
    refine ⟨hlength, stack, hholding, ?_⟩
    unfold call recording
    rw [hinvoke, run_eq_conclude hmodule]
    rfl
  cases h with
  | called hentry hname hroom hslots =>
    obtain ⟨hcount, hlength⟩ := hslots.length_eq
    have hfill : fillArguments 0 (func.type.type.params ++ []) (texts ++ [])
        (state.withStack (clearSlots state.machine.stack func.type.type.params.length)) = .ok () (state.withStack
          (putFrom (clearSlots state.machine.stack func.type.type.params.length) 0 slots)) :=
      fillArguments_append hslots 0 _
    rw [List.append_nil, List.append_nil] at hfill
    rw [← hlength] at hroom
    refine ⟨hlength, _, holding_putFrom hroom, hentry, ?_⟩
    rw [hlength] at hroom ⊢
    exact (invoke_of_room hentry (acceptArguments_of_count hname hcount) hroom).trans (run_bind_of_ok hfill)
  | started hentry hname hroom =>
    have hfill (between : MachineState) : fillArguments 0 func.type.type.params [] between = .ok () between := by
      cases func.type.type.params <;> rfl
    exact ⟨List.length_replicate, _, holding_replicate hroom, hentry,
      (invoke_of_room hentry (acceptArguments_of_start hname) hroom).trans (run_bind_of_ok (hfill _))⟩

/-- A call with arguments given as text is decided upon before its code runs. A call that is refused fails with the
error of the verdict; the environment, the modules, the code and the memory are as they were, and so is the stack
behind the slots of the parameters. A call that is admitted runs its code exactly once, on a stack that has the
arguments in its first slots and is otherwise as it was, and ends as the code ends. -/
theorem call_decided (module function : Nat) (texts : List String) (state : MachineState) :
    (∃ verdict, Decides state.machine module function texts verdict) ∧
    (∀ error touched, Decides state.machine module function texts (.refused error touched) →
      ∃ stack : Array Slot, stack.size = state.machine.stack.size ∧
        (∀ place, touched ≤ place → stack[place]? = state.machine.stack[place]?) ∧
        call module function texts state = .error error (refused state module function error stack)) ∧
    ∀ found func entry slots, Decides state.machine module function texts (.admitted found func entry slots) →
      slots.length = func.type.type.params.length ∧ ∃ stack : Array Slot, Holding slots state.machine.stack stack ∧
        call module function texts state = recording (callRecord module function)
          (fun _ => conclude state.machine module func.type.type
            (ExecState.execute found .ordinary entry
              ⟨⟨state.env, state.machine.code⟩, stack, state.machine.memory, []⟩))
          state := by
  refine ⟨exists_decides _ _ _ _, fun error touched hdecides => ?_, fun _ _ _ _ hdecides => hdecides.call_admitted⟩
  obtain ⟨stack, hcall, hsize, hsame⟩ := hdecides.call_refused
  exact ⟨stack, hsize, hsame, hcall⟩

/-- A function of two parameters: with a text that is no number for the second, the call fails after the first was
written; with two numbers, the code is entered; as the start of the module, it is entered with zeros. -/
theorem call_decided_two :
    let type : TypeHandle := ⟨0, ⟨none, [.i32, .i64]⟩⟩
    let func (label : String) : Func := { Func.declared type with label := .given label, code := some ⟨0, 0⟩ }
    let module : Module := { functions := #[func "f", func "_start"] }
    let machine : Machine := { id := ⟨0⟩, modules := #[module], memory := .create {} ⟨0⟩ 3, stack := #[8, 8, 8] }
    let state : MachineState := ⟨{ host := {} }, machine⟩
    resultOf (call 0 0 ["7", " x "] state) = .error (.invalidArgument "x") ∧
      (stateAfter (call 0 0 ["7", " x "] state)).machine.stack[2]? = some 8 ∧
      Decides machine 0 0 [" 7", "-1"] (.admitted module (func "f") ⟨0, 0⟩ [7, 0xFFFFFFFFFFFFFFFF]) ∧
      (∃ stack, Holding [7, 0xFFFFFFFFFFFFFFFF] #[8, 8, 8] stack ∧
        call 0 0 [" 7", "-1"] state = recording (callRecord 0 0)
          (fun _ => conclude machine 0 type.type
            (ExecState.execute module .ordinary ⟨0, 0⟩ ⟨⟨state.env, machine.code⟩, stack, machine.memory, []⟩)) state) ∧
      ∃ stack, Holding [0, 0] #[8, 8, 8] stack ∧
        call 0 1 ["x"] state = recording (callRecord 0 1)
          (fun _ => conclude machine 0 type.type
            (ExecState.execute module .ordinary ⟨0, 0⟩ ⟨⟨state.env, machine.code⟩, stack, machine.memory, []⟩))
          state := by
  intro type func module machine state
  have hentry : HasEntry machine 0 0 module (func "f") ⟨0, 0⟩ := ⟨rfl, rfl, rfl⟩
  have hstart : HasEntry machine 0 1 module (func "_start") ⟨0, 0⟩ := ⟨rfl, rfl, rfl⟩
  have hname : (func "f").name ≠ some startEntry := by decide
  have hseven : Value.ofText? .i32 "7" = .ok (.i32 7) := by decide +kernel
  have hbad : Value.ofTrimmed? .i64 (Text.trim " x ".toList) = none := by decide +kernel
  have hparams : (func "f").type.type.params = [.i32] ++ .i64 :: [] := rfl
  have htexts : ["7", " x "] = ["7"] ++ " x " :: [] := rfl
  have htrimmed : String.ofList (Text.trim " x ".toList) = "x" := by decide +kernel
  have hdecides := Decides.misread hentry hname rfl (by decide) hparams htexts (.cons hseven .nil) hbad
  rw [htrimmed] at hdecides
  have hfirst : Value.ofText? .i32 " 7" = .ok (.i32 7) := by decide +kernel
  have hsecond : Value.ofText? .i64 "-1" = .ok (.i64 (-1)) := by decide +kernel
  have hcalled : Decides machine 0 0 [" 7", "-1"] (.admitted module (func "f") ⟨0, 0⟩ [7, 0xFFFFFFFFFFFFFFFF]) :=
    .called hentry hname (by decide) (.cons hfirst (.cons hsecond .nil))
  have hstarted : Decides machine 0 1 ["x"] (.admitted module (func "_start") ⟨0, 0⟩ [0, 0]) :=
    .started hstart rfl (by decide)
  obtain ⟨stack, -, hsame, hcall⟩ := (call_decided 0 0 ["7", " x "] state).2.1 _ _ hdecides
  have hresult : resultOf (call 0 0 ["7", " x "] state) = .error (.invalidArgument "x") := congrArg resultOf hcall
  have hstack : (stateAfter (call 0 0 ["7", " x "] state)).machine.stack[2]? = some 8 := by
    rw [hcall]
    exact hsame 2 (Nat.le_refl 2)
  obtain ⟨-, hentered⟩ := (call_decided 0 0 [" 7", "-1"] state).2.2 _ _ _ _ hcalled
  obtain ⟨-, hentered'⟩ := (call_decided 0 1 ["x"] state).2.2 _ _ _ _ hstarted
  exact ⟨hresult, hstack, hcalled, hentered, hentered'⟩

end Machine

end WasmEngine
