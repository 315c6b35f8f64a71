import WasmEngine.Proofs.Threaded.Execution

/-!
# Frames of calls

All calls share one stack of slots, and the frame of a callee starts where the frame of its caller ends.
`Threaded.Steps` says all that one operation of a call can do; what a run does follows by induction on the operations.
-/

namespace WasmEngine

/-! ## What a running program may change -/

/-- The slots below one are the same in two states. -/
def ExecState.SameBelow (bound : Nat) (state state' : ExecState) : Prop :=
  ∀ index < bound, state'.stack[index]? = state.stack[index]?

namespace ExecState.SameBelow

variable {bound bound' : Nat} {state state' state'' : ExecState}

theorem of_stack_eq (h : state'.stack = state.stack) : SameBelow bound state state' :=
  fun _ _ => by rw [h]

theorem refl (state : ExecState) : SameBelow bound state state :=
  fun _ _ => rfl

theorem trans (h : SameBelow bound state state') (h' : SameBelow bound state' state'') :
    SameBelow bound state state'' :=
  fun index hlt => (h' index hlt).trans (h index hlt)

theorem mono (h : SameBelow bound state state') (hle : bound' ≤ bound) : SameBelow bound' state state' :=
  fun index hlt => h index (Nat.lt_of_lt_of_le hlt hle)

theorem setIfInBounds {index : Nat} (hle : bound ≤ index) (value : Slot) :
    SameBelow bound state { state with stack := state.stack.setIfInBounds index value } :=
  fun _ hlt => Array.getElem?_setIfInBounds_ne (Nat.ne_of_gt (Nat.lt_of_lt_of_le hlt hle))

end ExecState.SameBelow

namespace Exec

/-- A program goes to a related state whether or not it succeeds, and if it does, its result is as expected. -/
structure Within {α : Type} (rel : ExecState → ExecState → Prop) (module : Module) (state : ExecState)
    (program : Exec α) (expected : α → Prop) : Prop where
  related : rel state (program.exec module state).2
  result : ∀ value, (program.exec module state).1 = .ok value → expected value

variable {α β : Type} {module : Module} {state : ExecState}

namespace Within

variable {rel rel' : ExecState → ExecState → Prop} {program : Exec α} {expected expected' : α → Prop}

theorem mono (h : Within rel module state program expected) (hrel : ∀ {state'}, rel state state' → rel' state state')
    (hexpected : ∀ value, expected value → expected' value) : Within rel' module state program expected' :=
  ⟨hrel h.related, fun value hvalue => hexpected value (h.result value hvalue)⟩

theorem bind (htrans : ∀ {state state' state''}, rel state state' → rel state' state'' → rel state state'')
    (hfirst : Within rel module state program expected) {second : α → Exec β} {wanted : β → Prop}
    (hsecond : ∀ value between, rel state between → expected value →
      Within rel module between (second value) wanted) :
    Within rel module state (program >>= second) wanted := by
  obtain ⟨hrelated, hresult⟩ := hfirst
  cases hexec : program.exec module state with
  | mk result between =>
    rw [hexec] at hrelated hresult
    cases result with
    | ok value =>
      obtain ⟨hrelated', hresult'⟩ := hsecond value between hrelated (hresult value rfl)
      refine ⟨?_, ?_⟩ <;> rw [exec_bind_ok hexec]
      · exact htrans hrelated hrelated'
      · exact hresult'
    | error error =>
      refine ⟨?_, ?_⟩ <;> rw [exec_bind_error hexec]
      · exact hrelated
      · exact nofun

end Within

/-! ### Programs that look only -/

/-- A program that leaves the state as it is. -/
abbrev Peeks (module : Module) (state : ExecState) (program : Exec α) (expected : α → Prop) : Prop :=
  Within Eq module state program expected

namespace Peeks

variable {program : Exec α} {expected : α → Prop}

theorem pure {value : α} (h : expected value) : Peeks module state (pure value) expected :=
  ⟨rfl, fun _ heq => by cases heq; exact h⟩

theorem throw (error : Error) : Peeks module state (throw error) expected :=
  ⟨rfl, nofun⟩

theorem bind (hfirst : Peeks module state program expected) {second : α → Exec β} {wanted : β → Prop}
    (hsecond : ∀ value, expected value → Peeks module state (second value) wanted) :
    Peeks module state (program >>= second) wanted := by
  refine Within.bind (fun h h' => h.trans h') hfirst ?_
  rintro value _ rfl hvalue
  exact hsecond value hvalue

theorem check (result : Except Error α) : Peeks module state (Exec.check result) fun _ => True :=
  ⟨rfl, fun _ _ => trivial⟩

theorem slot (index : Nat) : Peeks module state (Exec.slot index) fun _ => True := by
  refine ⟨?_, fun _ _ => trivial⟩
  change state = (ExecState.answerFrame 0 (.slot index) state).2
  unfold ExecState.answerFrame
  dsimp only
  split <;> rfl

theorem slotCount : Peeks module state Exec.slotCount (· = state.stack.size) :=
  ⟨rfl, fun _ heq => by cases heq; rfl⟩

theorem fetch (address : CodeRef) :
    Peeks module state (Exec.fetch address) fun line => state.area.code.line? address = some line := by
  have hexec : (Exec.fetch address).exec module state = ExecState.answer module (.fetch address) state := rfl
  unfold ExecState.answer at hexec
  dsimp only at hexec
  cases hline : state.area.code.line? address with
  | none =>
    rw [hline] at hexec
    exact ⟨congrArg Prod.snd hexec.symm, fun _ heq => by rw [hexec] at heq; cases heq⟩
  | some line =>
    rw [hline] at hexec
    exact ⟨congrArg Prod.snd hexec.symm, fun _ heq => by rw [hexec] at heq; cases heq; rfl⟩

theorem immediate (address : CodeRef) :
    Peeks module state (Exec.immediate address) fun value => state.area.code.line? address = some (.imm value) := by
  refine (fetch address).bind fun line hline => ?_
  cases line with
  | imm value => exact .pure hline
  | _ => exact .throw _

theorem immediate32 (address : CodeRef) :
    Peeks module state (Threaded.immediate32 address) fun value =>
      state.area.code.line? address = some (.imm value.toUInt64) := by
  refine (immediate address).bind fun value hvalue => ?_
  split
  · rename_i hlt
    have hword : value.toUInt32.toUInt64 = value := by
      apply UInt64.toNat.inj
      rw [UInt32.toNat_toUInt64, UInt64.toNat_toUInt32, Nat.mod_eq_of_lt hlt]
    exact .pure (by rwa [hword])
  · exact .throw _

theorem pop (operands : List Slot) : Peeks module state (Threaded.pop operands) fun _ => True := by
  cases operands with
  | nil => exact .throw _
  | cons value operands => exact .pure trivial

end Peeks

/-! ### Programs that leave the slots below one alone -/

/-- A program that changes no slot below one. -/
abbrev Spares (bound : Nat) (module : Module) (state : ExecState) (program : Exec α) (expected : α → Prop) : Prop :=
  Within (ExecState.SameBelow bound) module state program expected

namespace Spares

variable {bound : Nat} {program : Exec α} {expected : α → Prop}

theorem of_peeks (h : Peeks module state program expected) : Spares bound module state program expected :=
  h.mono (fun heq => heq ▸ .refl _) fun _ => id

theorem pure {value : α} (h : expected value) : Spares bound module state (pure value) expected :=
  .of_peeks (.pure h)

theorem bind (hfirst : Spares bound module state program expected) {second : α → Exec β} {wanted : β → Prop}
    (hsecond : ∀ value state, expected value → Spares bound module state (second value) wanted) :
    Spares bound module state (program >>= second) wanted :=
  Within.bind .trans hfirst fun value between _ hvalue => hsecond value between hvalue

/-- A request of which the answer leaves the slots alone. -/
theorem of_answer (op : ExecOp) (hprogram : (program.exec module state).2 = (ExecState.answer module op state).2)
    (h : (ExecState.answer module op state).2.stack = state.stack) :
    Spares bound module state program fun _ => True :=
  ⟨.of_stack_eq (hprogram ▸ h), fun _ _ => trivial⟩

theorem yieldNow : Spares bound module state Exec.yieldNow fun _ => True := by
  refine .of_answer .yieldNow rfl ?_
  unfold ExecState.answer
  dsimp only
  split <;> rfl

/-- Compiling works on the code. -/
theorem ensureCompiled (function : Nat) : Spares bound module state (Exec.ensureCompiled function) fun _ => True := by
  refine .of_answer (.ensureCompiled function) rfl ?_
  change (state.ensureCompiled module function).2.stack = _
  unfold ExecState.ensureCompiled
  split
  · rfl
  · split <;> rfl

/-- What a host function or an operation does in a frame is done behind the slots below the frame. -/
theorem answerFrame {base : Nat} (hle : bound ≤ base) (op : FrameOp) (state : ExecState) :
    state.SameBelow bound (ExecState.answerFrame base op state).2 := by
  unfold ExecState.answerFrame
  cases op with
  | slot index =>
    dsimp only
    split <;> exact .refl _
  | setSlot index value =>
    dsimp only
    split
    · exact .setIfInBounds (Nat.le_trans hle (Nat.le_add_right _ _)) value
    · exact .refl _
  | memory => exact .refl _
  | writeMemory offset data =>
    dsimp only
    split <;> exact .refl _
  | growMemory pages =>
    dsimp only
    split <;> exact .refl _

theorem setSlot {index : Nat} (hle : bound ≤ index) (value : Slot) :
    Spares bound module state (Exec.setSlot index value) fun _ => True := by
  refine ⟨?_, fun _ _ => trivial⟩
  by_cases hlt : index < state.stack.size
  · rw [exec_setSlot hlt]
    exact .setIfInBounds hle value
  · rw [exec_setSlot_of_le (Nat.not_lt.1 hlt)]
    exact .refl _

/-- A host function reaches the slots from its frame on only. -/
theorem callNative {sp : Nat} (hle : bound ≤ sp) (function : HostFunction) (cookie : Option UInt64) :
    Spares bound module state (Exec.callNative function sp cookie) fun _ => True := by
  refine ⟨?_, fun _ _ => trivial⟩
  change state.SameBelow bound (state.callNative function sp cookie).2
  unfold ExecState.callNative
  split
  · exact Dialogue.run_preserves (ExecState.answerFrame sp) (state.SameBelow bound)
      (fun op _ hbelow => hbelow.trans (answerFrame hle op _)) _ state (.refl state)
  · exact .refl _

theorem callNativeAt {sp : Nat} (hle : bound ≤ sp) (address : CodeRef) :
    Spares bound module state (Exec.callNativeAt address sp) fun _ => True := by
  refine .bind (.of_peeks (.fetch address)) fun line state _ => ?_
  extract_lets call
  have hcall (cookie : Option UInt64) (state : ExecState) : Spares bound module state (call cookie) fun _ => True := by
    refine .bind (.of_peeks (.fetch _)) fun line state _ => ?_
    cases line with
    | native function => exact .callNative hle function cookie
    | _ => exact .of_peeks (.throw _)
  cases line with
  | op code =>
    dsimp only
    split
    · exact hcall none state
    · split
      · refine .bind (?_ : Spares bound module state _ fun _ => True) fun cookie state _ => hcall cookie state
        exact .bind (.of_peeks (.immediate _)) fun _ _ _ => .pure trivial
      · exact .of_peeks (.throw _)
  | _ => exact .of_peeks (.throw _)

end Spares

end Exec

/-! ## What one operation can do -/

namespace Threaded

open Exec

namespace Op

/-- The number of lines of an operation with its operands. -/
def lines : Op → Nat
  | .enter => 3
  | .push | .localGet | .globalGet | .branch | .branchUnless | .call | .callIndirect => 2
  | .arithmetic _ | .ret | .drop | .unreachable => 1

/-- Where an operation at an address may lead: behind it, or to the line that it names. -/
inductive Leads (code : CodeStore) (address : CodeRef) : Op → CodeRef → Prop where
  | behind {op : Op} (hop : op ≠ .branch) : Leads code address op (address.offset op.lines)
  | branch {op : Op} {line : UInt32} (hop : op = .branch ∨ op = .branchUnless)
      (hline : code.line? (address.offset 1) = some (.imm line.toUInt64)) :
      Leads code address op ⟨address.page, line.toNat⟩

theorem line_of_ofCode? {code : UInt16} {op : Op} (h : ofCode? code = some op) : op.line = .op code := by
  unfold ofCode? at h
  split at h <;> cases h <;> rfl

end Op

/-- What an operation of a call can come to. What fails has touched the slots from the frame on only. -/
inductive Steps (module : Module) (call : Activation) (state : ExecState) : Except Error Next × ExecState → Prop where
  | fails {error : Error} {state' : ExecState} (hsame : state.SameBelow call.sp state') :
      Steps module call state (.error error, state')
  /-- The call goes on with other operands. -/
  | proceeds {op : Op} {next : Activation} (hop : state.area.code.line? call.pc = some op.line) (henter : op ≠ .enter)
      (hret : op ≠ .ret) (hleads : op.Leads state.area.code call.pc next.pc) (hsp : next.sp = call.sp)
      (hframe : next.frame = call.frame) :
      Steps module call state (.ok (.proceed next), state)
  /-- The frame is opened: the parameters are there, and the locals are set to zero. -/
  | opens {params locals : UInt64} {state' : ExecState} (hop : state.area.code.line? call.pc = some Op.enter.line)
      (hparams : state.area.code.line? (call.pc.offset 1) = some (.imm params))
      (hlocals : state.area.code.line? (call.pc.offset 2) = some (.imm locals))
      (hsame : state.SameBelow (call.sp + params.toNat) state')
      (hzero : ∀ index < locals.toNat, state'.stack[call.sp + params.toNat + index]? = some 0) :
      Steps module call state
        (.ok (.proceed { call with pc := call.pc.offset 3, frame := params.toNat + locals.toNat }), state')
  /-- A callee has its arguments in its frame, which begins behind the frame of the call. -/
  | calls {op : Op} {entry : CodeRef} {operands : List Slot} {hasResult : Bool} {state' : ExecState}
      (hop : state.area.code.line? call.pc = some op.line) (hcall : op = .call ∨ op = .callIndirect)
      (hsame : state.SameBelow call.top state') :
      Steps module call state
        (.ok (.enter { pc := entry, sp := call.top } { call with pc := call.pc.offset 2, operands } hasResult), state')
  | finishes {state' : ExecState} (hsame : state.SameBelow call.sp state') :
      Steps module call state (.ok .finish, state')

section Steps

variable {module : Module} {call : Activation} {state : ExecState}

theorem Steps.of_within {rel : ExecState → ExecState → Prop} {program : Exec Next} {expected : Next → Prop}
    (h : Within rel module state program expected)
    (hrel : ∀ {state'}, rel state state' → state.SameBelow call.sp state')
    (hnext : ∀ {next state'}, rel state state' → expected next → Steps module call state (.ok next, state')) :
    Steps module call state (program.exec module state) := by
  obtain ⟨hrelated, hresult⟩ := h
  cases hexec : program.exec module state with
  | mk result state' =>
    rw [hexec] at hrelated hresult
    cases result with
    | ok next => exact hnext hrelated (hresult next rfl)
    | error error => exact .fails (hrel hrelated)

theorem Steps.bind_peeks {α : Type} {first : Exec α} {second : α → Exec Next} {expected : α → Prop}
    (h : Peeks module state first expected)
    (hsecond : ∀ value, expected value → Steps module call state ((second value).exec module state)) :
    Steps module call state ((first >>= second).exec module state) := by
  obtain ⟨hrelated, hresult⟩ := h
  cases hexec : first.exec module state with
  | mk result state' =>
    rw [hexec] at hrelated hresult
    cases hrelated
    cases result with
    | ok value =>
      rw [exec_bind_ok hexec]
      exact hsecond value (hresult value rfl)
    | error error =>
      rw [exec_bind_error hexec]
      exact .fails (.refl _)

/-! ### Opening a frame -/

/-- Where there is room, the slots are set to zero and no others are touched. -/
theorem exec_clear {first count : Nat} (hroom : first + count ≤ state.stack.size) :
    ∃ stack : Array Slot, (clear first count).exec module state = (.ok (), { state with stack }) ∧
      stack.size = state.stack.size ∧ (∀ index < count, stack[first + index]? = some 0) ∧
      ∀ index < first, stack[index]? = state.stack[index]? := by
  induction count generalizing first state with
  | zero => exact ⟨state.stack, rfl, rfl, nofun, fun _ _ => rfl⟩
  | succ count ih =>
    have hsize : (state.stack.setIfInBounds first 0).size = state.stack.size := Array.size_setIfInBounds
    obtain ⟨stack, hexec, hstack, hzero, hsame⟩ :=
      @ih { state with stack := state.stack.setIfInBounds first 0 } (first + 1) (by dsimp only; omega)
    refine ⟨stack, ?_, hstack.trans hsize, fun index hlt => ?_, fun index hlt => ?_⟩
    · rw [clear, exec_bind_ok (exec_setSlot (by omega) 0)]
      exact hexec
    · cases index with
      | zero => rw [Nat.add_zero, hsame first (by omega), Array.getElem?_setIfInBounds_self_of_lt (by omega)]
      | succ index => rw [show first + (index + 1) = first + 1 + index by omega, hzero index (by omega)]
    · rw [hsame index (by omega), Array.getElem?_setIfInBounds_ne (by omega)]

theorem steps_enter (hop : state.area.code.line? call.pc = some Op.enter.line) :
    Steps module call state ((runOp module call .enter).exec module state) := by
  rw [runOp, enter]
  simp only [bind_assoc]
  refine .bind_peeks (.immediate _) fun params hparams => ?_
  refine .bind_peeks (.immediate _) fun locals hlocals => ?_
  refine .bind_peeks .slotCount fun count hcount => ?_
  split
  · exact .fails (.refl _)
  · have hroom : call.sp + params.toNat + locals.toNat ≤ state.stack.size := by omega
    obtain ⟨stack, hexec, -, hzero, hsame⟩ := @exec_clear module _ _ _ hroom
    rw [bind_assoc, exec_bind_ok hexec]
    exact .opens hop hparams hlocals hsame hzero

/-! ### Calling -/

theorem spares_passArguments {bound sp : Nat} (hle : bound ≤ sp) (count : Nat) (operands : List Slot)
    (state : ExecState) : Spares bound module state (passArguments sp count operands) fun _ => True := by
  induction count generalizing operands state with
  | zero => exact .pure trivial
  | succ count ih =>
    refine .bind (.of_peeks (.pop operands)) fun rest state _ => ?_
    exact .bind (.setSlot (by omega) _) fun _ state _ => ih rest.2 state

theorem spares_prepareCall (function : Nat) (caller : Activation) (state : ExecState) :
    Spares caller.top module state (prepareCall module function caller) fun next =>
      ∃ entry operands hasResult,
        next = .enter { pc := entry, sp := caller.top } { caller with operands } hasResult := by
  refine .bind (.ensureCompiled function) fun entry state _ => ?_
  cases module.functions[function]? with
  | none => exact .of_peeks (.throw _)
  | some func =>
    refine .bind (spares_passArguments (Nat.le_refl _) _ _ state) fun operands state _ => ?_
    exact .bind .yieldNow fun _ state _ => .pure ⟨entry, operands, _, rfl⟩

theorem steps_call {op : Op} (hop : state.area.code.line? call.pc = some op.line)
    (hcall : op = .call ∨ op = .callIndirect) : Steps module call state ((runOp module call op).exec module state) := by
  have hspares : Spares call.top module state (runOp module call op) fun next =>
      ∃ entry operands hasResult, next =
        .enter { pc := entry, sp := call.top } { call with pc := call.pc.offset 2, operands } hasResult := by
    rcases hcall with rfl | rfl
    · refine .bind (.of_peeks (.immediate32 _)) fun function state _ => ?_
      exact spares_prepareCall function.toNat (call.advance 2) state
    · refine .bind (.of_peeks (.immediate _)) fun type state _ => ?_
      refine .bind (.of_peeks (.pop _)) fun operands state _ => ?_
      refine .bind (.of_peeks (.check _)) fun function state _ => ?_
      exact spares_prepareCall function { call.advance 2 with operands := operands.2 } state
  refine .of_within hspares (fun hsame => hsame.mono (Nat.le_add_right _ _)) ?_
  rintro _ _ hsame ⟨entry, operands, hasResult, rfl⟩
  exact .calls hop hcall hsame

/-! ### All operations -/

theorem steps_runOp {op : Op} (hop : state.area.code.line? call.pc = some op.line) :
    Steps module call state ((runOp module call op).exec module state) := by
  cases op with
  | enter => exact steps_enter hop
  | push =>
    exact .bind_peeks (.immediate _) fun value _ => .proceeds hop nofun nofun (.behind nofun) rfl rfl
  | localGet =>
    refine .bind_peeks (.immediate _) fun index _ => ?_
    exact .bind_peeks (.slot _) fun value _ => .proceeds hop nofun nofun (.behind nofun) rfl rfl
  | globalGet =>
    refine .bind_peeks (.immediate32 _) fun index _ => ?_
    exact .bind_peeks (.check _) fun value _ => .proceeds hop nofun nofun (.behind nofun) rfl rfl
  | arithmetic operation =>
    refine .bind_peeks (.pop _) fun first _ => ?_
    exact .bind_peeks (.pop _) fun second _ => .proceeds hop nofun nofun (.behind nofun) rfl rfl
  | branch =>
    exact .bind_peeks (.immediate32 _) fun line hline => .proceeds hop nofun nofun (.branch (.inl rfl) hline) rfl rfl
  | branchUnless =>
    refine .bind_peeks (.pop _) fun condition _ => ?_
    dsimp only
    split
    · exact .bind_peeks (.immediate32 _) fun line hline => .proceeds hop nofun nofun (.branch (.inr rfl) hline) rfl rfl
    · exact .proceeds hop nofun nofun (.behind nofun) rfl rfl
  | call => exact steps_call hop (.inl rfl)
  | callIndirect => exact steps_call hop (.inr rfl)
  | ret =>
    have hspares : Spares call.sp module state (runOp module call .ret) (· = .finish) := by
      unfold runOp
      dsimp only
      split
      · exact .pure rfl
      · exact .bind (.setSlot (Nat.le_refl _) _) fun _ _ _ => .pure rfl
    exact .of_within hspares id fun hsame hnext => hnext ▸ .finishes hsame
  | drop =>
    exact .bind_peeks (.pop _) fun value _ => .proceeds hop nofun nofun (.behind nofun) rfl rfl
  | unreachable => exact .fails (.refl _)

theorem steps (module : Module) (call : Activation) (state : ExecState) :
    Steps module call state ((step module call).exec module state) := by
  refine .bind_peeks (.fetch _) fun line hline => ?_
  cases line with
  | op code =>
    dsimp only
    split
    · have hspares : Spares call.sp module state (Exec.callNativeAt call.pc call.sp >>= fun _ => pure Next.finish)
          (· = .finish) :=
        .bind (.callNativeAt (Nat.le_refl _) _) fun _ _ _ => .pure rfl
      exact .of_within hspares id fun hsame hnext => hnext ▸ .finishes hsame
    · split
      · exact .fails (.refl _)
      · rename_i op hop
        exact steps_runOp (hline.trans (congrArg some (Op.line_of_ofCode? hop).symm))
  | _ => exact .fails (.refl _)

end Steps

/-! ## Calls and their callees -/

/-- All that comes after an operation has its frame from a slot on. -/
def Next.From (bound : Nat) : Next → Prop
  | .proceed call => bound ≤ call.sp
  | .enter callee caller _ => bound ≤ callee.sp ∧ bound ≤ caller.sp
  | .finish => True

section Run

variable {module : Module} {call : Activation} {state : ExecState}

theorem Steps.spares {outcome : Except Error Next × ExecState} (h : Steps module call state outcome) :
    state.SameBelow call.sp outcome.2 ∧ ∀ next, outcome.1 = .ok next → next.From call.sp := by
  cases h with
  | fails hsame => exact ⟨hsame, nofun⟩
  | proceeds _ _ _ _ hsp =>
    refine ⟨.refl _, ?_⟩
    rintro _ ⟨⟩
    exact hsp.ge
  | opens _ _ _ hsame =>
    refine ⟨hsame.mono (Nat.le_add_right _ _), ?_⟩
    rintro _ ⟨⟩
    exact Nat.le_refl _
  | calls _ _ hsame =>
    refine ⟨hsame.mono (Nat.le_add_right _ _), ?_⟩
    rintro _ ⟨⟩
    exact ⟨Nat.le_add_right _ _, Nat.le_refl _⟩
  | finishes hsame =>
    refine ⟨hsame, ?_⟩
    rintro _ ⟨⟩
    trivial

theorem spares_step (module : Module) (call : Activation) (state : ExecState) :
    Spares call.sp module state (step module call) (Next.From call.sp) := by
  obtain ⟨hsame, hnext⟩ := (steps module call state).spares
  exact ⟨hsame, hnext⟩

/-- A call leaves the slots below its frame alone if what comes after it does. -/
theorem spares_run (module : Module) (fuel : Nat) {bound : Nat} (hle : bound ≤ call.sp)
    {after : Exec Unit} (hafter : ∀ state, Spares bound module state after fun _ => True) (state : ExecState) :
    Spares bound module state (run module fuel call after) fun _ => True := by
  induction fuel generalizing call after state with
  | zero => exact .of_peeks (.throw _)
  | succ fuel ih =>
    have hstep : Spares bound module state (step module call) (Next.From call.sp) :=
      (spares_step module call state).mono (fun hsame => hsame.mono hle) fun _ => id
    rw [run_succ]
    refine .bind hstep fun next state hnext => ?_
    cases next with
    | proceed next => exact ih (Nat.le_trans hle hnext) hafter state
    | enter callee caller hasResult =>
      obtain ⟨hcallee, hcaller⟩ := hnext
      -- What comes after the callee is the rest of the caller, which has its frame further down.
      cases hasResult with
      | true =>
        refine ih (Nat.le_trans hle hcallee) (fun state => ?_) state
        refine .bind (.of_peeks (.slot _)) fun value state _ => ?_
        have hpushed : bound ≤ (caller.push value).sp := Nat.le_trans hle hcaller
        exact ih hpushed hafter state
      | false => exact ih (Nat.le_trans hle hcallee) (fun state => ih (Nat.le_trans hle hcaller) hafter state) state
    | finish => exact hafter state

/-- A call leaves the slots below its frame alone, whether it returns or fails. -/
theorem sameBelow_run (module : Module) (fuel : Nat) (call : Activation) (state : ExecState) :
    state.SameBelow call.sp ((run module fuel call (pure ())).exec module state).2 :=
  (spares_run module fuel (Nat.le_refl _) (fun _ => .pure trivial) state).related

/-- What comes after a call can be run apart from it. -/
theorem run_bind (module : Module) (fuel : Nat) (call : Activation) (after : Exec Unit) :
    run module fuel call after = run module fuel call (pure ()) >>= fun _ => after := by
  induction fuel generalizing call after with
  | zero => rfl
  | succ fuel ih =>
    rw [run_succ, run_succ, bind_assoc]
    refine congrArg (Bind.bind (step module call)) (funext fun next => ?_)
    cases next with
    | proceed next => exact ih next after
    | enter callee caller hasResult =>
      cases hasResult with
      | true =>
        simp only [Next.run]
        rw [ih callee, ih callee (Exec.slot callee.sp >>= _), bind_assoc]
        simp only [bind_assoc]
        refine congrArg (Bind.bind (run module fuel callee (pure ()))) (funext fun _ => ?_)
        exact congrArg (Bind.bind (Exec.slot callee.sp)) (funext fun value => ih _ after)
      | false =>
        simp only [Next.run]
        rw [ih callee, ih callee (run module fuel caller (pure ())), bind_assoc]
        exact congrArg (Bind.bind (run module fuel callee (pure ()))) (funext fun _ => ih caller after)
    | finish =>
      simp only [Next.run, pure_bind]

/-- The caller takes the result of a callee that has one. -/
def Activation.receive (caller callee : Activation) : (hasResult : Bool) → Exec Activation
  | true => caller.push <$> Exec.slot callee.sp
  | false => pure caller

/-- The points that a call comes by, with the fuel that is left. Behind a call, it is after the callee has returned. -/
inductive Passes (module : Module) (fuel : Nat) (first : Activation) (start : ExecState) :
    Nat → Activation → ExecState → Prop where
  | start : Passes module fuel first start fuel first start
  | proceed {left : Nat} {call next : Activation} {state state' : ExecState}
      (h : Passes module fuel first start (left + 1) call state)
      (hstep : (step module call).exec module state = (.ok (.proceed next), state')) :
      Passes module fuel first start left next state'
  | returned {left : Nat} {call callee caller next : Activation} {hasResult : Bool}
      {state between after state' : ExecState} (h : Passes module fuel first start (left + 1) call state)
      (hstep : (step module call).exec module state = (.ok (.enter callee caller hasResult), between))
      (hcallee : (run module left callee (pure ())).exec module between = (.ok (), after))
      (hreceive : (caller.receive callee hasResult).exec module after = (.ok next, state')) :
      Passes module fuel first start left next state'

/-- What is left of a run at a point has the outcome of the run. -/
theorem Passes.exec_eq {fuel left : Nat} {first : Activation} {start : ExecState}
    (h : Passes module fuel first start left call state) (rest : Exec Unit) :
    (run module fuel first rest).exec module start = (run module left call rest).exec module state := by
  induction h with
  | start => rfl
  | proceed _ hstep ih =>
    rw [ih, run_succ, exec_bind_ok hstep]
    rfl
  | @returned left call callee caller next hasResult state between after state' _ hstep hcallee hreceive ih =>
    have hnext : (Next.run module left rest (.enter callee caller hasResult)).exec module between =
        (run module left callee (pure ()) >>= fun _ => caller.receive callee hasResult >>= fun next =>
          run module left next rest).exec module between := by
      cases hasResult with
      | true =>
        simp only [Next.run, Activation.receive, map_eq_pure_bind, bind_assoc, pure_bind]
        rw [run_bind]
      | false =>
        simp only [Next.run, Activation.receive, pure_bind]
        rw [run_bind]
    rw [ih, run_succ, exec_bind_ok hstep, hnext, exec_bind_ok hcallee, exec_bind_ok hreceive]

/-- A callee has its frame behind that of its caller, which is as it was when the callee returns or fails. -/
theorem entered {callee caller : Activation} {hasResult : Bool} {between : ExecState}
    (hstep : (step module call).exec module state = (.ok (.enter callee caller hasResult), between)) (fuel : Nat) :
    callee.sp = call.top ∧ caller.sp = call.sp ∧ caller.frame = call.frame ∧ caller.pc = call.pc.offset 2 ∧
      state.SameBelow call.top ((run module fuel callee (pure ())).exec module between).2 := by
  have hsteps := steps module call state
  rw [hstep] at hsteps
  cases hsteps with
  | @calls _ entry _ _ _ _ _ hsame =>
    have hrun := sameBelow_run module fuel { pc := entry, sp := call.top } between
    exact ⟨rfl, rfl, rfl, rfl, hsame.trans hrun⟩

/-- The caller goes on as it was, with at most one more operand. -/
theorem received {callee caller next : Activation} {hasResult : Bool} {after : ExecState}
    (hreceive : (caller.receive callee hasResult).exec module after = (.ok next, state)) :
    state = after ∧ next.pc = caller.pc ∧ next.sp = caller.sp ∧ next.frame = caller.frame := by
  have hpeeks : Peeks module after (caller.receive callee hasResult) fun next =>
      next.pc = caller.pc ∧ next.sp = caller.sp ∧ next.frame = caller.frame := by
    cases hasResult with
    | true =>
      rw [Activation.receive, map_eq_pure_bind]
      exact (Peeks.slot _).bind fun _ _ => .pure ⟨rfl, rfl, rfl⟩
    | false => exact .pure ⟨rfl, rfl, rfl⟩
  obtain ⟨hrelated, hresult⟩ := hpeeks
  rw [hreceive] at hrelated hresult
  exact ⟨hrelated.symm, hresult next rfl⟩

/-- A call keeps its place on the stack, and the slots below it are as they were. -/
theorem Passes.sameBelow {fuel left : Nat} {first : Activation} {start : ExecState}
    (h : Passes module fuel first start left call state) : call.sp = first.sp ∧ start.SameBelow first.sp state := by
  induction h with
  | start => exact ⟨rfl, .refl _⟩
  | @proceed left call next state state' _ hstep ih =>
    have hsteps := steps module call state
    rw [hstep] at hsteps
    cases hsteps with
    | proceeds _ _ _ _ hsp => exact ⟨hsp.trans ih.1, ih.2⟩
    | opens _ _ _ hsame => exact ⟨ih.1, ih.2.trans (hsame.mono (ih.1 ▸ Nat.le_add_right _ _))⟩
  | @returned left call callee caller next hasResult state between after state' _ hstep hcallee hreceive ih =>
    obtain ⟨-, hsp, -, -, hsame⟩ := entered hstep left
    obtain ⟨rfl, -, hsp', -⟩ := received hreceive
    rw [hcallee] at hsame
    exact ⟨hsp'.trans (hsp.trans ih.1), ih.2.trans (hsame.mono (ih.1 ▸ Nat.le_add_right _ _))⟩

end Run

end Threaded

end WasmEngine
