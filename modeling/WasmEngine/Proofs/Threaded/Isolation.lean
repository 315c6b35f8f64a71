import WasmEngine.Proofs.Threaded.Frames
import WasmEngine.Proofs.Threaded.Simulation

/-!
# Parameters and locals of a call

The code of a function opens a frame once, at its beginning, and no operation of its body leads out of it. So wherever
a call comes by, its parameters and its locals are in its frame (`Threaded.InBody`).
-/

namespace WasmEngine.Threaded

open Exec

/-! ## The code of a function is closed -/

theorem Op.line_inj {op op' : Op} (h : op.line = op'.line) : op = op' := by
  have hcode : op.code = op'.code := Line.op.inj h
  have hsome : some op = some op' := by rw [← ofCode?_code op, hcode, ofCode?_code op']
  exact Option.some.inj hsome

/-- The operations of some lines from `start` on open no frame and end at `high`, and branches lead to lines from `low`
to `high`. -/
def SelfContained (lines : List Line) (start low high : Nat) : Prop :=
  ∀ ⦃index : Nat⦄ ⦃op : Op⦄, lines[index]? = some op.line →
    op ≠ .enter ∧ start + index + op.lines ≤ high ∧
      (op = .branch ∨ op = .branchUnless →
        ∃ target, lines[index + 1]? = some (.imm (.ofNat target)) ∧ low ≤ target ∧ target ≤ high)

namespace SelfContained

variable {lines lines' : List Line} {start low low' high high' : Nat}

theorem nil : SelfContained [] start low high :=
  nofun

/-- Wider bounds do for the same code. -/
theorem mono (h : SelfContained lines start low high) (hlow : low' ≤ low) (hhigh : high ≤ high') :
    SelfContained lines start low' high' := by
  intro index op hop
  obtain ⟨hother, hend, hbranch⟩ := h hop
  refine ⟨hother, Nat.le_trans hend hhigh, fun hop => ?_⟩
  obtain ⟨target, hline, htarget, htarget'⟩ := hbranch hop
  exact ⟨target, hline, Nat.le_trans hlow htarget, Nat.le_trans htarget' hhigh⟩

theorem append {middle : Nat} (hmiddle : start + lines.length = middle) (h : SelfContained lines start low high)
    (h' : SelfContained lines' middle low high) : SelfContained (lines ++ lines') start low high := by
  intro index op hop
  by_cases hlt : index < lines.length
  · rw [List.getElem?_append_left hlt] at hop
    obtain ⟨hother, hend, hbranch⟩ := h hop
    refine ⟨hother, hend, fun hop => ?_⟩
    obtain ⟨target, hline, htarget⟩ := hbranch hop
    have hnext : index + 1 < lines.length := (List.getElem?_eq_some_iff.1 hline).1
    exact ⟨target, (List.getElem?_append_left hnext).trans hline, htarget⟩
  · rw [List.getElem?_append_right (by omega)] at hop
    obtain ⟨hother, hend, hbranch⟩ := h' hop
    refine ⟨hother, by omega, fun hop => ?_⟩
    obtain ⟨target, hline, htarget⟩ := hbranch hop
    rw [show index - lines.length + 1 = index + 1 - lines.length by omega] at hline
    exact ⟨target, (List.getElem?_append_right (by omega)).trans hline, htarget⟩

/-- An operation with its operands. -/
theorem of_op {op : Op} (words : List UInt64) (hother : op ≠ .enter) (hend : start + op.lines ≤ high)
    (hbranch : op = .branch ∨ op = .branchUnless →
      ∃ target, words[0]? = some (.ofNat target) ∧ low ≤ target ∧ target ≤ high) :
    SelfContained (op.line :: words.map .imm) start low high := by
  intro index op' hop
  cases index with
  | zero =>
    cases Op.line_inj (Option.some.inj hop)
    refine ⟨hother, hend, fun hop => ?_⟩
    obtain ⟨target, hword, htarget⟩ := hbranch hop
    refine ⟨target, ?_, htarget⟩
    rw [List.getElem?_cons_succ, List.getElem?_map, hword]
    rfl
  | succ index =>
    rw [List.getElem?_cons_succ, List.getElem?_map] at hop
    obtain ⟨word, -, hline⟩ := Option.map_eq_some_iff.1 hop
    cases hline

end SelfContained

theorem selfContained_instruction (instruction : Instruction) {start low high : Nat}
    (hend : start + instruction.code.length ≤ high) : SelfContained instruction.code start low high := by
  cases instruction with
  | const word => exact .of_op [word] nofun hend (by simp)
  | globalGet index => exact .of_op [index.toUInt64] nofun hend (by simp)
  | localGet index => exact .of_op [index.toUInt64] nofun hend (by simp)
  | arithmetic operation => exact .of_op [] nofun hend (by simp)
  | unreachable => exact .of_op [] nofun hend (by simp)
  | ret => exact .of_op [] nofun hend (by simp)
  | call function => exact .of_op [function.toUInt64] nofun hend (by simp)
  | callIndirect type => exact .of_op [type.toUInt64] nofun hend (by simp)
  | drop => exact .of_op [] nofun hend (by simp)
  | ifThen => exact .nil
  | orElse => exact .nil
  | finish => exact .nil

/-- An operation that branches, with the line that it names. -/
theorem selfContained_branch {op : Op} (hop : op = .branch ∨ op = .branchUnless) {start low high target : Nat}
    (hend : start + 2 ≤ high) (hlow : low ≤ target) (hhigh : target ≤ high) :
    SelfContained [op.line, .imm (.ofNat target)] start low high := by
  refine .of_op [.ofNat target] ?_ ?_ fun _ => ⟨target, rfl, hlow, hhigh⟩
  · rcases hop with rfl | rfl <;> exact nofun
  · rcases hop with rfl | rfl <;> exact hend

/-- The branches of a block stay in the block or lead behind it. -/
theorem selfContained_block (block : Block) (start : Nat) :
    SelfContained (block.code start) start start (start + block.size) := by
  induction block generalizing start with
  | done => exact .nil
  | plain instruction hplain rest ih =>
    rw [Block.code, Block.size]
    exact .append rfl (selfContained_instruction instruction (by omega)) ((ih _).mono (by omega) (by omega))
  | «when» body rest ihbody ih =>
    rw [Block.code, Block.size]
    refine .append rfl (selfContained_branch (.inr rfl) (by omega) (by omega) (by omega)) ?_
    exact .append (congrArg (start + 2 + ·) (body.length_code _)) ((ihbody _).mono (by omega) (by omega))
      ((ih _).mono (by omega) (by omega))
  | cond yes no rest ihyes ihno ih =>
    rw [Block.code, Block.size]
    refine .append rfl (selfContained_branch (.inr rfl) (by omega) (by omega) (by omega)) ?_
    refine .append (congrArg (start + 2 + ·) (yes.length_code _)) ((ihyes _).mono (by omega) (by omega)) ?_
    refine .append rfl (selfContained_branch (.inl rfl) (by omega) (by omega) (by omega)) ?_
    exact .append (congrArg (start + 2 + yes.size + 2 + ·) (no.length_code _)) ((ihno _).mono (by omega) (by omega))
      ((ih _).mono (by omega) (by omega))

/-- An address is in a body of so many lines, or is that of the operation behind it. -/
structure InBody (start : CodeRef) (size : Nat) (address : CodeRef) : Prop where
  page : address.page = start.page
  low : start.line ≤ address.line
  high : address.line ≤ start.line + size

/-- In the body of a function no frame is opened, and only the return behind it leads out. -/
theorem InBody.leads {block : Block} {start address : CodeRef} {code : CodeStore} {op : Op}
    (h : InBody start block.size address) (hholds : code.Holds start (block.code start.line ++ [Op.ret.line]))
    (haddr : code.Addressable) (hop : code.line? address = some op.line) :
    op ≠ .enter ∧ (op ≠ .ret → ∀ next, op.Leads code address next → InBody start block.size next) := by
  obtain ⟨page, line⟩ := address
  obtain ⟨hpage, hlow, hhigh⟩ := h
  dsimp only at hpage hlow hhigh
  subst hpage
  obtain ⟨index, rfl⟩ := Nat.exists_eq_add_of_le hlow
  have hlt : index < (block.code start.line ++ [Op.ret.line]).length := by
    simp only [List.length_append, Block.length_code, List.length_singleton]
    omega
  have hat : (block.code start.line ++ [Op.ret.line])[index]? = some op.line := by
    have hline := hholds.line? (List.getElem?_eq_getElem hlt)
    rw [List.getElem?_eq_getElem hlt]
    exact hline.symm.trans hop
  by_cases hindex : index < block.size
  · rw [List.getElem?_append_left (by rwa [Block.length_code])] at hat
    obtain ⟨hother, hend, hbranch⟩ := selfContained_block block start.line hat
    refine ⟨hother, fun _ next hleads => ?_⟩
    cases hleads with
    | behind => exact ⟨rfl, Nat.le_trans hlow (Nat.le_add_right _ _), hend⟩
    | @branch word hop hword =>
      obtain ⟨target, hline, hlow, hhigh⟩ := hbranch hop
      have hnext : index + 1 < (block.code start.line).length := (List.getElem?_eq_some_iff.1 hline).1
      have hstands := hholds.line? ((List.getElem?_append_left hnext).trans hline)
      -- The number of a line has 32 bits, so the word names the line itself.
      have hword : UInt64.ofNat target = word.toUInt64 := Line.imm.inj (Option.some.inj (hstands.symm.trans hword))
      have hlength := Nat.le_trans hholds.le_length (haddr start.page)
      simp only [List.length_append, Block.length_code, List.length_singleton] at hlength
      have htarget : target = word.toNat := by
        rw [← UInt32.toNat_toUInt64, ← hword, UInt64.toNat_ofNat_of_lt' (by simp only [UInt64.size]; omega)]
      exact ⟨rfl, htarget ▸ hlow, htarget ▸ hhigh⟩
  · have hend : index = block.size := by omega
    rw [hend, ← block.length_code start.line, List.getElem?_concat_length] at hat
    cases Op.line_inj (Option.some.inj hat)
    exact ⟨nofun, fun hret => absurd rfl hret⟩

/-! ## Code that is run stays -/

/-- In a later state the host is the same, and lines of code were added only. -/
structure Later (state state' : ExecState) : Prop where
  host : state'.area.env.host = state.area.env.host
  grows : state.area.code.Grows state'.area.code
  lasts : state'.area.code.Addressable → state.area.code.Extends state'.area.code

theorem Later.refl (state : ExecState) : Later state state :=
  ⟨rfl, .refl _, fun _ => .refl _⟩

theorem Later.trans {state state' state'' : ExecState} (h : Later state state') (h' : Later state' state'') :
    Later state state'' where
  host := h'.host.trans h.host
  grows := h.grows.trans h'.grows
  lasts haddr := (h.lasts (haddr.of_grows h'.grows)).trans (h'.lasts haddr)

section Run

variable {module : Module} {state state' : ExecState} {call : Activation} {start : ExecState}

theorem Later.of_exec {α : Type} (hcompiler : state.area.env.host.compiler.Standard) {program : Exec α}
    {result : Except Error α} (hexec : program.exec module state = (result, state')) : Later state state' := by
  obtain ⟨hhost, hsteps⟩ := exec_steps hcompiler hexec
  exact ⟨hhost, Placement.Steps.grows hsteps, Placement.Steps.extends hsteps⟩

theorem Passes.later {fuel left : Nat} {first : Activation}
    (hcompiler : start.area.env.host.compiler.Standard) (h : Passes module fuel first start left call state) :
    Later start state := by
  induction h with
  | start => exact .refl _
  | proceed _ hstep ih => exact ih.trans (.of_exec (ih.host ▸ hcompiler) hstep)
  | returned _ hstep hcallee hreceive ih =>
    have hbetween := ih.trans (.of_exec (ih.host ▸ hcompiler) hstep)
    have hafter := hbetween.trans (.of_exec (hbetween.host ▸ hcompiler) hcallee)
    exact hafter.trans (.of_exec (hafter.host ▸ hcompiler) hreceive)

/-! ## The frame of a call -/

/-- The number of parameters that the code of a function has, which is a word of 64 bits. -/
def frameParams (func : Func) : Nat :=
  (UInt64.ofNat func.type.type.params.length).toNat

/-- The number of locals that the code of a function has. -/
def frameLocals (func : Func) : Nat :=
  (UInt64.ofNat func.numLocals).toNat

/-- The frame of a call from a slot on is open: the parameters and the slots below are what they were in a state before,
and the locals are zero. -/
structure Opened (func : Func) (sp : Nat) (start : ExecState) (call : Activation) (state : ExecState) : Prop where
  place : call.sp = sp
  frame : call.frame = frameParams func + frameLocals func
  params : start.SameBelow (sp + frameParams func) state
  locals : ∀ index < frameLocals func, state.stack[sp + frameParams func + index]? = some 0

theorem Opened.of_sameBelow {func : Func} {sp : Nat} {next : Activation}
    (h : Opened func sp start call state) (hsp : next.sp = call.sp) (hframe : next.frame = call.frame)
    (hsame : state.SameBelow call.top state') : Opened func sp start next state' := by
  have htop : call.top = sp + (frameParams func + frameLocals func) := by
    rw [Activation.top, h.place, h.frame]
  rw [htop] at hsame
  refine ⟨hsp.trans h.place, hframe.trans h.frame, h.params.trans (hsame.mono (by omega)), fun index hlt => ?_⟩
  rw [hsame _ (by omega)]
  exact h.locals index hlt

/-- After its first operation, a call is in the body of its function and has its frame open. -/
theorem Passes.inBody {func : Func} {entry : CodeRef} {block : Block} {sp fuel left : Nat}
    (hholds : start.area.code.Holds entry
      ([Op.enter.line, .imm (.ofNat func.type.type.params.length), .imm (.ofNat func.numLocals)] ++
        (block.code (entry.line + 3) ++ [Op.ret.line]))) (hcompiler : start.area.env.host.compiler.Standard)
    (h : Passes module fuel { pc := entry, sp } start left call state) (haddr : state.area.code.Addressable) :
    (call = { pc := entry, sp } ∧ state = start) ∨
      (InBody (entry.offset 3) block.size call.pc ∧ Opened func sp start call state) := by
  induction h with
  | start => exact .inl ⟨rfl, rfl⟩
  | @proceed left call next state state' hpasses hstep ih =>
    have hlater := hpasses.later hcompiler
    have haddr' := haddr.of_grows (Later.of_exec (hlater.host ▸ hcompiler) hstep).grows
    have hcode := hholds.extends (hlater.lasts haddr')
    have hsteps := steps module call state
    rw [hstep] at hsteps
    refine .inr ?_
    rcases ih haddr' with ⟨rfl, rfl⟩ | ⟨hbody, hopen⟩
    · -- The first operation is the one that opens the frame.
      cases hsteps with
      | proceeds hop henter => exact absurd (Op.line_inj (Option.some.inj (hop.symm.trans hcode.head))) henter
      | opens _ hparams hlocals hsame hzero =>
        cases hparams.symm.trans (hcode.line? rfl)
        cases hlocals.symm.trans (hcode.line? rfl)
        exact ⟨⟨rfl, Nat.le_refl _, Nat.le_add_right _ _⟩, ⟨rfl, rfl, hsame, hzero⟩⟩
    · cases hsteps with
      | proceeds hop _ hret hleads hsp hframe =>
        exact ⟨(hbody.leads hcode.append_right haddr' hop).2 hret _ hleads, hopen.of_sameBelow hsp hframe (.refl _)⟩
      | opens hop => exact absurd rfl (hbody.leads hcode.append_right haddr' hop).1
  | @returned left call callee caller next hasResult state between after state' hpasses hstep hcallee hreceive ih =>
    have hlater := hpasses.later hcompiler
    have hbetween := hlater.trans (.of_exec (hlater.host ▸ hcompiler) hstep)
    have hafter := Later.of_exec (hbetween.host ▸ hcompiler) hcallee
    obtain ⟨rfl, hpc', hsp', hframe'⟩ := received hreceive
    have haddr' := haddr.of_grows ((Later.of_exec (hlater.host ▸ hcompiler) hstep).trans hafter).grows
    have hcode := hholds.extends (hlater.lasts haddr')
    obtain ⟨-, hsp, hframe, hpc, hsame⟩ := entered hstep left
    rw [hcallee] at hsame
    have hsteps := steps module call state
    rw [hstep] at hsteps
    cases hsteps with
    | @calls op _ _ _ _ hop hcall _ =>
      refine .inr ?_
      rcases ih haddr' with ⟨rfl, rfl⟩ | ⟨hbody, hopen⟩
      · have henter := Op.line_inj (Option.some.inj (hop.symm.trans hcode.head))
        subst henter
        exact absurd hcall (by decide)
      · have hleads : op.Leads state.area.code call.pc (call.pc.offset 2) := by
          rcases hcall with rfl | rfl <;> exact .behind nofun
        have hret : op ≠ .ret := by rcases hcall with rfl | rfl <;> exact nofun
        rw [hpc']
        exact ⟨(hbody.leads hcode.append_right haddr' hop).2 hret _ hleads,
          hopen.of_sameBelow (hsp'.trans hsp) (hframe'.trans hframe) hsame⟩

end Run

/-- The frame of a call is its own. Whatever code runs from an entry with its frame from a slot on, and whatever it
calls, the slots below the frame are untouched when it returns or fails. So when a callee returns or fails, the frame
of its caller is as it was. In a call of a compiled function, at each point that the call comes by, the parameters are
what was passed, and the locals are zero. -/
theorem frames_isolated (module : Module) (fuel : Nat) (entry : CodeRef) (sp : Nat) (state : ExecState) :
    state.SameBelow sp ((run module fuel { pc := entry, sp } (pure ())).exec module state).2 ∧
    (∀ left call between, Passes module fuel { pc := entry, sp } state left call between →
      (run module fuel { pc := entry, sp } (pure ())).exec module state =
        (run module left call (pure ())).exec module between ∧
      ∀ callee caller hasResult before,
        (step module call).exec module between = (.ok (.enter callee caller hasResult), before) →
        callee.sp = sp + call.frame ∧ caller.sp = sp ∧ caller.frame = call.frame ∧
          ∀ fuel, between.SameBelow (sp + call.frame) ((run module fuel callee (pure ())).exec module before).2) ∧
    ∀ func lines, functionCode func entry.line = some lines → state.area.code.Holds entry lines →
      state.area.env.host.compiler.Standard →
      ∀ left call between, Passes module fuel { pc := entry, sp } state left call between →
        between.area.code.Addressable →
        call = { pc := entry, sp } ∧ between = state ∨ Opened func sp state call between := by
  have hbelow := sameBelow_run module fuel { pc := entry, sp } state
  refine ⟨hbelow, fun left call between hpasses => ⟨hpasses.exec_eq _, ?_⟩, ?_⟩
  · intro callee caller hasResult before hstep
    have hsp : call.sp = sp := hpasses.sameBelow.1
    subst hsp
    obtain ⟨hcallee, hcaller, hframe, -⟩ := entered hstep 0
    exact ⟨hcallee, hcaller, hframe, fun fuel => (entered hstep fuel).2.2.2.2⟩
  · intro func lines hlines hholds hcompiler left call between hpasses haddr
    obtain ⟨body, block, -, -, rfl⟩ := functionCode_eq_some.1 hlines
    exact (hpasses.inBody hholds hcompiler haddr).imp_right And.right

/-- A function with a parameter and a local calls a host function that overwrites its own parameter. -/
theorem frames_isolated_host :
    let type : TypeHandle := ⟨0, ⟨some .i32, [.i32]⟩⟩
    let func : Func := { Func.declared type with numLocals := 1, body := some [0x20, 0x00, 0x10, 0x01, 0x0B] }
    let code : List Line :=
      [Op.enter.line, .imm 1, .imm 1, Op.localGet.line, .imm 0, Op.call.line, .imm 1, Op.ret.line]
    let link : HostLink := { function := ⟨fun _ => Native.setSlot 0 5⟩ }
    let module : Module :=
      { functions := #[func, { Func.ofImport type ⟨"m", "f"⟩ with code := some ⟨0, 8⟩ }] }
    let page : CodePage := { lines := (code ++ link.lines).toArray, capacity := 16, sequence := 0, grant := ⟨0, 0⟩ }
    let state : ExecState :=
      ⟨⟨{ host := { compiler := compiler } }, { pages := #[page] }⟩, #[9, 3, 4, 6], .create {} ⟨0⟩ 4, []⟩
    functionCode func 0 = some code ∧ state.area.code.Holds ⟨0, 0⟩ code ∧
      ((run module 9 { pc := ⟨0, 0⟩, sp := 1 } (pure ())).exec module state).1 = .ok () ∧
      ((run module 9 { pc := ⟨0, 0⟩, sp := 1 } (pure ())).exec module state).2.stack[0]? = some 9 ∧
      ∃ left call between, Passes module 9 { pc := ⟨0, 0⟩, sp := 1 } state left call between ∧
        call.operands = [5] ∧ call.frame = 2 ∧ between.stack[1]? = some 3 ∧ between.stack[2]? = some 0 ∧
        between.stack[3]? = some 5 := by
  intro type func code link module page state
  have hread : (Instruction.ofBody [0x20, 0x00, 0x10, 0x01, 0x0B]).1 =
      Block.flatten (.plain (.localGet 0) rfl (.plain (.call 1) rfl .done)) ++ [.finish] := by decide +kernel
  have hcode : functionCode func 0 = some code :=
    functionCode_eq_some.2 ⟨_, _, rfl, Block.parse_eq_some.2 ⟨[], hread⟩, rfl⟩
  have hholds : state.area.code.Holds ⟨0, 0⟩ code := ⟨[], link.lines, rfl, rfl⟩
  have hentered : Passes module 9 { pc := ⟨0, 0⟩, sp := 1 } state _ _ _ := .proceed .start rfl
  have hpushed := hentered.proceed rfl
  have hreturned := hpushed.returned rfl rfl rfl
  obtain ⟨hbelow, -, hopened⟩ := frames_isolated module 9 ⟨0, 0⟩ 1 state
  have haddr : state.area.code.Addressable := CodeStore.addressable_of_all (by decide +kernel)
  obtain ⟨hcall, -⟩ | hopen := hopened func code hcode hholds (.inl rfl) _ _ _ hreturned haddr
  · cases hcall
  · exact ⟨hcode, hholds, rfl, hbelow 0 (by decide), _, _, _, hreturned, rfl, hopen.frame, hopen.params 1 (by decide),
      hopen.locals 0 (by decide), rfl⟩

end WasmEngine.Threaded
