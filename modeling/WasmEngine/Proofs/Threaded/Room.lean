import WasmEngine.Proofs.Placement.Machines

/-!
# Where there is room, functions compile

A function that has code is compiled wherever its code fits: a page with as many free lines as the code has is enough.
-/

namespace WasmEngine

namespace Threaded

open Compile

section Room

variable {state : CompileState} {page : CodePage} (hlt : state.page < state.area.code.pages.size) {lines : List Line}

include hlt

theorem exec_emit_of_lt (hroom : lines.length < page.capacity) (line : Line) :
    (Compile.emit line).exec (state.withLines page lines) =
      (.ok ⟨state.page, min lines.length 0xFFFFFFFF⟩, state.withLines page (lines ++ [line])) := by
  rw [CompileState.exec_emit page hlt, if_neg (Nat.not_le.2 hroom)]

theorem exec_emitOp (hroom : lines.length < page.capacity) (op : Op) :
    (emitOp op).exec (state.withLines page lines) = (.ok (), state.withLines page (lines ++ [op.line])) := by
  unfold emitOp
  rw [exec_bind, exec_emit_of_lt hlt hroom]
  rfl

theorem exec_emitWith (hroom : lines.length + 2 ≤ page.capacity) (op : Op) (operand : UInt64) :
    (emitWith op operand).exec (state.withLines page lines) =
      (.ok ⟨state.page, min (lines.length + 1) 0xFFFFFFFF⟩,
        state.withLines page (lines ++ [op.line, .imm operand])) := by
  have hsecond : (lines ++ [op.line]).length < page.capacity := by
    simp only [List.length_append, List.length_singleton]
    omega
  unfold emitWith
  rw [exec_bind, exec_emit_of_lt hlt (by omega)]
  dsimp only
  rw [exec_emit_of_lt hlt hsecond]
  simp

theorem exec_emitPlain {instruction : Instruction} (hroom : lines.length + instruction.code.length ≤ page.capacity) :
    (emitPlain instruction).exec (state.withLines page lines) =
      (.ok (), state.withLines page (lines ++ instruction.code)) := by
  have hwith (op : Op) (operand : UInt64) (hroom : lines.length + 2 ≤ page.capacity) :
      (do let _ ← emitWith op operand : Compile Unit).exec (state.withLines page lines) =
        (.ok (), state.withLines page (lines ++ [op.line, .imm operand])) := by
    rw [exec_bind, exec_emitWith hlt hroom]
    rfl
  cases instruction with
  | const word => exact hwith _ _ hroom
  | globalGet index => exact hwith _ _ hroom
  | localGet index => exact hwith _ _ hroom
  | call function => exact hwith _ _ hroom
  | callIndirect type => exact hwith _ _ hroom
  | arithmetic arithmetic => exact exec_emitOp hlt hroom _
  | unreachable => exact exec_emitOp hlt hroom _
  | ret => exact exec_emitOp hlt hroom _
  | drop => exact exec_emitOp hlt hroom _
  | ifThen => simp [emitPlain, Instruction.code]; rfl
  | orElse => simp [emitPlain, Instruction.code]; rfl
  | finish => simp [emitPlain, Instruction.code]; rfl

theorem exec_fillHole {index : Nat} (hindex : index < lines.length) :
    (fillHole ⟨state.page, index⟩).exec (state.withLines page lines) =
      (.ok (), state.withLines page (lines.set index (.imm (.ofNat (min lines.length 0xFFFFFFFF))))) := by
  unfold fillHole
  rw [exec_bind, CompileState.exec_look page hlt]
  dsimp only
  rw [CompileState.exec_patch page hlt, if_pos hindex]

section Body

variable (ending : Except Error Reader) (holes : List Hole) (rest : List Instruction)

/-- An `if` leaves a hole for the line that it goes to. -/
theorem exec_emitBody_ifThen (hroom : lines.length + 2 ≤ page.capacity) (haddr : lines.length + 1 ≤ 0xFFFFFFFF) :
    (emitBody ending holes (.ifThen :: rest)).exec (state.withLines page lines) =
      (emitBody ending (.ifThen ⟨state.page, lines.length + 1⟩ :: holes) rest).exec
        (state.withLines page (lines ++ [Op.branchUnless.line, .imm 0])) := by
  rw [emitBody, exec_bind, exec_emitWith hlt hroom]
  dsimp only
  rw [Nat.min_eq_left haddr]

/-- An `else` leaves a hole too, and fills the one that the `if` left. -/
theorem exec_emitBody_orElse {index : Nat} (hindex : index < lines.length)
    (hroom : lines.length + 2 ≤ page.capacity) (haddr : lines.length + 2 ≤ 0xFFFFFFFF) :
    (emitBody ending (.ifThen ⟨state.page, index⟩ :: holes) (.orElse :: rest)).exec (state.withLines page lines) =
      (emitBody ending (.orElse ⟨state.page, lines.length + 1⟩ :: holes) rest).exec
        (state.withLines page (lines.set index (.imm (.ofNat (lines.length + 2))) ++ [Op.branch.line, .imm 0])) := by
  have hlength : (lines ++ [Op.branch.line, .imm 0]).length = lines.length + 2 := by simp
  rw [emitBody, exec_bind, exec_emitWith hlt hroom]
  dsimp only
  rw [exec_bind, exec_fillHole hlt (by omega)]
  dsimp only
  rw [hlength, Nat.min_eq_left haddr, Nat.min_eq_left (by omega), List.set_append_left _ _ hindex]

/-- The `end` of a branch fills the hole that is left. -/
theorem exec_emitBody_finish {hole : Hole} {index : Nat} (hhole : hole.address = ⟨state.page, index⟩)
    (hindex : index < lines.length) (haddr : lines.length ≤ 0xFFFFFFFF) :
    (emitBody ending (hole :: holes) (.finish :: rest)).exec (state.withLines page lines) =
      (emitBody ending holes rest).exec (state.withLines page (lines.set index (.imm (.ofNat lines.length)))) := by
  rw [emitBody, exec_bind, hhole, exec_fillHole hlt hindex]
  dsimp only
  rw [Nat.min_eq_left haddr]

/-- Emitting the instructions of a block appends its code. -/
theorem exec_emitBody_flatten (block : Block) (hroom : lines.length + block.size ≤ page.capacity)
    (haddr : lines.length + block.size ≤ 0xFFFFFFFF) :
    (emitBody ending holes (block.flatten ++ rest)).exec (state.withLines page lines) =
      (emitBody ending holes rest).exec (state.withLines page (lines ++ block.code lines.length)) := by
  induction block generalizing lines holes rest with
  | done => simp [Block.code, Block.flatten]
  | plain instruction hplain block ih =>
    rw [Block.size] at hroom haddr
    have hlength : (lines ++ instruction.code).length = lines.length + instruction.code.length := List.length_append
    rw [Block.flatten, List.cons_append, emitBody_plain ending holes hplain, exec_bind,
      exec_emitPlain hlt (by omega)]
    dsimp only
    rw [ih holes rest (by omega) (by omega), hlength, Block.code, List.append_assoc]
  | when body block ihbody ih =>
    rw [Block.size] at hroom haddr
    have hopened (operand : Line) : (lines ++ [Op.branchUnless.line, operand]).length = lines.length + 2 := by simp
    have hclosed (operand : Line) : (lines ++ [Op.branchUnless.line, operand] ++ body.code (lines.length + 2)).length =
        lines.length + 2 + body.size := by
      rw [List.length_append, hopened, Block.length_code]
    rw [Block.flatten, List.cons_append, List.append_assoc, List.cons_append,
      exec_emitBody_ifThen hlt _ _ _ (by omega) (by omega),
      ihbody _ _ (by rw [hopened]; omega) (by rw [hopened]; omega), hopened,
      exec_emitBody_finish hlt _ _ _ rfl (by rw [hclosed]; omega) (by rw [hclosed]; omega), set_operand rfl,
      hclosed, ih _ _ (by rw [hclosed]; omega) (by rw [hclosed]; omega), hclosed]
    simp only [Block.code, List.append_assoc, List.cons_append, List.nil_append]
  | cond yes no block ihyes ihno ih =>
    rw [Block.size] at hroom haddr
    have hopened (operand : Line) : (lines ++ [Op.branchUnless.line, operand]).length = lines.length + 2 := by simp
    have hturned (operand : Line) : (lines ++ [Op.branchUnless.line, operand] ++ yes.code (lines.length + 2)).length =
        lines.length + 2 + yes.size := by
      rw [List.length_append, hopened, Block.length_code]
    have helse (operand skip : Line) : (lines ++ [Op.branchUnless.line, operand] ++ yes.code (lines.length + 2) ++
        [Op.branch.line, skip]).length = lines.length + 2 + yes.size + 2 := by
      rw [List.length_append, hturned]
      rfl
    have hclosed (operand skip : Line) : (lines ++ [Op.branchUnless.line, operand] ++ yes.code (lines.length + 2) ++
        [Op.branch.line, skip] ++ no.code (lines.length + 2 + yes.size + 2)).length =
        lines.length + 2 + yes.size + 2 + no.size := by
      rw [List.length_append, helse, Block.length_code]
    rw [Block.flatten, List.cons_append, List.append_assoc, List.cons_append, List.append_assoc, List.cons_append,
      exec_emitBody_ifThen hlt _ _ _ (by omega) (by omega),
      ihyes _ _ (by rw [hopened]; omega) (by rw [hopened]; omega), hopened,
      exec_emitBody_orElse hlt _ _ _ (by rw [hturned]; omega) (by rw [hturned]; omega) (by rw [hturned]; omega),
      set_operand rfl, hturned,
      ihno _ _ (by rw [helse]; omega) (by rw [helse]; omega), helse,
      exec_emitBody_finish hlt _ _ _ rfl (by rw [hclosed]; omega) (by rw [hclosed]; omega),
      set_operand (by rw [hturned]), hclosed, ih _ _ (by rw [hclosed]; omega) (by rw [hclosed]; omega), hclosed]
    simp only [Block.code, List.append_assoc, List.cons_append, List.nil_append]

end Body

omit hlt in
theorem length_pos_of_functionCode {func : Func} {start : Nat} {code : List Line}
    (h : functionCode func start = some code) : 0 < code.length := by
  obtain ⟨body, block, -, -, rfl⟩ := functionCode_eq_some.1 h
  exact Nat.succ_pos _

/-- A function that has code is compiled where its code fits. -/
theorem exec_compileFunction {module : Module} {function : Nat} {func : Func} {code : List Line}
    (hfunc : module.functions[function]? = some func) (hcode : functionCode func lines.length = some code)
    (hroom : lines.length + code.length ≤ page.capacity) (haddr : lines.length + code.length ≤ 0xFFFFFFFF) :
    (compileFunction module function).exec (state.withLines page lines) =
      (.ok (), state.withLines page (lines ++ code)) := by
  obtain ⟨body, block, hbody, hblock, rfl⟩ := functionCode_eq_some.1 hcode
  obtain ⟨rest, hrest⟩ := Block.parse_eq_some.1 hblock
  simp only [List.length_cons, List.length_append, Block.length_code, List.length_nil] at hroom haddr
  have hentered (params locals : Line) : (lines ++ [Op.enter.line, params] ++ [locals]).length = lines.length + 3 := by
    simp
  have hemitted (params locals : Line) :
      (lines ++ [Op.enter.line, params] ++ [locals] ++ block.code (lines.length + 3)).length =
        lines.length + 3 + block.size := by
    rw [List.length_append, hentered, Block.length_code]
  unfold compileFunction
  simp only [hfunc, hbody]
  rw [exec_bind, exec_emitWith hlt (by omega)]
  dsimp only
  rw [exec_bind, exec_emit_of_lt hlt (by rw [List.length_append]; simp only [List.length_cons, List.length_nil]; omega)]
  dsimp only
  rw [hrest, exec_emitBody_flatten hlt _ _ _ _ (by rw [hentered]; omega) (by rw [hentered]; omega), hentered, emitBody,
    exec_emitOp hlt (by rw [hemitted]; omega)]
  simp

omit hlt in
/-- The body of a function that returns at once. -/
theorem Instruction.ofBody_end : (Instruction.ofBody [0x0B]).1 = [.finish] := by
  decide +kernel

/-- A function that returns at once is compiled wherever there is room, also where lines have no numbers. -/
theorem exec_compileFunction_return {module : Module} {function : Nat} {func : Func}
    (hfunc : module.functions[function]? = some func) (hbody : func.body = some [0x0B])
    (hroom : lines.length + 4 ≤ page.capacity) :
    ∃ code, (compileFunction module function).exec (state.withLines page lines) =
      (.ok (), state.withLines page (lines ++ code)) := by
  have hlength (params : Line) : (lines ++ [Op.enter.line, params]).length = lines.length + 2 := by simp
  unfold compileFunction
  simp only [hfunc, hbody, Instruction.ofBody_end]
  rw [exec_bind, exec_emitWith hlt (by omega)]
  dsimp only
  rw [exec_bind, exec_emit_of_lt hlt (by rw [hlength]; omega)]
  dsimp only
  rw [emitBody, exec_emitOp hlt (by rw [List.length_append, hlength, List.length_singleton]; omega), List.append_assoc,
    List.append_assoc]
  exact ⟨_, rfl⟩

end Room

end Threaded

namespace CodeArea

variable {area area' : CodeArea} {module : Module} {function id : Nat} {func : Func} {code : List Line}

/-- What a compiler appends to the page that is acquired for a function is the code of the function. -/
theorem compileFunction_of_exec (hcompiler : area.env.host.compiler = Threaded.compiler)
    (hfunc : module.functions[function]? = some func) (hnone : func.code = none) (himport : func.isImport = false)
    (hacquire : acquire area.env.config.freeLineThreshold area = .ok id area') {page : CodePage}
    (hexec : (Threaded.compileFunction module function).exec (.start area' id) =
      (.ok (), (CompileState.start area' id).withLines page (area'.code.text id ++ code))) :
    ∃ final, compileFunction module function area = .ok (area'.code.pc id) final ∧
      area'.code.Appends final.code id code ∧ final.env = area'.env := by
  have hlt := (extends_of_acquire hacquire).2
  have hhost : area'.env.host = area.env.host := (Engine.Step.acquire [] 0 hacquire).fixed.2
  have hcompile : area'.compile id (area'.env.host.compiler.function module function) =
      (.ok (), (CompileState.start area' id).withLines page (area'.code.text id ++ code)) := by
    rw [hhost, hcompiler]
    exact hexec
  refine ⟨release ((CompileState.start area' id).withLines page (area'.code.text id ++ code)).area id, ?_, ?_, rfl⟩
  · unfold compileFunction
    simp only [hfunc, hnone, himport, Bool.false_eq_true, if_false, run_get_bind]
    change EStateM.bind (acquire area.env.config.freeLineThreshold) _ area = _
    unfold EStateM.bind
    rw [hacquire]
    simp only [run_get_bind, run_set_bind, hcompile]
    rfl
  · refine appends_release (fun other => ?_) id
    exact @CompileState.text_withLines (.start area' id) page hlt (area'.code.text id ++ code) other

/-- A function that has code gets it on the page that is acquired for it, if there is room. -/
theorem compileFunction_of_room (hcompiler : area.env.host.compiler = Threaded.compiler)
    (hfunc : module.functions[function]? = some func) (hnone : func.code = none) (himport : func.isImport = false)
    (hacquire : acquire area.env.config.freeLineThreshold area = .ok id area')
    (hcode : Threaded.functionCode func (area'.code.text id).length = some code)
    (hroom : code.length ≤ area'.code.freeLines id)
    (haddr : (area'.code.text id).length + code.length ≤ 0xFFFFFFFF) :
    ∃ final, compileFunction module function area = .ok ⟨id, (area'.code.text id).length⟩ final ∧
      area'.code.Appends final.code id code ∧ final.env = area'.env := by
  have hlt := (extends_of_acquire hacquire).2
  obtain ⟨page, hpage⟩ : ∃ page, area'.code.pages[id]? = some page := ⟨_, Array.getElem?_eq_getElem hlt⟩
  have htext := CodeStore.text_of_getElem? hpage
  have hstart : CompileState.start area' id = (CompileState.start area' id).withLines page (area'.code.text id) := by
    rw [htext]
    exact (CompileState.withLines_self hpage).symm
  have hfits : (area'.code.text id).length + code.length ≤ page.capacity := by
    simp only [CodeStore.freeLines, hpage, CodePage.freeLines] at hroom
    have hpositive : 0 < code.length := Threaded.length_pos_of_functionCode hcode
    rw [htext, Array.length_toList]
    omega
  have hexec := @Threaded.exec_compileFunction (.start area' id) page hlt _ _ _ _ _ hfunc hcode hfits haddr
  rw [← hstart] at hexec
  have hcompiled := compileFunction_of_exec hcompiler hfunc hnone himport hacquire hexec
  rwa [CodeStore.pc_eq, Nat.min_eq_left (Nat.le_trans (Nat.le_add_right _ _) haddr)] at hcompiled

end CodeArea

end WasmEngine
