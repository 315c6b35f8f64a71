import WasmEngine.Machine.Compile
import WasmEngine.Proofs.Dialogues
import WasmEngine.Proofs.Threaded.Tree
import WasmEngine.Threaded.Compiler

/-!
# The code of a body

`Block.code` is the code of a structured body that starts at a line of a page, with its branches to lines of the page.
The threaded compiler emits the same lines in one pass with holes that it fills later.
-/

namespace WasmEngine

/-! ## Compiling programs on one page -/

namespace Compile

variable {α β : Type}

/-- Runs a compiling program from a state. -/
def exec (program : Compile α) (state : CompileState) : Except Error α × CompileState :=
  Dialogue.exec CompileState.answer program state

theorem exec_bind (first : Compile α) (second : α → Compile β) (state : CompileState) :
    (first >>= second).exec state =
      match first.exec state with
      | (.ok value, state) => (second value).exec state
      | (.error error, state) => (.error error, state) := by
  cases hfirst : first.exec state with
  | mk result between =>
    cases result with
    | ok value => exact Dialogue.exec_bind_ok hfirst second
    | error error => exact Dialogue.exec_bind_error hfirst second

/-- A program that succeeds succeeds in both its parts. -/
theorem exec_bind_eq_ok {first : Compile α} {second : α → Compile β} {state state' : CompileState} {result : β}
    (h : (first >>= second).exec state = (.ok result, state')) :
    ∃ value between, first.exec state = (.ok value, between) ∧ (second value).exec between = (.ok result, state') := by
  rw [exec_bind] at h
  split at h
  · rename_i value between hfirst
    exact ⟨value, between, hfirst, h⟩
  · cases h

end Compile

namespace CompileState

/-- The state with some lines on the current page. -/
def withLines (state : CompileState) (page : CodePage) (lines : List Line) : CompileState :=
  { state with
    area := { state.area with
      code := { state.area.code with
        pages := state.area.code.pages.setIfInBounds state.page { page with lines := lines.toArray } } } }

variable {state : CompileState} (page : CodePage) (hlt : state.page < state.area.code.pages.size) (lines : List Line)

include hlt

theorem getElem?_withLines :
    (state.withLines page lines).area.code.pages[state.page]? = some { page with lines := lines.toArray } := by
  simp [withLines, hlt]

theorem exec_emit (line : Line) :
    (Compile.emit line).exec (state.withLines page lines) =
      if page.capacity ≤ lines.length then (.error .codePageFull, state.withLines page lines)
      else (.ok ⟨state.page, min lines.length 0xFFFFFFFF⟩, state.withLines page (lines ++ [line])) := by
  change answer (.emit line) (state.withLines page lines) = _
  have hpage := getElem?_withLines page hlt lines
  simp only [answer, CodeStore.emit]
  rw [show (state.withLines page lines).page = state.page from rfl, hpage]
  simp only [CodePage.emit, CodePage.freeLines, CodePage.pc]
  by_cases hfull : page.capacity ≤ lines.length
  · have hzero : page.capacity - lines.length = 0 := by omega
    simp [hzero, hfull]
  · have hroom : page.capacity - lines.length ≠ 0 := by omega
    simp [hroom, hfull, withLines]

theorem exec_patch (index : Nat) (line : Line) :
    (Compile.patch ⟨state.page, index⟩ line).exec (state.withLines page lines) =
      if index < lines.length then (.ok (), state.withLines page (lines.set index line))
      else (.error .invalidCodeRef, state.withLines page lines) := by
  change answer (.patch ⟨state.page, index⟩ line) (state.withLines page lines) = _
  have hpage := getElem?_withLines page hlt lines
  simp only [answer, CodeStore.patch]
  rw [hpage]
  by_cases hindex : index < lines.length
  · simp [CodePage.patch, hindex, withLines]
  · simp [CodePage.patch, hindex]

theorem exec_look :
    Compile.look.exec (state.withLines page lines) =
      (.ok ⟨state.entry, ⟨state.page, min lines.length 0xFFFFFFFF⟩, page.capacity - lines.length⟩,
        state.withLines page lines) := by
  have hpage := getElem?_withLines page hlt lines
  change (Except.ok (answer .look (state.withLines page lines)).1, (answer .look (state.withLines page lines)).2) = _
  simp only [answer, CodeStore.pc, CodeStore.freeLines]
  rw [show (state.withLines page lines).page = state.page from rfl, hpage]
  simp [CodePage.pc, CodePage.freeLines, withLines]

end CompileState

namespace Compile

variable {α β : Type}

/-- A program works behind the first `base` lines of the current page; if it succeeds, its result is as expected. -/
def Writes (state : CompileState) (page : CodePage) (base : Nat) (program : Compile α) (expected : α → Prop) : Prop :=
  ∀ lines, base ≤ lines.length →
    ∃ result lines', program.exec (state.withLines page lines) = (result, state.withLines page lines') ∧
      lines.length ≤ lines'.length ∧ lines'.take base = lines.take base ∧
      ∀ value, result = .ok value → expected value

namespace Writes

variable {state : CompileState} {page : CodePage} {base : Nat} {expected : α → Prop} {wanted : β → Prop}

theorem pure {value : α} (h : expected value) : Writes state page base (pure value) expected :=
  fun lines _ => ⟨_, lines, rfl, Nat.le_refl _, rfl, fun _ heq => by cases heq; exact h⟩

theorem throw (error : Error) : Writes state page base (throw error) expected :=
  fun lines _ => ⟨_, lines, rfl, Nat.le_refl _, rfl, fun _ heq => by cases heq⟩

theorem bind {first : Compile α} {second : α → Compile β} (hfirst : Writes state page base first expected)
    (hsecond : ∀ value, expected value → Writes state page base (second value) wanted) :
    Writes state page base (first >>= second) wanted := by
  intro lines hbase
  obtain ⟨result, lines', hexec, hlength, htake, hresult⟩ := hfirst lines hbase
  rw [exec_bind, hexec]
  cases result with
  | error error => exact ⟨_, lines', rfl, hlength, htake, fun _ heq => by cases heq⟩
  | ok value =>
    obtain ⟨result, lines'', hexec', hlength', htake', hresult'⟩ :=
      hsecond value (hresult value rfl) lines' (Nat.le_trans hbase hlength)
    exact ⟨result, lines'', hexec', Nat.le_trans hlength hlength', htake'.trans htake, hresult'⟩

variable (hlt : state.page < state.area.code.pages.size) (haddr : base ≤ 0xFFFFFFFF)

include hlt haddr in
/-- A line goes behind the others, on the current page. -/
theorem emit (line : Line) :
    Writes state page base (Compile.emit line) fun address => address.page = state.page ∧ base ≤ address.line := by
  intro lines hbase
  rw [CompileState.exec_emit page hlt]
  split
  · exact ⟨_, lines, rfl, Nat.le_refl _, rfl, fun _ heq => by cases heq⟩
  · refine ⟨_, lines ++ [line], rfl, by simp, List.take_append_of_le_length hbase, ?_⟩
    intro address heq
    cases heq
    exact ⟨rfl, Nat.le_min.2 ⟨hbase, haddr⟩⟩

include hlt in
theorem patch {address : CodeRef} (hpage : address.page = state.page) (hline : base ≤ address.line) (line : Line) :
    Writes state page base (Compile.patch address line) fun _ => True := by
  intro lines hbase
  obtain ⟨id, index⟩ := address
  cases hpage
  rw [CompileState.exec_patch page hlt]
  split
  · exact ⟨_, _, rfl, by simp, List.take_set_of_le hline, fun _ _ => trivial⟩
  · exact ⟨_, lines, rfl, Nat.le_refl _, rfl, fun _ _ => trivial⟩

include hlt in
theorem look : Writes state page base Compile.look fun _ => True := by
  intro lines hbase
  rw [CompileState.exec_look page hlt]
  exact ⟨_, lines, rfl, Nat.le_refl _, rfl, fun _ _ => trivial⟩

end Writes

end Compile

namespace Threaded

open Compile

variable {levels : List (Block × Closer)} {holes : List Hole}

/-! ## Compiling touches nothing else -/

section Writes

variable {state : CompileState} {page : CodePage} {base : Nat} (hlt : state.page < state.area.code.pages.size)
  (haddr : base ≤ 0xFFFFFFFF)

include hlt haddr

theorem writes_emitOp (op : Op) : Writes state page base (emitOp op) fun _ => True :=
  .bind (.emit hlt haddr _) fun _ _ => .pure trivial

theorem writes_emitWith (op : Op) (operand : UInt64) :
    Writes state page base (emitWith op operand) fun address => address.page = state.page ∧ base ≤ address.line :=
  .bind (.emit hlt haddr _) fun _ _ => .emit hlt haddr _

theorem writes_emitPlain (instruction : Instruction) :
    Writes state page base (emitPlain instruction) fun _ => True := by
  cases instruction with
  | const word => exact .bind (writes_emitWith hlt haddr _ _) fun _ _ => .pure trivial
  | globalGet index => exact .bind (writes_emitWith hlt haddr _ _) fun _ _ => .pure trivial
  | localGet index => exact .bind (writes_emitWith hlt haddr _ _) fun _ _ => .pure trivial
  | call function => exact .bind (writes_emitWith hlt haddr _ _) fun _ _ => .pure trivial
  | callIndirect type => exact .bind (writes_emitWith hlt haddr _ _) fun _ _ => .pure trivial
  | arithmetic arithmetic => exact writes_emitOp hlt haddr _
  | unreachable => exact writes_emitOp hlt haddr _
  | ret => exact writes_emitOp hlt haddr _
  | drop => exact writes_emitOp hlt haddr _
  | ifThen => exact .pure trivial
  | orElse => exact .pure trivial
  | finish => exact .pure trivial

omit haddr in
theorem writes_fillHole {address : CodeRef} (hpage : address.page = state.page) (hline : base ≤ address.line) :
    Writes state page base (fillHole address) fun _ => True :=
  .bind (.look hlt) fun _ _ => .patch hlt hpage hline _

/-- Holes are filled on the current page, behind the lines that are left alone. -/
theorem writes_emitBody (ending : Except Error Reader) (instructions : List Instruction) (holes : List Hole)
    (hholes : ∀ hole ∈ holes, hole.address.page = state.page ∧ base ≤ hole.address.line) :
    Writes state page base (emitBody ending holes instructions) fun _ => True := by
  fun_induction emitBody ending holes instructions with
  | case1 => exact .throw _
  | case2 => exact .throw _
  | case3 holes rest ih =>
    refine .bind (writes_emitWith hlt haddr _ _) fun address haddress => ih address ?_
    exact List.forall_mem_cons.2 ⟨haddress, hholes⟩
  | case4 address holes rest ih =>
    obtain ⟨hfirst, hothers⟩ := List.forall_mem_cons.1 hholes
    refine .bind (writes_emitWith hlt haddr _ _) fun skip hskip => ?_
    refine .bind (writes_fillHole hlt hfirst.1 hfirst.2) fun _ _ => ih skip ?_
    exact List.forall_mem_cons.2 ⟨hskip, hothers⟩
  | case5 => exact .throw _
  | case6 hole holes rest ih =>
    obtain ⟨hfirst, hothers⟩ := List.forall_mem_cons.1 hholes
    exact .bind (writes_fillHole hlt hfirst.1 hfirst.2) fun _ _ => ih hothers
  | case7 => exact writes_emitOp hlt haddr _
  | case8 holes instruction rest _ _ _ _ _ ih =>
    exact .bind (writes_emitPlain hlt haddr instruction) fun _ _ => ih hholes

theorem writes_compileFunction (module : Module) (index : Nat) :
    Writes state page base (compileFunction module index) fun _ => True := by
  unfold compileFunction
  cases module.functions[index]? with
  | none => exact .throw _
  | some func =>
    dsimp only
    cases func.body with
    | none => exact .throw _
    | some body =>
      refine .bind (writes_emitWith hlt haddr _ _) fun _ _ => ?_
      refine .bind (.emit hlt haddr _) fun _ _ => ?_
      exact writes_emitBody hlt haddr _ _ [] (List.forall_mem_nil _)

end Writes

/-! ## Code -/

/-- The code of an instruction that neither begins nor ends a block. -/
def Instruction.code : Instruction → List Line
  | .const word => [Op.push.line, .imm word]
  | .globalGet index => [Op.globalGet.line, .imm index.toUInt64]
  | .localGet index => [Op.localGet.line, .imm index.toUInt64]
  | .arithmetic operation => [(Op.arithmetic operation).line]
  | .unreachable => [Op.unreachable.line]
  | .ret => [Op.ret.line]
  | .call callee => [Op.call.line, .imm callee.toUInt64]
  | .callIndirect type => [Op.callIndirect.line, .imm type.toUInt64]
  | .drop => [Op.drop.line]
  | .ifThen | .orElse | .finish => []

namespace Block

/-- The number of lines of a block. -/
def size : Block → Nat
  | .done => 0
  | .plain instruction _ rest => instruction.code.length + rest.size
  | .when body rest => 2 + body.size + rest.size
  | .cond yes no rest => 2 + yes.size + 2 + no.size + rest.size

/-- The code of a block that starts at a line of a page. -/
def code : Block → (start : Nat) → List Line
  | .done, _ => []
  | .plain instruction _ rest, start => instruction.code ++ rest.code (start + instruction.code.length)
  | .when body rest, start =>
    Op.branchUnless.line :: .imm (.ofNat (start + 2 + body.size)) ::
      (body.code (start + 2) ++ rest.code (start + 2 + body.size))
  | .cond yes no rest, start =>
    Op.branchUnless.line :: .imm (.ofNat (start + 2 + yes.size + 2)) ::
      (yes.code (start + 2) ++
        Op.branch.line :: .imm (.ofNat (start + 2 + yes.size + 2 + no.size)) ::
          (no.code (start + 2 + yes.size + 2) ++ rest.code (start + 2 + yes.size + 2 + no.size)))

@[simp]
theorem length_code (block : Block) (start : Nat) : (block.code start).length = block.size := by
  induction block generalizing start with
  | done => rfl
  | plain instruction hplain rest ih => simp [code, size, ih]
  | when body rest ihbody ih =>
    simp only [code, size, List.length_cons, List.length_append, ihbody, ih]
    omega
  | cond yes no rest ihyes ihno ih =>
    simp only [code, size, List.length_cons, List.length_append, ihyes, ihno, ih]
    omega

end Block

/-- The code of a function that starts at a line of a page, if its body can be read. -/
def functionCode (func : Func) (start : Nat) : Option (List Line) :=
  func.body.bind fun body => (Block.ofBody body).map fun block =>
    Op.enter.line :: .imm (.ofNat func.type.type.params.length) :: .imm (.ofNat func.numLocals) ::
      (block.code (start + 3) ++ [Op.ret.line])

theorem functionCode_eq_some {func : Func} {start : Nat} {lines : List Line} :
    functionCode func start = some lines ↔ ∃ body block, func.body = some body ∧ Block.ofBody body = some block ∧
      lines = Op.enter.line :: .imm (.ofNat func.type.type.params.length) :: .imm (.ofNat func.numLocals) ::
        (block.code (start + 3) ++ [Op.ret.line]) := by
  unfold functionCode
  simp only [Option.bind_eq_some_iff, Option.map_eq_some_iff]
  constructor
  · rintro ⟨body, hbody, block, hblock, rfl⟩
    exact ⟨body, block, hbody, hblock, rfl⟩
  · rintro ⟨body, block, hbody, hblock, rfl⟩
    exact ⟨body, hbody, block, hblock, rfl⟩

/-! ## Compiling appends the code -/

section Success

variable {state state' : CompileState} {page : CodePage} (hlt : state.page < state.area.code.pages.size)
  {lines final : List Line}

include hlt

theorem withLines_inj (h : state.withLines page lines = state.withLines page final) : lines = final := by
  have hpages := congrArg (fun state : CompileState => state.area.code.pages[state.page]?) h
  change (state.withLines page lines).area.code.pages[state.page]? =
    (state.withLines page final).area.code.pages[state.page]? at hpages
  rw [CompileState.getElem?_withLines page hlt, CompileState.getElem?_withLines page hlt] at hpages
  simpa using hpages

theorem emit_eq_ok {line : Line} {address : CodeRef}
    (h : (Compile.emit line).exec (state.withLines page lines) = (.ok address, state')) :
    address = ⟨state.page, min lines.length 0xFFFFFFFF⟩ ∧ state' = state.withLines page (lines ++ [line]) := by
  rw [CompileState.exec_emit page hlt] at h
  split at h
  · cases h
  · cases h
    exact ⟨rfl, rfl⟩

theorem emitOp_eq_ok {op : Op} (h : (emitOp op).exec (state.withLines page lines) = (.ok (), state')) :
    state' = state.withLines page (lines ++ [op.line]) := by
  obtain ⟨address, between, hemit, hpure⟩ := exec_bind_eq_ok h
  cases hpure
  exact (emit_eq_ok hlt hemit).2

theorem emitWith_eq_ok {op : Op} {operand : UInt64} {address : CodeRef}
    (h : (emitWith op operand).exec (state.withLines page lines) = (.ok address, state')) :
    address = ⟨state.page, min (lines.length + 1) 0xFFFFFFFF⟩ ∧
      state' = state.withLines page (lines ++ [op.line, .imm operand]) := by
  obtain ⟨first, between, hop, hoperand⟩ := exec_bind_eq_ok h
  obtain ⟨-, rfl⟩ := emit_eq_ok hlt hop
  obtain ⟨rfl, rfl⟩ := emit_eq_ok hlt hoperand
  simp

theorem emitPlain_eq_ok {instruction : Instruction}
    (h : (emitPlain instruction).exec (state.withLines page lines) = (.ok (), state')) :
    state' = state.withLines page (lines ++ instruction.code) := by
  have hwith : ∀ {op : Op} {operand : UInt64},
      (do let _ ← emitWith op operand : Compile Unit).exec (state.withLines page lines) = (.ok (), state') →
        state' = state.withLines page (lines ++ [op.line, .imm operand]) := by
    intro op operand hemit
    obtain ⟨address, between, hemit, hpure⟩ := exec_bind_eq_ok hemit
    cases hpure
    exact (emitWith_eq_ok hlt hemit).2
  cases instruction with
  | const word => exact hwith h
  | globalGet index => exact hwith h
  | localGet index => exact hwith h
  | call function => exact hwith h
  | callIndirect type => exact hwith h
  | arithmetic arithmetic => exact emitOp_eq_ok hlt h
  | unreachable => exact emitOp_eq_ok hlt h
  | ret => exact emitOp_eq_ok hlt h
  | drop => exact emitOp_eq_ok hlt h
  | ifThen => cases h; simp [Instruction.code]
  | orElse => cases h; simp [Instruction.code]
  | finish => cases h; simp [Instruction.code]

theorem fillHole_eq_ok {index : Nat}
    (h : (fillHole ⟨state.page, index⟩).exec (state.withLines page lines) = (.ok (), state')) :
    state' = state.withLines page (lines.set index (.imm (.ofNat (min lines.length 0xFFFFFFFF)))) := by
  obtain ⟨view, between, hlook, hpatch⟩ := exec_bind_eq_ok h
  rw [CompileState.exec_look page hlt] at hlook
  cases hlook
  rw [CompileState.exec_patch page hlt] at hpatch
  split at hpatch
  · cases hpatch
    rfl
  · cases hpatch

/-- No line is lost on the way to the end of a body. -/
theorem length_le_of_emitBody {ending : Except Error Reader} {instructions : List Instruction}
    (hholes : ∀ hole ∈ holes, hole.address.page = state.page)
    (h : (emitBody ending holes instructions).exec (state.withLines page lines) =
      (.ok (), state.withLines page final)) : lines.length ≤ final.length := by
  have hwrites : Writes state page 0 (emitBody ending holes instructions) fun _ => True :=
    writes_emitBody hlt (Nat.zero_le _) ending instructions holes fun hole hmem => ⟨hholes hole hmem, Nat.zero_le _⟩
  obtain ⟨result, lines', hexec, hlength, -, -⟩ := hwrites lines (Nat.zero_le _)
  rw [h] at hexec
  rw [withLines_inj hlt (congrArg Prod.snd hexec)]
  exact hlength

omit hlt in
theorem emitBody_plain (ending : Except Error Reader) (holes : List Hole) {instruction : Instruction}
    (hplain : instruction.isPlain = true) (rest : List Instruction) :
    emitBody ending holes (instruction :: rest) =
      (emitPlain instruction >>= fun _ => emitBody ending holes rest) := by
  cases instruction with
  | ifThen => cases hplain
  | orElse => cases hplain
  | finish => cases hplain
  | _ => rfl

omit hlt in
theorem set_operand {index : Nat} (hindex : index = lines.length + 1) (op operand operand' : Line)
    (rest : List Line) : (lines ++ [op, operand] ++ rest).set index operand' = lines ++ [op, operand'] ++ rest := by
  subst hindex
  simp [List.set_append_right]

/-- Emitting the instructions of a block appends its code. The holes of the block are filled on the way. -/
theorem emitBody_flatten {ending : Except Error Reader} (block : Block)
    {rest : List Instruction} (hholes : ∀ hole ∈ holes, hole.address.page = state.page)
    (haddr : final.length ≤ 0xFFFFFFFF)
    (h : (emitBody ending holes (block.flatten ++ rest)).exec (state.withLines page lines) =
      (.ok (), state.withLines page final)) :
    (emitBody ending holes rest).exec (state.withLines page (lines ++ block.code lines.length)) =
      (.ok (), state.withLines page final) := by
  induction block generalizing lines holes rest with
  | done => simpa only [Block.code, Block.flatten, List.append_nil, List.nil_append] using h
  | plain instruction hplain block ih =>
    rw [Block.flatten, List.cons_append, emitBody_plain ending holes hplain] at h
    obtain ⟨done, between, hemit, hrest⟩ := exec_bind_eq_ok h
    rw [emitPlain_eq_ok hlt hemit] at hrest
    simpa [Block.code] using ih hholes hrest
  | when body block ihbody ih =>
    rw [Block.flatten, List.cons_append, List.append_assoc, List.cons_append] at h
    obtain ⟨address, between, hemit, hbody⟩ := exec_bind_eq_ok h
    obtain ⟨rfl, rfl⟩ := emitWith_eq_ok hlt hemit
    have hholes' : ∀ hole ∈ Hole.ifThen ⟨state.page, min (lines.length + 1) 0xFFFFFFFF⟩ :: holes,
        hole.address.page = state.page := List.forall_mem_cons.2 ⟨rfl, hholes⟩
    obtain ⟨done, between, hfill, hrest⟩ := exec_bind_eq_ok (ihbody hholes' hbody)
    rw [fillHole_eq_ok hlt hfill] at hrest
    have hlength := length_le_of_emitBody hlt hholes hrest
    simp only [List.length_set, List.length_append, List.length_cons, List.length_nil, Block.length_code] at hlength
    have hcode := ih hholes hrest
    simp only [List.length_set, List.length_append, List.length_cons, List.length_nil, Block.length_code,
      Nat.zero_add, Nat.reduceAdd] at hcode
    rw [Nat.min_eq_left (by omega), Nat.min_eq_left (by omega), set_operand rfl] at hcode
    simpa only [Block.code, List.append_assoc, List.cons_append, List.nil_append] using hcode
  | cond yes no block ihyes ihno ih =>
    rw [Block.flatten, List.cons_append, List.append_assoc, List.cons_append, List.append_assoc, List.cons_append] at h
    obtain ⟨address, between, hemit, hyes⟩ := exec_bind_eq_ok h
    obtain ⟨rfl, rfl⟩ := emitWith_eq_ok hlt hemit
    have hholes' : ∀ hole ∈ Hole.ifThen ⟨state.page, min (lines.length + 1) 0xFFFFFFFF⟩ :: holes,
        hole.address.page = state.page := List.forall_mem_cons.2 ⟨rfl, hholes⟩
    obtain ⟨skip, between, hbranch, helse⟩ := exec_bind_eq_ok (ihyes hholes' hyes)
    obtain ⟨rfl, rfl⟩ := emitWith_eq_ok hlt hbranch
    obtain ⟨done, between, hfill, hno⟩ := exec_bind_eq_ok helse
    rw [fillHole_eq_ok hlt hfill] at hno
    have hholes'' : ∀ hole ∈ Hole.orElse ⟨state.page, min ((lines ++ [Op.branchUnless.line, .imm 0] ++
        yes.code (lines ++ [Op.branchUnless.line, .imm 0]).length).length + 1) 0xFFFFFFFF⟩ :: holes,
        hole.address.page = state.page := List.forall_mem_cons.2 ⟨rfl, hholes⟩
    obtain ⟨done, between, hfill', hrest⟩ := exec_bind_eq_ok (ihno hholes'' hno)
    rw [fillHole_eq_ok hlt hfill'] at hrest
    have hlength := length_le_of_emitBody hlt hholes hrest
    simp only [List.length_set, List.length_append, List.length_cons, List.length_nil, Block.length_code] at hlength
    have hcode := ih hholes hrest
    simp only [List.length_set, List.length_append, List.length_cons, List.length_nil, Block.length_code,
      Nat.zero_add, Nat.reduceAdd] at hcode
    rw [Nat.min_eq_left (by omega), Nat.min_eq_left (by omega), Nat.min_eq_left (by omega),
      Nat.min_eq_left (by omega), List.append_assoc (lines ++ _) (yes.code _), set_operand rfl,
      ← List.append_assoc (lines ++ _) (yes.code _),
      set_operand (by simp only [List.length_append, List.length_cons, List.length_nil, Block.length_code])] at hcode
    simpa only [Block.code, List.append_assoc, List.cons_append, List.nil_append] using hcode

end Success

/-- The pieces of blocks close some open branches, and then the body. -/
def Closes : List Hole → List (Block × Closer) → Prop
  | [], (_, .finish) :: _ => True
  | .ifThen _ :: holes, (_, .orElse) :: (_, .finish) :: levels => Closes holes levels
  | _ :: holes, (_, .finish) :: levels => Closes holes levels
  | _, _ => False

/-- Whether pieces close branches does not depend on what is in them. -/
theorem Closes.replace {block : Block} {closer : Closer}
    (h : Closes holes ((block, closer) :: levels)) (block' : Block) : Closes holes ((block', closer) :: levels) := by
  cases closer with
  | finish =>
    cases holes with
    | nil => trivial
    | cons hole holes => cases hole <;> exact h
  | orElse =>
    cases holes with
    | nil => exact h
    | cons hole holes =>
      cases hole with
      | orElse address => exact h
      | ifThen address =>
        cases levels with
        | nil => exact h
        | cons level levels =>
          obtain ⟨block, closer⟩ := level
          cases closer <;> exact h

theorem Closes.ne_nil (h : Closes holes levels) :
    ∃ block closer others, levels = (block, closer) :: others := by
  cases levels with
  | nil =>
    cases holes with
    | nil => exact h.elim
    | cons hole holes => cases hole <;> exact h.elim
  | cons level others => exact ⟨level.1, level.2, others, rfl⟩

/-- An `if` opens the branch that the first pieces close. -/
theorem Closes.branch {address : CodeRef}
    (h : Closes (.ifThen address :: holes) levels) : Closes holes (Block.branch levels) := by
  obtain ⟨body, closer, others, rfl⟩ := h.ne_nil
  cases closer with
  | finish =>
    have hothers : Closes holes others := h
    obtain ⟨rest, closer, others, rfl⟩ := hothers.ne_nil
    exact hothers.replace (.when body rest)
  | orElse =>
    match others, h with
    | (no, .finish) :: others, h =>
      have hothers : Closes holes others := h
      obtain ⟨rest, closer, others, rfl⟩ := hothers.ne_nil
      exact hothers.replace (.cond body no rest)

/-- A body is emitted to its end only if its blocks are closed. -/
theorem closes_of_emitBody {ending : Except Error Reader} {instructions : List Instruction}
    {state state' : CompileState} (h : (emitBody ending holes instructions).exec state = (.ok (), state')) :
    Closes holes (Block.levels instructions) := by
  fun_induction emitBody ending holes instructions generalizing state with
  | case1 => cases h
  | case2 => cases h
  | case3 holes rest ih =>
    obtain ⟨address, between, -, hrest⟩ := exec_bind_eq_ok h
    exact (ih address hrest).branch
  | case4 address holes rest ih =>
    obtain ⟨skip, between, -, hfill⟩ := exec_bind_eq_ok h
    obtain ⟨done, between, -, hrest⟩ := exec_bind_eq_ok hfill
    have hno := ih skip hrest
    obtain ⟨no, closer, others, hlevels⟩ := hno.ne_nil
    change Closes _ ((.done, .orElse) :: Block.levels rest)
    rw [hlevels] at hno ⊢
    cases closer with
    | finish => exact hno
    | orElse => cases hno
  | case5 => cases h
  | case6 hole holes rest ih =>
    obtain ⟨done, between, -, hrest⟩ := exec_bind_eq_ok h
    cases hole <;> exact ih hrest
  | case7 => trivial
  | case8 holes instruction rest hif _ helse hfinish hend ih =>
    obtain ⟨done, between, -, hrest⟩ := exec_bind_eq_ok h
    have hplain : instruction.isPlain = true := by
      cases instruction with
      | ifThen => exact absurd rfl hif
      | orElse => exact absurd rfl helse
      | finish =>
        cases holes with
        | nil => exact absurd rfl (hend rfl)
        | cons hole holes => exact absurd rfl (hfinish hole holes rfl)
      | _ => rfl
    have hlevels := ih hrest
    obtain ⟨block, closer, others, heq⟩ := hlevels.ne_nil
    change Closes holes (Block.prepend instruction (Block.levels rest))
    rw [heq] at hlevels ⊢
    simp only [Block.prepend, dif_pos hplain]
    exact hlevels.replace _

theorem exists_ofBody {body : List UInt8} (h : Closes [] (Block.levels (Instruction.ofBody body).1)) :
    ∃ block, Block.ofBody body = some block := by
  obtain ⟨block, closer, others, heq⟩ := h.ne_nil
  cases closer with
  | finish => exact ⟨block, by simp [Block.ofBody, Block.parse, heq]⟩
  | orElse => rw [heq] at h; exact h.elim

/-- A compilation that succeeds appends the code of the function. -/
theorem code_of_compileFunction {state : CompileState} {page : CodePage} {module : Module} {index : Nat}
    {lines final : List Line} (hlt : state.page < state.area.code.pages.size) (haddr : final.length ≤ 0xFFFFFFFF)
    (h : (compileFunction module index).exec (state.withLines page lines) = (.ok (), state.withLines page final)) :
    ∃ func code, module.functions[index]? = some func ∧ functionCode func lines.length = some code ∧
      final = lines ++ code := by
  unfold compileFunction at h
  cases hfunc : module.functions[index]? with
  | none => rw [hfunc] at h; cases h
  | some func =>
    rw [hfunc] at h
    cases hbody : func.body with
    | none => simp only [hbody] at h; cases h
    | some body =>
      simp only [hbody] at h
      obtain ⟨address, between, hparams, h⟩ := exec_bind_eq_ok h
      obtain ⟨-, rfl⟩ := emitWith_eq_ok hlt hparams
      obtain ⟨address, between, hlocals, h⟩ := exec_bind_eq_ok h
      obtain ⟨-, rfl⟩ := emit_eq_ok hlt hlocals
      obtain ⟨block, hblock⟩ := exists_ofBody (closes_of_emitBody h)
      obtain ⟨rest, hrest⟩ := Block.parse_eq_some.1 hblock
      rw [hrest] at h
      have hend := withLines_inj hlt (emitOp_eq_ok hlt (emitBody_flatten hlt block (List.forall_mem_nil _) haddr h))
      refine ⟨func, _, rfl, functionCode_eq_some.2 ⟨body, block, hbody, hblock, rfl⟩, ?_⟩
      simpa using hend

end Threaded

end WasmEngine
