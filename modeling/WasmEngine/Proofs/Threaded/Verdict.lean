import WasmEngine.Proofs.Threaded.Assembler

/-!
# Which bodies the compiler accepts

Apart from a page that is full, what becomes of a compilation is decided by the body: `verdict` reads it off the
instructions, so it is the same wherever the code is put.
-/

namespace WasmEngine.Threaded

open Compile

/-- What instructions are good for inside some open branches, the innermost first. `ending` says why they do not go on.
-/
def verdict (ending : Except Error Reader) : (branches : List Bool) → List Instruction → Except Error Unit
  | _, [] =>
    match ending with
    | .error error => .error error
    | .ok _ => .error .underrun
  | branches, .ifThen :: rest => verdict ending (true :: branches) rest
  | true :: branches, .orElse :: rest => verdict ending (false :: branches) rest
  | _, .orElse :: _ => .error (.unknownOpcode 0x05)
  | _ :: branches, .finish :: rest => verdict ending branches rest
  | [], .finish :: _ => .ok ()
  | branches, _ :: rest => verdict ending branches rest

/-- What becomes of the compilation of a function. -/
def functionVerdict (func : Func) : Except Error Unit :=
  match func.body with
  | none => .error .missingCode
  | some body => verdict (Instruction.ofBody body).2 [] (Instruction.ofBody body).1

/-! ## Bodies that are accepted -/

theorem verdict_plain (ending : Except Error Reader) (branches : List Bool) {instruction : Instruction}
    (hplain : instruction.isPlain = true) (rest : List Instruction) :
    verdict ending branches (instruction :: rest) = verdict ending branches rest := by
  cases instruction with
  | ifThen => cases hplain
  | orElse => cases hplain
  | finish => cases hplain
  | _ => rw [verdict] <;> simp

/-- Blocks close the branches that they open. -/
theorem verdict_flatten (ending : Except Error Reader) (block : Block) (branches : List Bool)
    (rest : List Instruction) : verdict ending branches (block.flatten ++ rest) = verdict ending branches rest := by
  induction block generalizing branches rest with
  | done => rfl
  | plain instruction hplain block ih =>
    rw [Block.flatten, List.cons_append, verdict_plain ending branches hplain, ih]
  | when body block ihbody ih =>
    rw [Block.flatten, List.cons_append, List.append_assoc, verdict, ihbody, List.cons_append, verdict, ih]
  | cond yes no block ihyes ihno ih =>
    rw [Block.flatten, List.cons_append, List.append_assoc, verdict, ihyes, List.cons_append, List.append_assoc,
      verdict, ihno, List.cons_append, verdict, ih]

theorem verdict_of_functionCode {func : Func} {start : Nat} {lines : List Line}
    (h : functionCode func start = some lines) : functionVerdict func = .ok () := by
  obtain ⟨body, block, hbody, hblock, -⟩ := functionCode_eq_some.1 h
  obtain ⟨rest, hrest⟩ := Block.parse_eq_some.1 hblock
  simp only [functionVerdict, hbody]
  rw [hrest, verdict_flatten, verdict]

/-! ## Compilations end as the verdict says -/

/-- Only a full page makes a program fail. If it succeeds, it has taken no line away and its result is as expected. -/
def Tries {α : Type} (state : CompileState) (page : CodePage) (lines : List Line) (program : Compile α)
    (expected : α → List Line → Prop) : Prop :=
  (∃ state', program.exec (state.withLines page lines) = (.error .codePageFull, state')) ∨
    ∃ value lines', program.exec (state.withLines page lines) = (.ok value, state.withLines page lines') ∧
      lines.length ≤ lines'.length ∧ expected value lines'

/-- A program ends as expected, unless the page is full. -/
def Ends (state : CompileState) (page : CodePage) (lines : List Line) (program : Compile Unit)
    (expected : Except Error Unit) : Prop :=
  (program.exec (state.withLines page lines)).1 = .error .codePageFull ∨
    (program.exec (state.withLines page lines)).1 = expected

section Emitting

variable {α β : Type} {state : CompileState} {page : CodePage} {lines : List Line} {first : Compile α}
  {expected : α → List Line → Prop}

theorem Tries.bind {second : α → Compile β} {wanted : β → List Line → Prop}
    (hfirst : Tries state page lines first expected)
    (hsecond : ∀ value lines', lines.length ≤ lines'.length → expected value lines' →
      Tries state page lines' (second value) wanted) : Tries state page lines (first >>= second) wanted := by
  unfold Tries
  rw [exec_bind]
  rcases hfirst with ⟨state', hfull⟩ | ⟨value, lines', hexec, hlength, hexpected⟩
  · rw [hfull]
    exact .inl ⟨state', rfl⟩
  · rw [hexec]
    rcases hsecond value lines' hlength hexpected with hfull | ⟨value, lines'', hexec', hlength', hwanted⟩
    · exact .inl hfull
    · exact .inr ⟨value, lines'', hexec', Nat.le_trans hlength hlength', hwanted⟩

theorem Tries.ends {second : α → Compile Unit} {wanted : Except Error Unit}
    (hfirst : Tries state page lines first expected)
    (hsecond : ∀ value lines', lines.length ≤ lines'.length → expected value lines' →
      Ends state page lines' (second value) wanted) : Ends state page lines (first >>= second) wanted := by
  unfold Ends
  rw [exec_bind]
  rcases hfirst with ⟨state', hfull⟩ | ⟨value, lines', hexec, hlength, hexpected⟩
  · rw [hfull]
    exact .inl rfl
  · rw [hexec]
    exact hsecond value lines' hlength hexpected

theorem Tries.pure {value : α} (h : expected value lines) : Tries state page lines (pure value) expected :=
  .inr ⟨value, lines, rfl, Nat.le_refl _, h⟩

variable (hlt : state.page < state.area.code.pages.size)

include hlt

theorem tries_emit (line : Line) : Tries state page lines (Compile.emit line) fun address lines' =>
    address.page = state.page ∧ address.line < lines'.length := by
  unfold Tries
  rw [CompileState.exec_emit page hlt]
  split
  · exact .inl ⟨_, rfl⟩
  · refine .inr ⟨_, _, rfl, by simp, rfl, ?_⟩
    rw [List.length_append]
    exact Nat.lt_succ_of_le (Nat.min_le_left _ _)

theorem tries_emitOp (op : Op) : Tries state page lines (emitOp op) fun _ _ => True :=
  (tries_emit hlt _).bind fun _ _ _ _ => .pure trivial

theorem tries_emitWith (op : Op) (operand : UInt64) :
    Tries state page lines (emitWith op operand) fun address lines' =>
      address.page = state.page ∧ address.line < lines'.length :=
  (tries_emit hlt _).bind fun _ _ _ _ => tries_emit hlt _

theorem tries_emitPlain (instruction : Instruction) :
    Tries state page lines (emitPlain instruction) fun _ _ => True := by
  cases instruction with
  | const word => exact (tries_emitWith hlt _ _).bind fun _ _ _ _ => .pure trivial
  | globalGet index => exact (tries_emitWith hlt _ _).bind fun _ _ _ _ => .pure trivial
  | localGet index => exact (tries_emitWith hlt _ _).bind fun _ _ _ _ => .pure trivial
  | call function => exact (tries_emitWith hlt _ _).bind fun _ _ _ _ => .pure trivial
  | callIndirect type => exact (tries_emitWith hlt _ _).bind fun _ _ _ _ => .pure trivial
  | arithmetic arithmetic => exact tries_emitOp hlt _
  | unreachable => exact tries_emitOp hlt _
  | ret => exact tries_emitOp hlt _
  | drop => exact tries_emitOp hlt _
  | ifThen => exact .pure trivial
  | orElse => exact .pure trivial
  | finish => exact .pure trivial

theorem tries_look : Tries state page lines Compile.look fun _ _ => True :=
  .inr ⟨_, lines, CompileState.exec_look page hlt lines, Nat.le_refl _, trivial⟩

theorem tries_patch {address : CodeRef} (hpage : address.page = state.page) (hline : address.line < lines.length)
    (line : Line) : Tries state page lines (Compile.patch address line) fun _ _ => True := by
  obtain ⟨id, index⟩ := address
  cases hpage
  unfold Tries
  rw [CompileState.exec_patch page hlt, if_pos hline]
  exact .inr ⟨(), _, rfl, by simp, trivial⟩

theorem tries_fillHole {address : CodeRef} (hpage : address.page = state.page) (hline : address.line < lines.length) :
    Tries state page lines (fillHole address) fun _ _ => True :=
  (tries_look hlt).bind fun _ _ hle _ => tries_patch hlt hpage (Nat.lt_of_lt_of_le hline hle) _

/-- Whether a branch may still get an `else`. -/
def Hole.isIf : Hole → Bool
  | .ifThen _ => true
  | .orElse _ => false

/-- Emitting a body ends as its verdict says, whatever lines there are. -/
theorem ends_emitBody (ending : Except Error Reader) (instructions : List Instruction) (holes : List Hole)
    (hholes : ∀ hole ∈ holes, hole.address.page = state.page ∧ hole.address.line < lines.length) :
    Ends state page lines (emitBody ending holes instructions) (verdict ending (holes.map Hole.isIf) instructions) := by
  have hmono : ∀ {holes : List Hole} {lines lines' : List Line}, lines.length ≤ lines'.length →
      (∀ hole ∈ holes, hole.address.page = state.page ∧ hole.address.line < lines.length) →
      ∀ hole ∈ holes, hole.address.page = state.page ∧ hole.address.line < lines'.length :=
    fun hle hholes hole hmem => ⟨(hholes hole hmem).1, Nat.lt_of_lt_of_le (hholes hole hmem).2 hle⟩
  -- Holes are opened and filled on the way, and lines are added, so both vary.
  induction instructions generalizing holes lines with
  | nil =>
    right
    cases ending <;> rfl
  | cons instruction rest ih =>
    by_cases hplain : instruction.isPlain = true
    · rw [emitBody_plain ending holes hplain, verdict_plain ending _ hplain]
      exact (tries_emitPlain hlt instruction).ends fun _ lines' hle _ => ih holes (hmono hle hholes)
    · cases instruction with
      | ifThen =>
        refine (tries_emitWith hlt _ _).ends fun address lines' hle haddress => ?_
        exact ih (.ifThen address :: holes) (List.forall_mem_cons.2 ⟨haddress, hmono hle hholes⟩)
      | orElse =>
        match holes with
        | [] => exact .inr rfl
        | .orElse address :: holes => exact .inr rfl
        | .ifThen address :: holes =>
          refine (tries_emitWith hlt _ _).ends fun skip lines' hle hskip => ?_
          obtain ⟨hfirst, hothers⟩ := List.forall_mem_cons.1 (hmono hle hholes)
          refine (tries_fillHole hlt hfirst.1 hfirst.2).ends fun _ lines'' hle' _ => ?_
          exact ih (.orElse skip :: holes) (hmono hle' (List.forall_mem_cons.2 ⟨hskip, hothers⟩))
      | finish =>
        match holes with
        | [] =>
          change Ends state page lines (Compile.emit Op.ret.line >>= fun _ => pure ()) (.ok ())
          exact (tries_emit hlt _).ends fun _ _ _ _ => .inr rfl
        | hole :: holes =>
          obtain ⟨hfirst, hothers⟩ := List.forall_mem_cons.1 hholes
          exact (tries_fillHole hlt hfirst.1 hfirst.2).ends fun _ lines' hle _ => ih holes (hmono hle hothers)
      | _ => exact absurd rfl hplain

/-- A compilation ends as the verdict on its body says, unless the page is full. -/
theorem ends_compileFunction {module : Module} {function : Nat} {func : Func}
    (hfunc : module.functions[function]? = some func) :
    Ends state page lines (compileFunction module function) (functionVerdict func) := by
  unfold compileFunction functionVerdict
  rw [hfunc]
  dsimp only
  cases func.body with
  | none => exact .inr rfl
  | some body =>
    refine (tries_emitWith hlt _ _).ends fun _ _ _ _ => ?_
    refine (tries_emit hlt _).ends fun _ _ _ _ => ?_
    exact ends_emitBody hlt _ _ [] (List.forall_mem_nil _)

end Emitting

end WasmEngine.Threaded
