import WasmEngine.Proofs.Code.Text
import WasmEngine.Proofs.Machine.Work

/-!
# Entries and the code that they name

An entry names a place in a store of code if it is on one of its pages, no further than where the page ends. Whatever a
compiler does, a store only widens, and what compiling or linking gives is not before where its page ended.
-/

namespace WasmEngine

namespace CodeStore

variable {store store' store'' : CodeStore} {entry : CodeRef}

/-- An entry is on a page of the store, at one of its lines or where the next one goes. -/
def Names (store : CodeStore) (entry : CodeRef) : Prop :=
  entry.page < store.pages.size ∧ entry.line ≤ (store.text entry.page).length

/-- No page is lost, and no text gets shorter. -/
structure Widens (store store' : CodeStore) : Prop where
  size : store.pages.size ≤ store'.pages.size
  grows : store.Grows store'

/-- The code of a store goes on, and an entry is given out on the way: not before where its page ended at first, and at
a place in the code in the end. -/
structure Issues (store store' : CodeStore) (entry : CodeRef) : Prop where
  behind : min (store.text entry.page).length 0xFFFFFFFF ≤ entry.line
  names : store'.Names entry

theorem Widens.refl (store : CodeStore) : store.Widens store :=
  ⟨Nat.le_refl _, .refl _⟩

theorem Widens.trans (h : store.Widens store') (h' : store'.Widens store'') : store.Widens store'' :=
  ⟨Nat.le_trans h.size h'.size, h.grows.trans h'.grows⟩

theorem Names.widens (h : store.Names entry) (hwidens : store.Widens store') : store'.Names entry :=
  ⟨Nat.lt_of_lt_of_le h.1 hwidens.size, Nat.le_trans h.2 (hwidens.grows entry.page)⟩

theorem Issues.after (h : store'.Issues store'' entry) (hwidens : store.Widens store') : store.Issues store'' entry := by
  have hgrows := hwidens.grows entry.page
  have hbehind := h.behind
  exact ⟨by omega, h.names⟩

theorem Issues.widens (h : store.Issues store' entry) (hwidens : store'.Widens store'') : store.Issues store'' entry :=
  ⟨h.behind, h.names.widens hwidens⟩

/-- Where the next line of a page goes is issued by the store. -/
theorem issues_pc {id : Nat} (hlt : id < store.pages.size) : store.Issues store (store.pc id) := by
  rw [pc_eq]
  exact ⟨Nat.le_refl _, hlt, Nat.min_le_left ..⟩

/-! ## What operations do to a store -/

theorem SameCode.size_eq (h : SameCode store store') : store'.pages.size = store.pages.size := by
  simpa using congrArg List.length (h.map_eq (fun _ => ()) fun _ => rfl)

theorem SameCode.widens (h : SameCode store store') : store.Widens store' :=
  ⟨Nat.le_of_eq h.size_eq.symm, (Extends.of_eq h.text_eq).grows⟩

theorem widens_insert (store : CodeStore) (page : CodePage) : store.Widens (store.insert page).2 := by
  refine ⟨?_, (store.extends_insert page).grows⟩
  simp [insert]

theorem widens_emit {id : Nat} {line : Line} {address : CodeRef} (h : store.emit id line = .ok (address, store')) :
    store.Widens store' := by
  refine ⟨?_, (appends_emit h).extends.grows⟩
  obtain ⟨page, -, -, -, rfl⟩ := emit_eq_ok h
  simp

/-- Replacing a line makes no text shorter. -/
theorem widens_patch {address : CodeRef} {line : Line} (h : store.patch address line = .ok store') :
    store.Widens store' := by
  obtain ⟨page, hpage, -, rfl⟩ := patch_eq_ok h
  have hlt : address.page < store.pages.size := (Array.getElem?_eq_some_iff.1 hpage).1
  refine ⟨by simp, fun id => ?_⟩
  by_cases heq : id = address.page
  · rw [heq, text_of_getElem? hpage]
    simp [text, hlt]
  · simp [text, Ne.symm heq]

end CodeStore

/-! ## Pages -/

namespace CodeArea

open CodeStore

variable {area area' : CodeArea}

theorem widens_of_acquire {minLines id : Nat} (h : acquire minLines area = .ok id area') :
    area.code.Widens area'.code := by
  have hcases := acquired minLines area
  rw [h] at hcases
  cases hcases with
  | opened htake => exact (sameCode_takeOpen htake).widens.trans (sameCode_hold _ _).widens
  | pooled hopen htake => exact (widens_insert _ _).trans (sameCode_hold _ _).widens
  | served hopen hpool halloc => exact (widens_insert _ _).trans (sameCode_hold _ _).widens

theorem acquire_widens (minLines : Nat) (area : CodeArea) :
    area.code.Widens (stateAfter (acquire minLines area)).code := by
  cases h : acquire minLines area with
  | ok id area' => exact widens_of_acquire h
  | error error area' => exact code_of_refuse h ▸ .refl _

/-- What is put onto a page that was acquired for it starts at an entry that the code issues. -/
theorem acquire_issues {minLines id : Nat} (h : acquire minLines area = .ok id area') {code : CodeStore}
    (hwidens : area'.code.Widens code) : area.code.Widens code ∧ area.code.Issues code (area'.code.pc id) := by
  have hacquired := widens_of_acquire h
  have hissues := issues_pc (extends_of_acquire h).2
  exact ⟨hacquired.trans hwidens, (hissues.after hacquired).widens hwidens⟩

/-! ## Compilers -/

variable {module : Module} {function : Nat} {entry : CodeRef}

/-- Whatever a compiler asks for, the code widens. -/
theorem widens_closed : CompileClosed fun area area' => area.code.Widens area'.code where
  refl _ := .refl _
  trans := .trans
  acquire := acquire_widens
  release _ _ := (sameCode_release _ _ _).widens
  emit := widens_emit
  patch := widens_patch
  note _ _ := .refl _

/-- What a compiler writes starts where it started. -/
theorem entry_compile {α : Type} (area : CodeArea) (page : Nat) (program : Compile α) :
    (area.compile page program).2.entry = area.code.pc page := by
  refine Dialogue.run_preserves CompileState.answer (fun state => state.entry = area.code.pc page) ?_ _ _ rfl
  intro op state hentry
  rw [← hentry]
  cases op with
  | emit line =>
    simp only [CompileState.answer]
    split <;> rfl
  | patch address line =>
    simp only [CompileState.answer]
    split <;> rfl
  | switchPage minLines =>
    simp only [CompileState.answer, CompileState.switchPage]
    split <;> rfl
  | look => rfl
  | note text => rfl

/-- What compiling onto an acquired page does to the code, and where the code starts. -/
theorem compile_issues {α : Type} {minLines page : Nat} (hacquire : acquire minLines area = .ok page area')
    {program : Compile α} {result : Except Error α} {state : CompileState}
    (hcompile : area'.compile page program = (result, state)) :
    area.code.Widens (state.area.release state.page).code ∧
      area.code.Issues (state.area.release state.page).code state.entry := by
  have hcompiled := widens_closed.compile area' page program
  have hentry := area'.entry_compile page program
  rw [hcompile] at hcompiled hentry
  rw [hentry]
  exact acquire_issues hacquire (hcompiled.trans (widens_closed.release state.area state.page))

/-- The entry of a function is the one that it has, or the code that it is compiled onto issues it. -/
theorem compileFunction_issues (h : compileFunction module function area = .ok entry area') :
    module.codeOf function = some entry ∨ area.code.Issues area'.code entry := by
  have hcases := compiled module function area
  rw [h] at hcases
  cases hcases with
  | present hfunc hcode => exact .inl (by simp only [Module.codeOf, hfunc, hcode])
  | done hfunc hcode himport hacquire hcompile => exact .inr (compile_issues hacquire hcompile).2

/-! ## Host functions -/

/-- What writing the call of a host function onto an acquired page does to the code. -/
theorem emitAll_issues {minLines page : Nat} (hacquire : acquire minLines area = .ok page area') {lines : List Line}
    {result : Except Error Unit} {code : CodeStore} (hemit : area'.code.emitAll page lines = (result, code)) :
    area.code.Widens (CodeArea.release { area' with code } page).code ∧
      area.code.Issues (CodeArea.release { area' with code } page).code (area'.code.pc page) := by
  have hemitted := widens_closed.emitAll area'.env area'.code page lines
  rw [hemit] at hemitted
  exact acquire_issues hacquire (hemitted.trans (widens_closed.release { area' with code } page))

theorem install_issues {link : HostLink} (h : install link area = .ok entry area') :
    area.code.Issues area'.code entry := by
  have hcases := installed link area
  rw [h] at hcases
  cases hcases with
  | done hacquire hemit => exact (emitAll_issues hacquire hemit).2

end CodeArea

end WasmEngine
