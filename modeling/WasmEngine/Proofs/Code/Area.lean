import WasmEngine.Machine.Link
import WasmEngine.Proofs.Code.Layout
import WasmEngine.Proofs.Programs

/-!
# What can happen when a machine works on its code

Taking hold of a page, compiling a function and installing the call of a host function can each go a few ways.
`CodeArea.Acquired`, `CodeArea.Compiled` and `CodeArea.Installed` list them, with all that is known in each case.
-/

namespace WasmEngine

namespace CodePage

/-- A page that the heap serves is blank and has the number that was asked for. -/
theorem allocate_eq_some {config : Config} {minLines : Nat} {sequence : UInt32} {heap heap' : Heap} {page : CodePage}
    (h : allocate config minLines sequence heap = (some page, heap')) : page.Blank ∧ page.sequence = sequence := by
  unfold allocate at h
  split at h
  · cases h
  split at h
  · cases h
  split at h
  · cases h
    exact ⟨⟨rfl, rfl, rfl⟩, rfl⟩
  · cases h

theorem blank_reset (page : CodePage) : page.reset.Blank :=
  ⟨rfl, rfl, rfl⟩

end CodePage

namespace CodeArea

/-- The pages of the pool and of a machine. -/
def pages (area : CodeArea) : List CodePage :=
  area.env.pool.batches.flatten ++ area.code.pages.toList

/-- The area after a page was added to its store and held. -/
def adopt (area : CodeArea) (page : CodePage) : CodeArea :=
  { area with code := (area.code.insert page).2.hold (area.code.insert page).1 }

/-- A page that is adopted is one more page, in whatever depends on neither links nor users. -/
theorem map_pages_adopt {α : Type} (f : CodePage → α) (hf : ∀ page, f page.bare = f page) (area : CodeArea)
    (page : CodePage) : (area.adopt page).pages.map f = area.pages.map f ++ [f page] := by
  have hheld := (CodeStore.sameCode_hold (area.code.insert page).2 (area.code.insert page).1).map_eq f hf
  have hcode : (area.adopt page).code.pages.toList.map f = area.code.pages.toList.map f ++ [f page] := by
    simpa [adopt, CodeStore.insert] using hheld
  change (area.env.pool.batches.flatten ++ (area.adopt page).code.pages.toList).map f = _
  rw [List.map_append, hcode, ← List.append_assoc, ← List.map_append]
  rfl

/-- The four ways in which acquiring a page can go. -/
inductive Acquired (minLines : Nat) (area : CodeArea) : EStateM.Result Error CodeArea Nat → Prop where
  /-- The open chain has a page with enough room. -/
  | opened {id : Nat} {code : CodeStore} (htake : area.code.takeOpen minLines = some (id, code)) :
      Acquired minLines area (.ok id { area with code := code.hold id })
  /-- The pool has one. -/
  | pooled {page : CodePage} {pool : PagePool} (hopen : area.code.takeOpen minLines = none)
      (htake : area.env.pool.take minLines = some (page, pool)) :
      Acquired minLines area (.ok area.code.pages.size (adopt { area with env := { area.env with pool } } page))
  /-- The heap serves a new one. -/
  | served {page : CodePage} {heap : Heap} (hopen : area.code.takeOpen minLines = none)
      (hpool : area.env.pool.take minLines = none)
      (halloc : CodePage.allocate area.env.config minLines (UInt32.ofNat area.env.pagesAsked) area.env.heap =
        (some page, heap)) :
      Acquired minLines area (.ok area.code.pages.size
        (adopt { area with
          env := { area.env with
            heap
            pagesAsked := area.env.pagesAsked + 1
            pagesServed := page.sequence :: area.env.pagesServed } } page))
  /-- The heap does not serve a new one. -/
  | refused {heap : Heap} (hopen : area.code.takeOpen minLines = none)
      (hpool : area.env.pool.take minLines = none)
      (halloc : CodePage.allocate area.env.config minLines (UInt32.ofNat area.env.pagesAsked) area.env.heap =
        (none, heap)) :
      Acquired minLines area (.error .outOfCodePages
        { area with env := { area.env with heap, pagesAsked := area.env.pagesAsked + 1 } })

theorem acquired (minLines : Nat) (area : CodeArea) : Acquired minLines area (acquire minLines area) := by
  unfold acquire
  cases hopen : area.code.takeOpen minLines with
  | some taken =>
    obtain ⟨id, code⟩ := taken
    exact .opened hopen
  | none =>
    simp only [Environment.obtainPage]
    cases hpool : area.env.pool.take minLines with
    | some taken =>
      obtain ⟨page, pool⟩ := taken
      exact .pooled hopen hpool
    | none =>
      rcases halloc : CodePage.allocate area.env.config minLines (UInt32.ofNat area.env.pagesAsked) area.env.heap
        with ⟨served, heap⟩
      cases served with
      | some page => exact .served hopen hpool halloc
      | none => exact .refused hopen hpool halloc

/-- The ways in which giving a function its entry can go. -/
inductive Compiled (module : Module) (function : Nat) (area : CodeArea) :
    EStateM.Result Error CodeArea CodeRef → Prop where
  /-- There is no such function. -/
  | unknown (hfunc : module.functions[function]? = none) :
      Compiled module function area (.error .functionIndexOutOfRange area)
  /-- The function has its entry already. -/
  | present {func : Func} {entry : CodeRef} (hfunc : module.functions[function]? = some func)
      (hcode : func.code = some entry) : Compiled module function area (.ok entry area)
  /-- The function is an import that is not linked. -/
  | unlinked {func : Func} (hfunc : module.functions[function]? = some func) (hcode : func.code = none)
      (himport : func.isImport = true) : Compiled module function area (.error .missingCode area)
  /-- There is no page to compile the function onto. -/
  | refused {func : Func} {error : Error} {area' : CodeArea} (hfunc : module.functions[function]? = some func)
      (hcode : func.code = none) (himport : func.isImport = false)
      (hacquire : acquire area.env.config.freeLineThreshold area = .error error area') :
      Compiled module function area (.error error area')
  /-- The compiler fails. -/
  | failed {func : Func} {error : Error} {area' : CodeArea} {page : Nat} {state : CompileState}
      (hfunc : module.functions[function]? = some func) (hcode : func.code = none) (himport : func.isImport = false)
      (hacquire : acquire area.env.config.freeLineThreshold area = .ok page area')
      (hcompile : area'.compile page (area'.env.host.compiler.function module function) = (.error error, state)) :
      Compiled module function area (.error error (state.area.release state.page))
  /-- The function is compiled. -/
  | done {func : Func} {area' : CodeArea} {page : Nat} {state : CompileState}
      (hfunc : module.functions[function]? = some func) (hcode : func.code = none) (himport : func.isImport = false)
      (hacquire : acquire area.env.config.freeLineThreshold area = .ok page area')
      (hcompile : area'.compile page (area'.env.host.compiler.function module function) = (.ok (), state)) :
      Compiled module function area (.ok state.entry (state.area.release state.page))

theorem compiled (module : Module) (function : Nat) (area : CodeArea) :
    Compiled module function area (compileFunction module function area) := by
  unfold compileFunction
  cases hfunc : module.functions[function]? with
  | none => exact .unknown hfunc
  | some func =>
    dsimp only
    cases hcode : func.code with
    | some entry => exact .present hfunc hcode
    | none =>
      cases himport : func.isImport with
      | true => exact .unlinked hfunc hcode himport
      | false =>
        simp only [Bool.false_eq_true, if_false]
        change Compiled module function area (EStateM.bind (acquire area.env.config.freeLineThreshold) _ area)
        unfold EStateM.bind
        cases hacquire : acquire area.env.config.freeLineThreshold area with
        | error error area' => exact .refused hfunc hcode himport hacquire
        | ok page area' =>
          rcases hcompile : area'.compile page (area'.env.host.compiler.function module function)
            with ⟨result, state⟩
          simp only [run_get_bind, run_set_bind, hcompile]
          cases result with
          | error error => exact .failed hfunc hcode himport hacquire hcompile
          | ok done => exact .done hfunc hcode himport hacquire hcompile

/-- The ways in which installing the call of a host function can go. -/
inductive Installed (link : HostLink) (area : CodeArea) : EStateM.Result Error CodeArea CodeRef → Prop where
  /-- There is no page for it. -/
  | refused {error : Error} {area' : CodeArea} (hacquire : acquire link.lines.length area = .error error area') :
      Installed link area (.error error area')
  /-- The page is full before all lines are written. -/
  | failed {error : Error} {area' : CodeArea} {page : Nat} {code : CodeStore}
      (hacquire : acquire link.lines.length area = .ok page area')
      (hemit : area'.code.emitAll page link.lines = (.error error, code)) :
      Installed link area (.error error (CodeArea.release { area' with code } page))
  /-- The call is installed. -/
  | done {area' : CodeArea} {page : Nat} {code : CodeStore}
      (hacquire : acquire link.lines.length area = .ok page area')
      (hemit : area'.code.emitAll page link.lines = (.ok (), code)) :
      Installed link area (.ok (area'.code.pc page) (CodeArea.release { area' with code } page))

theorem installed (link : HostLink) (area : CodeArea) : Installed link area (install link area) := by
  unfold install
  change Installed link area (EStateM.bind (acquire link.lines.length) _ area)
  unfold EStateM.bind
  cases hacquire : acquire link.lines.length area with
  | error error area' => exact .refused hacquire
  | ok page area' =>
    rcases hemit : area'.code.emitAll page link.lines with ⟨result, code⟩
    simp only [run_get_bind, run_set_bind, hemit]
    cases result with
    | error error => exact .failed hacquire hemit
    | ok done => exact .done hacquire hemit

end CodeArea

end WasmEngine
