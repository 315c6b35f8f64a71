import WasmEngine.Module.Decode
import WasmEngine.Proofs.Programs

/-!
# What all sections have in common

Sections are put together from a few kinds of steps (`Decode.Plain`, `Decode.Closed`, `Decode.Total`). A property of
programs that has all these steps holds of every section.
-/

namespace WasmEngine

/-- What decoding settles about a function: its import, its body and its entry. -/
structure Func.Facet where
  isImport : Bool
  hasBody : Bool
  code : Option CodeRef

namespace Func

def facet (func : Func) : Facet :=
  ⟨func.isImport, func.body.isSome, func.code⟩

namespace Facet

def imported : Facet :=
  ⟨true, false, none⟩

def declared : Facet :=
  ⟨false, false, none⟩

def waits (facet : Facet) : Bool :=
  !facet.isImport && !facet.hasBody

def fill (facet : Facet) : Facet :=
  { facet with hasBody := true }

end Facet

/-- Naming a function leaves its facet and its type alone. -/
theorem facet_nameIfAnonymous (func : Func) (name : String) :
    (func.nameIfAnonymous name).facet = func.facet ∧ (func.nameIfAnonymous name).type = func.type := by
  unfold nameIfAnonymous
  split <;> exact ⟨rfl, rfl⟩

end Func

namespace Module

variable {change : Func → Func}

def facets (module : Module) : List Func.Facet :=
  module.functions.toList.map Func.facet

theorem facets_push (module : Module) (func : Func) :
    facets { module with functions := module.functions.push func } = module.facets ++ [func.facet] := by
  simp [facets]

/-- What is seen of the functions after one was changed. -/
theorem map_updateFunction {α : Type} (module : Module) (index : Nat) {view : Func → α}
    (change' : α → α) (h : ∀ func, view (change func) = change' (view func)) :
    (module.updateFunction index change).functions.toList.map view =
      (module.functions.toList.map view).modify index change' := by
  refine List.ext_getElem? fun other => ?_
  simp only [updateFunction, Array.toList_modify, List.getElem?_map, List.getElem?_modify]
  cases module.functions.toList[other]? with
  | none => rfl
  | some func =>
    by_cases hindex : index = other
    · simp [hindex, h]
    · simp [hindex]

theorem facets_updateFunction (module : Module) (index : Nat) (change' : Func.Facet → Func.Facet)
    (h : ∀ func, (change func).facet = change' func.facet) :
    (module.updateFunction index change).facets = module.facets.modify index change' :=
  module.map_updateFunction index change' h

theorem facets_named (module : Module) (index : Nat)
    (h : ∀ func, (change func).facet = func.facet) : (module.updateFunction index change).facets = module.facets := by
  rw [facets_updateFunction module index id h, List.modify_id]

/-- The handles of types that a module has: those that it lists, and those of its functions. -/
def handles (module : Module) : List TypeHandle :=
  module.types.toList ++ module.functions.toList.map Func.type

theorem handles_updateFunction (module : Module) (index : Nat)
    (h : ∀ func, (change func).type = func.type) : (module.updateFunction index change).handles = module.handles := by
  have hfunctions := module.map_updateFunction index id h
  rw [List.modify_id] at hfunctions
  unfold handles
  rw [hfunctions]
  rfl

end Module

/-! ## Sections -/

namespace Decode

/-- A property of the steps of decoding that leave the functions alone, and of what is put together from them. -/
structure Plain (holds : (α : Type) → Decode α → Prop) : Prop where
  pure : ∀ {α : Type} (value : α), holds α (pure value)
  throw : ∀ {α : Type} (error : Error), holds α (throw error)
  bind : ∀ {α β : Type} {first : Decode α} {second : α → Decode β}, holds α first →
    (∀ value, holds β (second value)) → holds β (first >>= second)
  read : ∀ {α : Type} (program : Read α), holds α (read program)
  pushType : ∀ type : FuncType, holds Unit (draft (Draft.pushType type))
  pushGlobal : ∀ global : Global, holds Unit (do let _ ← draft (Draft.pushGlobal global))
  edit : ∀ {change : Module → Module},
    (∀ module, (change module).types = module.types ∧ (change module).functions = module.functions ∧
      (change module).table = module.table) → holds Unit (draft (Draft.edit change))
  /-- A function has to exist. -/
  require : ∀ index : Nat, holds Unit (draft (Draft.updateFunction index id))

/-- A property that holds also of the steps that add imports and name functions. -/
structure Closed (holds : (α : Type) → Decode α → Prop) : Prop extends Plain holds where
  /-- Goes on with other bytes. -/
  input : ∀ bytes : List UInt8, holds PUnit (modify fun state => { state with input := .ofBytes bytes })
  pushImport : ∀ (index : Nat) (name : ImportName), holds Unit (do
    let handle ← draft (Draft.typeAt index)
    let _ ← draft (Draft.pushFunction (.ofImport handle name)))
  giveName : ∀ (index : Nat) (name : String),
    holds Unit (draft (Draft.edit fun module => module.updateFunction index (·.nameIfAnonymous name)))
  /-- Names a function that has to exist. -/
  exportName : ∀ (index : Nat) (name : String), holds Unit (draft (Draft.updateFunction index (·.nameIfAnonymous name)))

/-- A property that holds also of the steps that declare functions and give them bodies. -/
structure Total (holds : (α : Type) → Decode α → Prop) : Prop extends Closed holds where
  /-- Goes on with the bytes at hand and the functions that wait. -/
  look : ∀ {α : Type} {next : Decoding → Decode α}, (∀ state, holds α (next state)) →
    (∀ state state', state.input = state'.input → state.pending = state'.pending → next state = next state') →
      holds α (get >>= next)
  declare : ∀ index : Nat, holds Unit (do
    let handle ← draft (Draft.typeAt index)
    let function ← draft (Draft.pushFunction (.declared handle))
    modify fun state => { state with pending := state.pending ++ [function] })
  forget : holds PUnit (modify fun state => { state with pending := [] })
  fill : ∀ (function numLocals : Nat) (body : List UInt8),
    holds Unit (draft (Draft.updateFunction function fun func => { func with numLocals, body := some body }))

variable {holds : (α : Type) → Decode α → Prop}

namespace Plain

variable (h : Plain holds)

theorem ite {α : Type} (_ : Plain holds) (condition : Prop) [Decidable condition] {first second : Decode α}
    (hfirst : holds α first) (hsecond : holds α second) : holds α (if condition then first else second) := by
  split
  · exact hfirst
  · exact hsecond

include h

theorem check {α : Type} (result : Except Error α) : holds α (check result) := by
  cases result with
  | ok value => exact h.pure value
  | error error => exact h.throw error

theorem times {step : Decode Unit} (hstep : holds Unit step) (count : Nat) : holds Unit (times step count) := by
  induction count with
  | zero => exact h.pure _
  | succ count ih => exact h.bind hstep fun _ => ih

theorem vector {step : Decode Unit} (hstep : holds Unit step) : holds Unit (vector step) :=
  h.bind (h.read _) fun _ => h.times hstep _

theorem memorySection : holds Unit memorySection := by
  refine h.bind (h.read _) fun count => h.ite _ ?_ (h.pure _)
  refine h.bind (h.read _) fun _ => h.bind (h.edit fun _ => ⟨rfl, rfl, rfl⟩) fun _ => ?_
  exact h.times (h.bind (h.read _) fun _ => h.pure _) _

/-- Sections other than custom sections, imports, functions, exports and code. -/
theorem sectionBody (config : Config) {id : UInt8} (hcustom : id ≠ 0) (himports : id ≠ 2) (hfunctions : id ≠ 3)
    (hexports : id ≠ 7) (hcode : id ≠ 10) : holds Unit (sectionBody config id) := by
  have hpass {α : Type} (program : Read α) : holds Unit (do let _ ← Decode.read program) :=
    h.bind (h.read program) fun _ => h.pure _
  have hdata : holds Unit dataEntry :=
    h.bind (h.read _) fun _ => h.bind (h.read _) fun _ => h.bind (h.read _) fun _ => h.edit fun _ => ⟨rfl, rfl, rfl⟩
  have hglobal : holds Unit globalEntry := h.bind (h.read _) fun _ => h.bind (h.read _) fun _ => h.pushGlobal _
  have hstart : holds Unit startSection :=
    h.bind (h.read _) fun _ => h.bind (h.require _) fun _ => h.edit fun _ => ⟨rfl, rfl, rfl⟩
  have helements : holds Unit elementSection :=
    h.bind (h.read _) fun _ => h.bind (h.read _) fun _ => h.edit fun _ => ⟨rfl, rfl, rfl⟩
  unfold Decode.sectionBody
  rw [if_neg hcustom, if_neg himports, if_neg hfunctions, if_neg hexports, if_neg hcode]
  refine h.ite _ (h.vector (h.bind (h.read _) fun _ => h.pushType _)) ?_
  refine h.ite _ (hpass _) ?_
  refine h.ite _ h.memorySection ?_
  refine h.ite _ (h.vector hglobal) ?_
  refine h.ite _ hstart ?_
  refine h.ite _ helements ?_
  refine h.ite _ (h.vector hdata) ?_
  exact h.ite _ (hpass _) (h.throw _)

theorem bodies (hfill : ∀ (function numLocals : Nat) (body : List UInt8),
      holds Unit (draft (Draft.updateFunction function fun func => { func with numLocals, body := some body })))
    (functions : List Nat) : holds Unit (bodies functions) := by
  induction functions with
  | nil => exact h.pure _
  | cons function functions ih =>
    refine h.bind (h.read _) fun payload => ?_
    split
    · exact h.throw _
    · exact h.bind (hfill _ _ _) fun _ => ih

end Plain

namespace Closed

variable (h : Closed holds)

include h

theorem frames {step : Frame → Decode Unit} (hstep : ∀ frame, holds Unit (step frame)) (fault : Option Error)
    (list : List Frame) : holds Unit (frames step fault list) := by
  induction list with
  | nil =>
    cases fault with
    | none => exact h.pure _
    | some error => exact h.throw error
  | cons frame list ih => exact h.bind (hstep frame) fun _ => ih

theorem importEntry (textLimit : Nat) : holds Unit (importEntry textLimit) := by
  refine h.bind (h.read _) fun module => h.bind (h.read _) fun field => ?_
  refine h.bind (h.read _) fun byte => h.bind (h.check _) fun kind => ?_
  cases kind with
  | function => exact h.bind (h.read _) fun index => h.pushImport index.toNat ⟨module, field⟩
  | table => exact h.bind (h.read _) fun _ => h.bind (h.read _) fun _ => h.pure _
  | memory => exact h.bind (h.read _) fun _ => h.edit fun _ => ⟨rfl, rfl, rfl⟩
  | global => exact h.bind (h.read _) fun _ => h.pushGlobal _

theorem exportEntry (textLimit : Nat) : holds Unit (exportEntry textLimit) := by
  refine h.bind (h.read _) fun name => h.bind (h.read _) fun kind => h.bind (h.read _) fun index => ?_
  refine h.bind (h.check _) fun kind => ?_
  cases kind with
  | function => exact h.exportName index.toNat name
  | _ => exact h.pure _

theorem namePart (textLimit : Nat) (part : Frame) : holds Unit (namePart textLimit part) := by
  refine h.ite _ (h.bind (h.input _) fun _ => h.vector ?_) (h.pure _)
  exact h.bind (h.read _) fun index => h.bind (h.read _) fun name => h.giveName index.toNat name

theorem customSection (textLimit : Nat) : holds Unit (customSection textLimit) := by
  refine h.bind (h.read _) fun name => h.bind (h.read _) fun bytes => h.ite _ ?_ (h.pure _)
  exact h.bind (h.frames (h.namePart textLimit) _ _) fun _ => h.input _

/-- Sections other than the function section and the code section. -/
theorem sectionBody (config : Config) {id : UInt8} (hfunctions : id ≠ 3) (hcode : id ≠ 10) :
    holds Unit (sectionBody config id) := by
  by_cases hcustom : id = 0
  · subst hcustom
    exact h.customSection _
  by_cases himports : id = 2
  · subst himports
    exact h.vector (h.importEntry _)
  by_cases hexports : id = 7
  · subst hexports
    exact h.vector (h.exportEntry _)
  exact h.toPlain.sectionBody config hcustom himports hfunctions hexports hcode

end Closed

namespace Total

variable (h : Total holds)

include h

theorem sectionBody (config : Config) (id : UInt8) : holds Unit (sectionBody config id) := by
  have hfilled (functions : List Nat) : holds Unit (do
      modify fun state => { state with pending := [] }
      bodies functions) :=
    h.bind h.forget fun _ => h.bodies h.fill functions
  by_cases hfunctions : id = 3
  · subst hfunctions
    exact h.vector (h.bind (h.read _) fun index => h.declare index.toNat)
  by_cases hcode : id = 10
  · subst hcode
    refine h.bind (h.read _) fun count => h.look (fun state => ?_) fun _ _ _ hpending => by rw [hpending]
    exact h.ite _ (h.bind (h.throw _) fun _ => hfilled _) (hfilled _)
  exact h.toClosed.sectionBody config hfunctions hcode

theorem framedSection (config : Config) (frame : Frame) : holds Unit (framedSection config frame) := by
  refine h.bind (h.input _) fun _ => h.bind (h.sectionBody config frame.id) fun _ => ?_
  exact h.look (fun _ => h.ite _ (h.throw _) (h.pure _)) fun _ _ hinput _ => by rw [hinput]

/-- All sections, one after the other. -/
theorem sections (config : Config) (fault : Option Error) (list : List Frame) :
    holds Unit (Decode.frames (Decode.framedSection config) fault list) :=
  h.frames (h.framedSection config) fault list

end Total

/-! ## Relations between drafts -/

variable {α β : Type}

theorem draft_bind (first : Drafting α) (second : α → Drafting β) :
    draft (first >>= second) = draft first >>= fun value => draft (second value) := by
  funext state
  cases hfirst : first state.draft with
  | ok value next =>
    have hdraft : draft first state = .ok value { state with draft := next } := by
      unfold draft
      rw [hfirst]
    rw [run_bind_of_ok hdraft]
    unfold draft
    rw [run_bind_of_ok hfirst]
  | error error next =>
    have hdraft : draft first state = .error error { state with draft := next } := by
      unfold draft
      rw [hfirst]
    rw [run_bind_of_error hdraft]
    unfold draft
    rw [run_bind_of_error hfirst]

variable {rel : Decoding → Decoding → Prop} {relDraft : Draft → Draft → Prop}

theorem keeps_read (h : ∀ state input, rel state { state with input }) (program : Read α) :
    Keeps rel (read program) := by
  intro state
  unfold read
  split <;> exact h state _

theorem keeps_draft (h : ∀ state draft', relDraft state.draft draft' → rel state { state with draft := draft' })
    {step : Drafting α} (hstep : Keeps relDraft step) : Keeps rel (draft step) := by
  intro state
  have hrun := hstep state.draft
  unfold draft
  cases hresult : step state.draft with
  | ok value draft' =>
    rw [hresult] at hrun
    exact h state draft' hrun
  | error error draft' =>
    rw [hresult] at hrun
    exact h state draft' hrun

instance [Std.Refl relDraft] : Std.Refl (InvImage relDraft Decoding.draft) where
  refl state := Std.Refl.refl state.draft

instance [IsTrans Draft relDraft] : IsTrans Decoding (InvImage relDraft Decoding.draft) where
  trans _ _ _ first second := IsTrans.trans (r := relDraft) _ _ _ first second

/-- A relation between drafts is kept by all sections, if it is kept where types and functions of listed types are
added, and by changes that leave the types and the table alone. -/
theorem keeps_total [Std.Refl relDraft] [IsTrans Draft relDraft]
    (hpushType : ∀ type, Keeps relDraft (Draft.pushType type))
    (hplace : ∀ (index : Nat) {make : TypeHandle → Func}, (∀ handle, (make handle).type = handle) →
      Keeps relDraft (do Draft.pushFunction (make (← Draft.typeAt index)) : Drafting Nat))
    (hedit : ∀ {change : Module → Module}, (∀ module, (change module).types = module.types ∧
      (change module).handles = module.handles ∧ (change module).table = module.table) →
        Keeps relDraft (Draft.edit change)) :
    Total fun _ program => Keeps (InvImage relDraft Decoding.draft) program := by
  have hdraft {α : Type} {step : Drafting α} (hstep : Keeps relDraft step) :
      Keeps (InvImage relDraft Decoding.draft) (draft step) :=
    keeps_draft (fun _ _ hrel => hrel) hstep
  have hplaced (index : Nat) {make : TypeHandle → Func} (hmake : ∀ handle, (make handle).type = handle)
      {next : Nat → Decode Unit} (hnext : ∀ function, Keeps (InvImage relDraft Decoding.draft) (next function)) :
      Keeps (InvImage relDraft Decoding.draft) (do
        let handle ← draft (Draft.typeAt index)
        let function ← draft (Draft.pushFunction (make handle))
        next function) := by
    have hboth := (hdraft (hplace index hmake)).bind hnext
    rwa [draft_bind, bind_assoc] at hboth
  have hupdate (index : Nat) {change : Func → Func} (hchange : ∀ func, (change func).type = func.type) :
      Keeps relDraft (Draft.updateFunction index change) :=
    .bind .get fun _ => .ite _ (hedit fun module => ⟨rfl, module.handles_updateFunction index hchange, rfl⟩) (.throw _)
  have hstate {change : Decoding → Decoding} (hchange : ∀ state, (change state).draft = state.draft) :
      Keeps (InvImage relDraft Decoding.draft) (modify change : Decode PUnit) := by
    refine .modify fun state => ?_
    unfold InvImage
    rw [hchange]
    exact Std.Refl.refl state.draft
  exact
    { pure := .pure
      throw := .throw
      bind := .bind
      read := keeps_read fun state _ => Std.Refl.refl state.draft
      input := fun _ => hstate fun _ => rfl
      pushType := fun type => hdraft (hpushType type)
      pushImport := fun index _ => hplaced index (fun _ => rfl) fun _ => .pure _
      pushGlobal := fun _ => .bind (hdraft (.bind .get fun _ => .bind (hedit fun _ => ⟨rfl, rfl, rfl⟩) fun _ => .pure _))
        fun _ => .pure _
      edit := fun hchange => hdraft (hedit fun module => by
        obtain ⟨htypes, hfunctions, htable⟩ := hchange module
        simp only [Module.handles, htypes, hfunctions, htable, and_self])
      require := fun index => hdraft (hupdate index fun _ => rfl)
      giveName := fun index name => hdraft (hedit fun module =>
        ⟨rfl, module.handles_updateFunction index fun func => (func.facet_nameIfAnonymous name).2, rfl⟩)
      exportName := fun index name => hdraft (hupdate index fun func => (func.facet_nameIfAnonymous name).2)
      look := fun hnext _ => .bind .get hnext
      declare := fun index => hplaced index (fun _ => rfl) fun _ => hstate fun _ => rfl
      forget := hstate fun _ => rfl
      fill := fun index _ _ => hdraft (hupdate index fun _ => rfl) }

end Decode

end WasmEngine
