import WasmEngine.Proofs.Module.Bodies

/-!
# Display names

What a binary module says about its functions is a list of notices in the order of the bytes (`Binary.notices`):
functions are declared, as imports or not, and get names from exports and from the name section. Decoding heeds them
one after the other (`Decode.Heeds`).
-/

namespace WasmEngine

/-! ## Notices -/

/-- What an entry of a section says about functions. -/
inductive Notice where
  /-- The next function is an import. -/
  | imported (name : ImportName)
  /-- The next function is one that the module defines. -/
  | defined
  /-- A function has a name. -/
  | named (function : Nat) (name : String)
  deriving DecidableEq

namespace Notice

/-- The name that a notice gives to a function. -/
def nameOf? (function : Nat) : Notice → Option String
  | .named other name => if other = function then some name else none
  | _ => none

/-- The functions that are declared, in their order, each with the notices that come after it. -/
def declarations : List Notice → List (Option ImportName × List Notice)
  | [] => []
  | .imported name :: later => (some name, later) :: declarations later
  | .defined :: later => (none, later) :: declarations later
  | .named _ _ :: later => declarations later

/-- The name of a function: of an import the field, of any other the first name that is given to it. -/
def display (function : Nat) (imported : Option ImportName) (later : List Notice) : Option String :=
  match imported with
  | some name => some name.field
  | none => later.findSome? (nameOf? function)

end Notice

namespace Binary

/-- Reads as many entries as the number in front of them says. -/
def entryNotices (entry : Read (List Notice)) : Read (List Notice) := do
  let count ← Reader.varU32
  let entries ← many entry count.toNat
  return entries.flatten

/-- An import. Only functions are declared by it. -/
def importNotices (textLimit : Nat) : Read (List Notice) := do
  let module ← Reader.text textLimit
  let field ← Reader.text textLimit
  let kind ← Reader.byte
  if kind = 0 then
    let _ ← Reader.varU32
    return [.imported ⟨module, field⟩]
  else if kind = 1 then
    let _ ← Reader.byte
    let _ ← limits
    return []
  else if kind = 2 then
    let _ ← limits
    return []
  else
    let _ ← globalType
    return []

/-- A function that the module defines. -/
def functionNotices : Read (List Notice) := do
  let _ ← Reader.varU32
  return [.defined]

/-- An export. Only functions are named by it. -/
def exportNotices (textLimit : Nat) : Read (List Notice) := do
  let name ← Reader.text textLimit
  let kind ← Reader.byte
  let index ← Reader.varU32
  return if kind = 0 then [.named index.toNat name] else []

/-- A function name of the name section. -/
def functionNameNotices (textLimit : Nat) : Read (List Notice) := do
  let index ← Reader.varU32
  let name ← Reader.text textLimit
  return [.named index.toNat name]

/-- What is read at the front of some bytes. -/
def noticesAt (reader : Read (List Notice)) (bytes : List UInt8) : List Notice :=
  match reader (Reader.ofBytes bytes) with
  | .ok notices _ => notices
  | .error _ _ => []

/-- A part of the name section; the part with number 1 names functions. -/
def partNotices (textLimit : Nat) (part : Frame) : List Notice :=
  if part.id = 1 then noticesAt (entryNotices (functionNameNotices textLimit)) part.payload else []

/-- A custom section. One with the name "name" is the name section. -/
def customNotices (textLimit : Nat) : Read (List Notice) := do
  let name ← Reader.text textLimit
  let bytes ← Reader.remaining
  return if name = "name" then (Frame.split bytes).1.flatMap (partNotices textLimit) else []

/-- The notices of a section. Custom sections, imports, functions and exports have some. -/
def sectionNotices (textLimit : Nat) (frame : Frame) : List Notice :=
  if frame.id = 0 then noticesAt (customNotices textLimit) frame.payload
  else if frame.id = 2 then noticesAt (entryNotices (importNotices textLimit)) frame.payload
  else if frame.id = 3 then noticesAt (entryNotices functionNotices) frame.payload
  else if frame.id = 7 then noticesAt (entryNotices (exportNotices textLimit)) frame.payload
  else []

/-- The notices of a binary module, section by section behind the header. -/
def notices (textLimit : Nat) (bytes : List UInt8) : List Notice :=
  (Frame.split (bytes.drop Form.header.length)).1.flatMap (sectionNotices textLimit)

end Binary

/-! ## Nameplates -/

/-- What the name of a function depends on. -/
structure Nameplate where
  imported : Option ImportName
  label : FuncName

namespace Nameplate

/-- The plate of a function that was just declared. -/
def blank (imported : Option ImportName) : Nameplate :=
  ⟨imported, if imported.isSome then .importField else .anonymous⟩

def name (plate : Nameplate) : Option String :=
  match plate.label with
  | .anonymous => none
  | .given name => some name
  | .importField => plate.imported.map ImportName.field

/-- The plate after the function is given a name. -/
def give (plate : Nameplate) (name : String) : Nameplate :=
  if plate.label = .anonymous then { plate with label := .given name } else plate

/-- The plate after the function is given the first one of some names, if there is one. -/
def giveFirst (plate : Nameplate) (name : Option String) : Nameplate :=
  name.elim plate plate.give

/-- Of two names the first one counts. -/
theorem give_giveFirst (plate : Nameplate) (name : String) (later : Option String) :
    (plate.give name).giveFirst later = plate.give name := by
  cases later with
  | none => rfl
  | some other =>
    change (plate.give name).give other = plate.give name
    unfold give
    split <;> simp_all

theorem imported_giveFirst (plate : Nameplate) (name : Option String) :
    (plate.giveFirst name).imported = plate.imported := by
  cases name with
  | none => rfl
  | some name =>
    change (plate.give name).imported = plate.imported
    unfold give
    split <;> rfl

theorem name_giveFirst_blank (function : Nat) (imported : Option ImportName) (later : List Notice) :
    ((blank imported).giveFirst (later.findSome? (Notice.nameOf? function))).name =
      Notice.display function imported later := by
  cases imported with
  | none =>
    cases h : later.findSome? (Notice.nameOf? function) <;> simp [blank, giveFirst, give, name, Notice.display, h]
  | some field => cases later.findSome? (Notice.nameOf? function) <;> rfl

/-- What a notice does to the plates of the functions that were declared. -/
def post (plates : List Nameplate) : Notice → List Nameplate
  | .imported name => plates ++ [blank (some name)]
  | .defined => plates ++ [blank none]
  | .named function name => plates.modify function (·.give name)

end Nameplate

namespace Notice

open Nameplate

/-- The plate of a function in the end, if notices come after some functions were declared. -/
def plateOf (notices : List Notice) (plates : List Nameplate) (function : Nat) : Option Nameplate :=
  if function < plates.length then plates[function]?.map (·.giveFirst (notices.findSome? (nameOf? function)))
  else (declarations notices)[function - plates.length]?.map fun declared =>
    (blank declared.1).giveFirst (declared.2.findSome? (nameOf? function))

/-- A declaration puts up a plate. -/
theorem plateOf_append (imported : Option ImportName) (later : List Notice) (plates : List Nameplate) (function : Nat) :
    plateOf later (plates ++ [blank imported]) function =
      if function < plates.length then plates[function]?.map (·.giveFirst (later.findSome? (nameOf? function)))
      else ((imported, later) :: declarations later)[function - plates.length]?.map fun declared =>
        (blank declared.1).giveFirst (declared.2.findSome? (nameOf? function)) := by
  unfold plateOf
  rw [List.length_append, List.length_singleton]
  rcases Nat.lt_trichotomy function plates.length with hlt | rfl | hgt
  · rw [if_pos (Nat.lt_succ_of_lt hlt), if_pos hlt, List.getElem?_append_left hlt]
  · simp
  · obtain ⟨more, rfl⟩ := Nat.exists_eq_add_of_lt hgt
    rw [if_neg (by omega), if_neg (by omega), Nat.add_assoc, Nat.add_sub_cancel_left, List.getElem?_cons_succ]
    congr 2
    omega

/-- A function gets the first name in the notices, or the first after its declaration if they declare it. -/
theorem getElem?_foldl_post (notices : List Notice) (plates : List Nameplate) (function : Nat) :
    (notices.foldl post plates)[function]? = plateOf notices plates function := by
  induction notices generalizing plates with
  | nil =>
    unfold plateOf
    split
    · exact (congrFun Option.map_id _).symm
    · rename_i hout
      rw [List.foldl_nil, List.getElem?_eq_none (Nat.not_lt.1 hout)]
      rfl
  | cons notice later ih =>
    rw [List.foldl_cons, ih]
    cases notice with
    | imported name => exact plateOf_append (some name) later plates function
    | defined => exact plateOf_append none later plates function
    | named other name =>
      unfold plateOf
      rw [post, List.length_modify, declarations]
      split
      · rw [List.getElem?_modify, Option.map_eq_map, Option.map_map]
        refine congrArg (Option.map · _) (funext fun plate => ?_)
        rw [Function.comp_apply]
        by_cases heq : other = function
        · have hname : nameOf? function (.named other name) = some name := if_pos heq
          rw [if_pos heq, List.findSome?_cons_of_isSome (by rw [hname]; rfl), hname]
          exact plate.give_giveFirst name _
        · have hname : nameOf? function (.named other name) = none := if_neg heq
          rw [if_neg heq, List.findSome?_cons_of_isNone (by rw [hname]; rfl)]
      · rfl

/-- From no functions on, each function that is declared has a plate. -/
theorem foldl_post_nil (notices : List Notice) :
    notices.foldl post [] = (declarations notices).mapIdx fun function declared =>
      (blank declared.1).giveFirst (declared.2.findSome? (nameOf? function)) := by
  refine List.ext_getElem? fun function => ?_
  rw [getElem?_foldl_post, List.getElem?_mapIdx]
  rfl

end Notice

/-! ## Decoding heeds the notices -/

def Func.plate (func : Func) : Nameplate :=
  ⟨func.imported, func.label⟩

theorem Func.plate_nameIfAnonymous (func : Func) (name : String) :
    (func.nameIfAnonymous name).plate = func.plate.give name := by
  unfold nameIfAnonymous Nameplate.give
  split <;> simp_all [plate]

namespace Module

def plates (module : Module) : List Nameplate :=
  module.functions.toList.map Func.plate

theorem plates_push (module : Module) (func : Func) :
    plates { module with functions := module.functions.push func } = module.plates ++ [func.plate] := by
  simp [plates]

theorem plates_updateFunction (module : Module) (index : Nat) {change : Func → Func} (change' : Nameplate → Nameplate)
    (h : ∀ func, (change func).plate = change' func.plate) :
    (module.updateFunction index change).plates = module.plates.modify index change' :=
  module.map_updateFunction index change' h

theorem plates_named (module : Module) (index : Nat) (name : String) :
    (module.updateFunction index (·.nameIfAnonymous name)).plates =
      [Notice.named index name].foldl Nameplate.post module.plates :=
  module.plates_updateFunction index _ fun func => func.plate_nameIfAnonymous name

end Module

namespace Decode

variable {α β : Type} {state state' : Decoding} {config : Config}

/-- A step of decoding that goes well has read some notices and done to the functions what they say. -/
def Heeds (program : Decode α) (reader : Read (List Notice)) : Prop :=
  ∀ ⦃state state' value⦄, program state = .ok value state' → ∃ notices,
    reader state.input = .ok notices state'.input ∧
      state'.draft.module.plates = notices.foldl Nameplate.post state.draft.module.plates

namespace Heeds

variable {reader : Read (List Notice)}

theorem read_bind {program : Read α} {next : α → Decode β} {reader : α → Read (List Notice)}
    (h : ∀ value, Heeds (next value) (reader value)) : Heeds (read program >>= next) (program >>= reader) := by
  intro state state' value hrun
  obtain ⟨found, between, hread, hnext⟩ := run_bind_eq_ok hrun
  obtain ⟨input, hinput, rfl⟩ := run_read_eq_ok hread
  obtain ⟨notices, hnotices, hplates⟩ := h found hnext
  exact ⟨notices, (run_bind_of_ok hinput).trans hnotices, hplates⟩

theorem pure (value : α) : Heeds (pure value : Decode α) (pure []) := by
  intro state state' found hrun
  cases hrun
  exact ⟨[], rfl, rfl⟩

theorem draft {step : Drafting α} {notices : List Notice}
    (h : ∀ draft draft' value, step draft = .ok value draft' →
      draft'.module.plates = notices.foldl Nameplate.post draft.module.plates) :
    Heeds (draft step) (Pure.pure notices) := by
  intro state state' value hrun
  obtain ⟨draft', hstep, rfl⟩ := run_draft_eq_ok hrun
  exact ⟨notices, rfl, h _ _ _ hstep⟩

theorem bind_pure {program : Decode α} (h : Heeds program reader) (f : α → β) :
    Heeds (program >>= fun value => Pure.pure (f value)) reader := by
  intro state state' value hrun
  obtain ⟨found, between, hprogram, hlast⟩ := run_bind_eq_ok hrun
  cases hlast
  exact h hprogram

/-- A check has no notices. -/
theorem check_bind {result : Except Error α} {next : α → Decode β}
    (h : ∀ value, result = .ok value → Heeds (next value) reader) : Heeds (check result >>= next) reader := by
  cases result with
  | ok value => exact h value rfl
  | error error =>
    intro state state' value hrun
    cases hrun

theorem times {step : Decode Unit} (h : Heeds step reader) (count : Nat) :
    Heeds (times step count) (do let entries ← Binary.many reader count; return entries.flatten) := by
  induction count with
  | zero => exact pure ()
  | succ count ih =>
    intro state state' value hrun
    obtain ⟨done, between, hstep, hrest⟩ := run_bind_eq_ok hrun
    obtain ⟨first, hfirst, hplates⟩ := h hstep
    obtain ⟨others, hothers, hplates'⟩ := ih hrest
    obtain ⟨entries, input, hmany, hlast⟩ := run_bind_eq_ok hothers
    cases hlast
    have hentries : Binary.many reader (count + 1) state.input = .ok (first :: entries) state'.input :=
      (run_bind_of_ok hfirst).trans (run_bind_of_ok hmany)
    refine ⟨first ++ entries.flatten, run_bind_of_ok hentries, ?_⟩
    rw [hplates', hplates, List.foldl_append]

theorem vector {step : Decode Unit} (h : Heeds step reader) :
    Heeds (vector step) (Binary.entryNotices reader) :=
  read_bind fun count => h.times count.toNat

end Heeds

/-- A function that is added is declared, whoever waits for a body then. -/
theorem heeds_declare (index : Nat) (notice : Notice) (func : TypeHandle → Func) (next : Nat → Decode Unit)
    (hplate : ∀ plates handle, Nameplate.post plates notice = plates ++ [(func handle).plate])
    (hnext : ∀ number state, ∃ pending, next number state = .ok () { state with pending }) :
    Heeds (do
      let handle ← draft (Draft.typeAt index)
      let number ← draft (Draft.pushFunction (func handle))
      next number) (Pure.pure [notice]) := by
  intro state state' value hrun
  obtain ⟨handle, between, htype, hrun⟩ := run_bind_eq_ok hrun
  obtain ⟨draft, hfound, rfl⟩ := run_draft_eq_ok htype
  cases Draft.typeAt_eq_ok hfound
  obtain ⟨number, between, hpush, hlast⟩ := run_bind_eq_ok hrun
  cases hpush
  obtain ⟨pending, hpending⟩ := hnext state.draft.module.functions.size
    { state with draft := { state.draft with
      module := { state.draft.module with functions := state.draft.module.functions.push (func handle) } } }
  cases hpending.symm.trans hlast
  refine ⟨[notice], rfl, ?_⟩
  rw [List.foldl_cons, List.foldl_nil, hplate _ handle]
  exact Module.plates_push _ _

/-- The byte that stands for a kind. -/
def ExternalKind.toByte : ExternalKind → UInt8
  | .function => 0
  | .table => 1
  | .memory => 2
  | .global => 3

theorem ExternalKind.eq_toByte {byte : UInt8} {kind : ExternalKind} (h : ofByte? byte = .ok kind) :
    byte = kind.toByte := by
  unfold ofByte? at h
  split at h
  · cases h; assumption
  split at h
  · cases h; assumption
  split at h
  · cases h; assumption
  split at h
  · cases h; assumption
  · cases h

theorem heeds_importEntry (textLimit : Nat) : Heeds (importEntry textLimit) (Binary.importNotices textLimit) := by
  refine .read_bind fun module => .read_bind fun field => .read_bind fun byte => .check_bind fun kind hkind => ?_
  cases ExternalKind.eq_toByte hkind
  cases kind with
  | function =>
    exact .read_bind fun index => heeds_declare index.toNat _ (.ofImport · ⟨module, field⟩) (fun _ => pure ())
      (fun _ _ => rfl) fun _ state => ⟨state.pending, rfl⟩
  | table => exact .read_bind fun _ => .read_bind fun _ => .pure _
  | memory => exact .read_bind fun limits => .draft (fun _ _ _ h => by cases h; rfl)
  | global => exact .read_bind fun type => .bind_pure (.draft (fun _ _ _ h => by cases h; rfl)) _

theorem heeds_functionEntry : Heeds functionEntry Binary.functionNotices :=
  .read_bind fun index => heeds_declare index.toNat _ .declared _ (fun _ _ => rfl) fun number state =>
    ⟨state.pending ++ [number], rfl⟩

theorem heeds_exportEntry (textLimit : Nat) : Heeds (exportEntry textLimit) (Binary.exportNotices textLimit) := by
  refine .read_bind fun name => .read_bind fun byte => .read_bind fun index => .check_bind fun kind hkind => ?_
  cases ExternalKind.eq_toByte hkind
  cases kind with
  | function =>
    refine .draft fun draft draft' _ h => ?_
    cases Draft.updateFunction_eq_ok h
    exact draft.module.plates_named index.toNat name
  | _ => exact .pure _

theorem heeds_functionNameEntry (textLimit : Nat) :
    Heeds (functionNameEntry textLimit) (Binary.functionNameNotices textLimit) := by
  refine .read_bind fun index => .read_bind fun name => .draft fun draft draft' _ h => ?_
  cases h
  exact draft.module.plates_named index.toNat name

/-! ### Sections without notices -/

/-- A program that leaves all plates as they are, whether it succeeds or fails. -/
abbrev Unnamed (program : Decode α) : Prop :=
  Keeps (Leaves fun state : Decoding => state.draft.module.plates) program

theorem unnamed_draft {step : Drafting α} (h : Keeps (Leaves fun draft : Draft => draft.module.plates) step) :
    Unnamed (draft step) :=
  keeps_draft (fun _ _ hstep => hstep) h

theorem unnamed_updateFunction (index : Nat) {change : Func → Func} (h : ∀ func, (change func).plate = func.plate) :
    Unnamed (draft (Draft.updateFunction index change)) := by
  refine unnamed_draft (.bind .get fun draft => .ite _ (.modify fun draft => ?_) (.throw _))
  have hplates := draft.module.plates_updateFunction index id h
  rwa [List.modify_id] at hplates

theorem unnamed_plain : Plain fun _ program => Unnamed program where
  pure := .pure
  throw := .throw
  bind := .bind
  read := keeps_read fun _ _ => rfl
  pushType _ := unnamed_draft (.modify fun _ => rfl)
  pushGlobal _ := .bind (unnamed_draft (.bind .get fun _ => .bind (.modify fun _ => rfl) fun _ => .pure _))
    fun _ => .pure _
  edit h := unnamed_draft (.modify fun draft => congrArg (Array.toList · |>.map Func.plate) (h draft.module).2.1)
  require index := unnamed_updateFunction index fun _ => rfl

theorem unnamed_codeSection : Unnamed codeSection := by
  have hfilled (functions : List Nat) : Unnamed (do
      modify fun state => { state with pending := [] }
      bodies functions) :=
    .bind (.modify fun _ => rfl) fun _ =>
      unnamed_plain.bodies (fun function _ _ => unnamed_updateFunction function fun _ => rfl) functions
  refine .bind (unnamed_plain.read _) fun count => .bind .get fun state => .ite _ ?_ (hfilled _)
  exact .bind (.throw _) fun _ => hfilled _

/-- Sections other than custom sections, imports, functions and exports leave the names alone. -/
theorem unnamed_sectionBody (config : Config) {id : UInt8} (hcustom : id ≠ 0) (himports : id ≠ 2) (hfunctions : id ≠ 3)
    (hexports : id ≠ 7) : Unnamed (sectionBody config id) := by
  by_cases hcode : id = 10
  · subst hcode
    exact unnamed_codeSection
  · exact unnamed_plain.sectionBody config hcustom himports hfunctions hexports hcode

/-! ### All sections -/

/-- What was read at the front of some bytes has been done. -/
theorem Heeds.noticesAt {program : Decode α} {reader : Read (List Notice)} (h : Heeds program reader)
    {bytes : List UInt8} {value : α} (hrun : program { state with input := .ofBytes bytes } = .ok value state') :
    state'.draft.module.plates = (Binary.noticesAt reader bytes).foldl Nameplate.post state.draft.module.plates := by
  obtain ⟨notices, hread, hplates⟩ := h hrun
  rw [hplates, Binary.noticesAt, hread]

/-- If every frame does what its notices say, so do all frames together. -/
theorem plates_frames {step : Frame → Decode Unit} {noticesOf : Frame → List Notice}
    (hstep : ∀ frame state state', step frame state = .ok () state' →
      state'.draft.module.plates = (noticesOf frame).foldl Nameplate.post state.draft.module.plates)
    {fault : Option Error} {list : List Frame} (hrun : frames step fault list state = .ok () state') :
    state'.draft.module.plates = (list.flatMap noticesOf).foldl Nameplate.post state.draft.module.plates := by
  induction list generalizing state with
  | nil =>
    cases fault with
    | none =>
      cases hrun
      rfl
    | some error => cases hrun
  | cons frame list ih =>
    obtain ⟨done, between, hframe, hrest⟩ := run_bind_eq_ok hrun
    rw [ih hrest, hstep _ _ _ hframe, List.flatMap_cons, List.foldl_append]

theorem plates_namePart (textLimit : Nat) (part : Frame) (state state' : Decoding)
    (hrun : namePart textLimit part state = .ok () state') :
    state'.draft.module.plates =
      (Binary.partNotices textLimit part).foldl Nameplate.post state.draft.module.plates := by
  unfold namePart at hrun
  unfold Binary.partNotices
  split at hrun
  · rename_i hfunctions
    rw [if_pos hfunctions]
    exact (heeds_functionNameEntry textLimit).vector.noticesAt hrun
  · rename_i hother
    cases hrun
    rw [if_neg hother]
    rfl

theorem plates_customSection (textLimit : Nat) {bytes : List UInt8}
    (hrun : customSection textLimit { state with input := .ofBytes bytes } = .ok () state') :
    state'.draft.module.plates =
      (Binary.noticesAt (Binary.customNotices textLimit) bytes).foldl Nameplate.post state.draft.module.plates := by
  obtain ⟨name, between, hname, hrun⟩ := run_bind_eq_ok hrun
  obtain ⟨input, hinput, rfl⟩ := run_read_eq_ok hname
  obtain ⟨rest, between, hrest, hrun⟩ := run_bind_eq_ok hrun
  obtain ⟨input', hinput', rfl⟩ := run_read_eq_ok hrest
  have hread : Binary.customNotices textLimit (.ofBytes bytes) =
      .ok (if name = "name" then (Frame.split rest).1.flatMap (Binary.partNotices textLimit) else []) input' :=
    (run_bind_of_ok hinput).trans (run_bind_of_ok hinput')
  rw [Binary.noticesAt, hread]
  dsimp only
  split at hrun
  · rename_i hname
    rw [if_pos hname]
    obtain ⟨done, between, hparts, hlast⟩ := run_bind_eq_ok hrun
    cases hlast
    have hplates := plates_frames (plates_namePart textLimit) hparts
    exact hplates
  · rename_i hname
    cases hrun
    rw [if_neg hname]
    rfl

theorem plates_framedSection (frame : Frame) (state state' : Decoding)
    (hrun : framedSection config frame state = .ok () state') :
    state'.draft.module.plates =
      (Binary.sectionNotices config.textLimit frame).foldl Nameplate.post state.draft.module.plates := by
  have hbody := framedSection_ok hrun
  unfold Binary.sectionNotices
  by_cases hcustom : frame.id = 0
  · rw [if_pos hcustom]
    rw [hcustom] at hbody
    exact plates_customSection _ hbody
  by_cases himports : frame.id = 2
  · rw [if_neg hcustom, if_pos himports]
    rw [himports] at hbody
    exact (heeds_importEntry _).vector.noticesAt hbody
  by_cases hfunctions : frame.id = 3
  · rw [if_neg hcustom, if_neg himports, if_pos hfunctions]
    rw [hfunctions] at hbody
    exact heeds_functionEntry.vector.noticesAt hbody
  by_cases hexports : frame.id = 7
  · rw [if_neg hcustom, if_neg himports, if_neg hfunctions, if_pos hexports]
    rw [hexports] at hbody
    exact (heeds_exportEntry _).vector.noticesAt hbody
  · rw [if_neg hcustom, if_neg himports, if_neg hfunctions, if_neg hexports]
    have hplates := (unnamed_sectionBody config hcustom himports hfunctions hexports).of_ok hbody
    exact hplates

end Decode

namespace Module

variable {config : Config} {registry : TypeRegistry} {bytes : List UInt8} {module : Module}

/-- The functions of a module that was decoded bear the plates that the notices put up. -/
theorem plates_decode (h : (Module.decode config registry bytes).1 = .ok module) :
    module.plates = (Binary.notices config.textLimit bytes).foldl Nameplate.post [] := by
  obtain ⟨word, list, state, rfl, hword, hframes, rfl⟩ := frames_of_decode h
  have hsplit : Frame.split ((Form.header ++ word).drop Form.header.length) = (list, none) := by
    rw [List.drop_left, ← List.append_nil word, Frame.split_append hword, Frame.split, List.append_nil]
  rw [Binary.notices, hsplit]
  exact Decode.plates_frames Decode.plates_framedSection hframes

/-- The function that is found by a name is the first one with it. -/
theorem findFunction_eq_some_iff {name : String} {index : Nat} :
    module.findFunction name = some index ↔
      (∃ func, module.functions[index]? = some func ∧ func.name = some name) ∧
        ∀ earlier < index, ∀ func : Func, module.functions[earlier]? = some func → func.name ≠ some name := by
  unfold findFunction
  rw [Array.findIdx?_eq_some_iff_getElem]
  constructor
  · rintro ⟨hlt, hname, hearlier⟩
    refine ⟨⟨_, Array.getElem?_eq_getElem hlt, of_decide_eq_true hname⟩, fun earlier hearly func hfunc => ?_⟩
    obtain ⟨_, rfl⟩ := Array.getElem?_eq_some_iff.1 hfunc
    exact fun hsame => hearlier earlier hearly (decide_eq_true hsame)
  · rintro ⟨⟨func, hfunc, hname⟩, hearlier⟩
    obtain ⟨hlt, rfl⟩ := Array.getElem?_eq_some_iff.1 hfunc
    refine ⟨hlt, decide_eq_true hname, fun earlier hearly hsame => ?_⟩
    exact hearlier earlier hearly _ (Array.getElem?_eq_getElem _) (of_decide_eq_true hsame)

theorem findFunction_eq_none_iff {name : String} :
    module.findFunction name = none ↔
      ∀ (index : Nat) (func : Func), module.functions[index]? = some func → func.name ≠ some name := by
  unfold findFunction
  rw [Array.findIdx?_eq_none_iff]
  constructor
  · exact fun hnone index func hfunc => of_decide_eq_false (hnone func (Array.mem_of_getElem? hfunc))
  · intro hnone func hfunc
    obtain ⟨index, hindex⟩ := Array.getElem?_of_mem hfunc
    exact decide_eq_false (hnone index func hindex)

/-- A module that was decoded has the functions that its bytes declare, in their order, and those declared as imports
are imports. An import goes by its field; any other function goes by the first name that an export or the name section
gives it after its declaration, if any. Looking for a name finds the first function that goes by it. -/
theorem display_names (h : (Module.decode config registry bytes).1 = .ok module) :
    let declarations := Notice.declarations (Binary.notices config.textLimit bytes)
    module.functions.size = declarations.length ∧
    (∀ (index : Nat) (func : Func), module.functions[index]? = some func → ∃ imported later,
      declarations[index]? = some (imported, later) ∧ func.imported = imported ∧
        func.name = Notice.display index imported later) ∧
    ∀ name, (∀ index, module.findFunction name = some index ↔
        (∃ func, module.functions[index]? = some func ∧ func.name = some name) ∧
          ∀ earlier < index, ∀ func : Func, module.functions[earlier]? = some func → func.name ≠ some name) ∧
      (module.findFunction name = none ↔
        ∀ (index : Nat) (func : Func), module.functions[index]? = some func → func.name ≠ some name) := by
  intro declarations
  have hplates := (plates_decode h).trans (Notice.foldl_post_nil _)
  refine ⟨?_, fun index func hfunc => ?_, fun name => ⟨fun index => findFunction_eq_some_iff, findFunction_eq_none_iff⟩⟩
  · have hlength := congrArg List.length hplates
    rwa [List.length_mapIdx, plates, List.length_map, Array.length_toList] at hlength
  · have hplate := congrArg (·[index]?) hplates
    simp only [plates, List.getElem?_map, Array.getElem?_toList, hfunc, List.getElem?_mapIdx] at hplate
    obtain ⟨⟨imported, later⟩, hdeclared, hposted⟩ := Option.map_eq_some_iff.1 hplate.symm
    refine ⟨imported, later, hdeclared, ?_, ?_⟩
    · have himported := congrArg Nameplate.imported hposted
      rw [Nameplate.imported_giveFirst] at himported
      exact himported.symm
    · have hname := congrArg Nameplate.name hposted
      rw [Nameplate.name_giveFirst_blank] at hname
      exact hname.symm

/-- An import that is also exported, a function that is named too early, exported twice and named again, and a function
that only the name section names, beside one that does not exist. -/
theorem display_names_mixed :
    let bytes : List UInt8 := Form.header ++
      [0x01, 0x04, 0x01, 0x60, 0x00, 0x00,
        0x00, 0x0B, 0x04, 0x6E, 0x61, 0x6D, 0x65, 0x01, 0x04, 0x01, 0x01, 0x01, 0x78,
        0x02, 0x07, 0x01, 0x01, 0x65, 0x01, 0x66, 0x00, 0x00,
        0x03, 0x03, 0x02, 0x00, 0x00,
        0x07, 0x0D, 0x03, 0x01, 0x61, 0x00, 0x01, 0x01, 0x62, 0x00, 0x01, 0x01, 0x63, 0x00, 0x00,
        0x0A, 0x07, 0x02, 0x02, 0x00, 0x0B, 0x02, 0x00, 0x0B,
        0x00, 0x11, 0x04, 0x6E, 0x61, 0x6D, 0x65, 0x01, 0x0A, 0x03, 0x01, 0x01, 0x79, 0x02, 0x01, 0x7A,
        0x09, 0x01, 0x71]
    Binary.notices ({} : Config).textLimit bytes =
      [.named 1 "x", .imported ⟨"e", "f"⟩, .defined, .defined, .named 1 "a", .named 1 "b", .named 0 "c", .named 1 "y",
        .named 2 "z", .named 9 "q"] ∧
    ∃ module, (Module.decode {} {} bytes).1 = .ok module ∧ module.functions.size = 3 ∧
      ∀ (index : Nat) (func : Func), module.functions[index]? = some func →
        func.name = ["f", "a", "z"][index]? := by
  intro bytes
  have hnotices : Binary.notices ({} : Config).textLimit bytes =
      [.named 1 "x", .imported ⟨"e", "f"⟩, .defined, .defined, .named 1 "a", .named 1 "b", .named 0 "c", .named 1 "y",
        .named 2 "z", .named 9 "q"] := by decide +kernel
  have hdecodes : (Module.decode {} {} bytes).1.isOk = true := by decide +kernel
  refine ⟨hnotices, ?_⟩
  obtain ⟨module, hdecode⟩ := exists_of_isOk hdecodes
  obtain ⟨hsize, hnames, -⟩ := display_names hdecode
  rw [hnotices] at hsize hnames
  refine ⟨module, hdecode, hsize, fun index func hfunc => ?_⟩
  obtain ⟨imported, later, hdeclared, -, hname⟩ := hnames index func hfunc
  rw [hname]
  obtain _ | _ | _ | index := index
  case succ.succ.succ => simp [Notice.declarations] at hdeclared
  all_goals
    cases hdeclared
    decide

end Module

end WasmEngine
