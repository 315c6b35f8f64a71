import Mathlib.Logic.Relation
import WasmEngine.Proofs.Code.Text
import WasmEngine.Proofs.Threaded.Assembler

/-!
# Where the code of functions is placed

A `Placement` is the code of a machine and its functions, some of which have entries. `Placement.Step` lists what can
happen to it under the threaded compiler. Where all lines have numbers, code goes behind the code that was there, so
lines never change (`Placement.Placed`).
-/

namespace WasmEngine

open Threaded (functionCode)

/-- The code that a function gets at a line: that of a host function for an import, and else of its body. -/
inductive Func.Emits (func : Func) (line : Nat) : List Line → Prop where
  | linked (himport : func.isImport = true) (link : HostLink) : Emits func line link.lines
  | compiled {lines : List Line} (himport : func.isImport = false) (hlines : functionCode func line = some lines) :
      Emits func line lines

theorem Func.Emits.setCode {func : Func} {line : Nat} {lines : List Line} (h : func.Emits line lines)
    (code : Option CodeRef) : ({ func with code } : Func).Emits line lines := by
  have hsame : ({ func with code } : Func).isImport = func.isImport := rfl
  cases h with
  | linked himport link => exact .linked (hsame.trans himport) link
  | compiled himport hlines => exact .compiled (hsame.trans himport) hlines

/-- Two stretches of lines have no line in common. -/
def CodeRef.Apart (entry : CodeRef) (length : Nat) (entry' : CodeRef) (length' : Nat) : Prop :=
  entry.page ≠ entry'.page ∨ entry.line + length ≤ entry'.line ∨ entry'.line + length' ≤ entry.line

theorem CodeRef.Apart.symm {entry entry' : CodeRef} {length length' : Nat} (h : entry.Apart length entry' length') :
    entry'.Apart length' entry length := by
  rcases h with h | h | h
  · exact .inl h.symm
  · exact .inr (.inr h)
  · exact .inr (.inl h)

/-- What stood in the code before ends where the code that is gained begins, or is on another page. -/
theorem CodeStore.Gains.apart {code code' : CodeStore} {entry entry' : CodeRef} {lines lines' : List Line}
    (h : code.Gains code' entry lines) (hheld : code.Holds entry' lines') :
    entry.Apart lines.length entry' lines'.length := by
  by_cases hpage : entry.page = entry'.page
  · have hfresh := h.fresh
    rw [hpage] at hfresh
    exact .inr (.inr (Nat.le_trans hheld.le_length hfresh))
  · exact .inl hpage

/-- Code, and functions by the index of their module and their own. -/
structure Placement where
  code : CodeStore
  functions : Nat → Nat → Option Func

namespace Placement

/-- The functions after one of them got an entry. -/
def enter (functions : Nat → Nat → Option Func) (index function : Nat) (entry : CodeRef) :
    Nat → Nat → Option Func := fun index' function' =>
  if index' = index ∧ function' = function then
    (functions index' function').map fun func => { func with code := some entry }
  else functions index' function'

/-- The entry of a function. -/
def entryOf (placement : Placement) (index function : Nat) : Option CodeRef :=
  (placement.functions index function).bind Func.code

/-- What can happen to code and functions, given the imports that may be linked. Where code goes is known as long as all
lines have numbers. -/
inductive Step (links : Nat → Func → Prop) : Placement → Placement → Prop where
  /-- Code is written that is of no function. -/
  | write {code code' : CodeStore} (functions : Nat → Nat → Option Func) (hgrows : code.Grows code')
      (hextends : code'.Addressable → code.Extends code') : Step links ⟨code, functions⟩ ⟨code', functions⟩
  /-- A function is compiled. -/
  | compile {code code' : CodeStore} {functions : Nat → Nat → Option Func} {index function : Nat} {func : Func}
      {entry : CodeRef} (hfunc : functions index function = some func) (hcode : func.code = none)
      (himport : func.isImport = false) (hgrows : code.Grows code')
      (hgains : code'.Addressable → ∃ lines, functionCode func entry.line = some lines ∧ code.Gains code' entry lines) :
      Step links ⟨code, functions⟩ ⟨code', enter functions index function entry⟩
  /-- An import is linked. -/
  | link {code code' : CodeStore} {functions : Nat → Nat → Option Func} {index function : Nat} {func : Func}
      {entry : CodeRef} {link : HostLink} (hfunc : functions index function = some func) (hlinks : links index func)
      (himport : func.isImport = true) (hgrows : code.Grows code')
      (hgains : code'.Addressable → code.Gains code' entry link.lines) :
      Step links ⟨code, functions⟩ ⟨code', enter functions index function entry⟩
  /-- Functions without entries are added. -/
  | load (code : CodeStore) {functions functions' : Nat → Nat → Option Func}
      (hkeep : ∀ index function func, functions index function = some func → functions' index function = some func)
      (hfresh : ∀ index function func, functions' index function = some func → functions index function = none →
        func.code = none) : Step links ⟨code, functions⟩ ⟨code, functions'⟩

/-- A sequence of steps. -/
abbrev Steps (links : Nat → Func → Prop) : Placement → Placement → Prop :=
  Relation.ReflTransGen (Step links)

variable {links : Nat → Func → Prop} {placement placement' placement'' : Placement}
  {functions : Nat → Nat → Option Func} {function index : Nat} {func : Func} {entry : CodeRef}
  {region : Nat → Nat → List Line}

/-- More imports may be linked. -/
theorem Step.mono {links' : Nat → Func → Prop} (hlinks : ∀ index func, links index func → links' index func)
    (h : Step links placement placement') : Step links' placement placement' := by
  cases h with
  | write functions hgrows hextends => exact .write functions hgrows hextends
  | compile hfunc hcode himport hgrows hgains => exact .compile hfunc hcode himport hgrows hgains
  | link hfunc hlink himport hgrows hgains => exact .link hfunc (hlinks _ _ hlink) himport hgrows hgains
  | load code hkeep hfresh => exact .load code hkeep hfresh

/-! ## What steps keep -/

theorem Step.grows (h : Step links placement placement') : placement.code.Grows placement'.code := by
  cases h with
  | write functions hgrows hextends => exact hgrows
  | compile hfunc hcode himport hgrows hgains => exact hgrows
  | link hfunc hlinks himport hgrows hgains => exact hgrows
  | load code hkeep hfresh => exact .refl _

/-- No text gets shorter. -/
theorem Steps.grows (h : Steps links placement placement') : placement.code.Grows placement'.code := by
  induction h with
  | refl => exact .refl _
  | tail _ hstep ih => exact ih.trans hstep.grows

theorem Step.extends (h : Step links placement placement') (haddr : placement'.code.Addressable) :
    placement.code.Extends placement'.code := by
  cases h with
  | write functions hgrows hextends => exact hextends haddr
  | compile hfunc hcode himport hgrows hgains =>
    obtain ⟨lines, -, hgains⟩ := hgains haddr
    exact hgains.keeps
  | link hfunc hlinks himport hgrows hgains => exact (hgains haddr).keeps
  | load code hkeep hfresh => exact .refl _

/-- Lines never change. -/
theorem Steps.extends (h : Steps links placement placement') (haddr : placement'.code.Addressable) :
    placement.code.Extends placement'.code := by
  induction h with
  | refl => exact .refl _
  | tail _ hstep ih => exact (ih (haddr.of_grows hstep.grows)).trans (hstep.extends haddr)

theorem enter_self (hfunc : functions index function = some func) (entry : CodeRef) :
    enter functions index function entry index function = some { func with code := some entry } := by
  simp [enter, hfunc]

theorem enter_of_ne {index' function' : Nat} (hne : (index', function') ≠ (index, function))
    (functions : Nat → Nat → Option Func) (entry : CodeRef) :
    enter functions index function entry index' function' = functions index' function' :=
  if_neg fun ⟨hindex, hfunction⟩ => hne (by rw [hindex, hfunction])

/-- A function with an entry stays as it is in a step that does not link it. -/
theorem Step.keeps (h : Step links placement placement')
    (hfunc : placement.functions index function = some func) (hcode : func.code = some entry) :
    placement'.functions index function = some func ∨ links index func := by
  cases h with
  | write functions hgrows hextends => exact .inl hfunc
  | @compile code code' functions index' function' func' entry' hfunc' hcode' himport hgrows hgains =>
    have hne : (index, function) ≠ (index', function') := by
      rintro ⟨⟩
      cases hfunc.symm.trans hfunc'
      cases hcode.symm.trans hcode'
    exact .inl ((enter_of_ne hne functions entry').trans hfunc)
  | @link code code' functions index' function' func' entry' link hfunc' hlinks himport hgrows hgains =>
    by_cases heq : (index, function) = (index', function')
    · cases heq
      cases hfunc.symm.trans hfunc'
      exact .inr hlinks
    · exact .inl ((enter_of_ne heq functions entry').trans hfunc)
  | load code hkeep hfresh => exact .inl (hkeep _ _ _ hfunc)

/-- A function with an entry stays as it is unless it is an import that is linked again. -/
theorem Steps.keeps (h : Steps links placement placement')
    (hfunc : placement.functions index function = some func) (hcode : func.code = some entry) :
    placement'.functions index function = some func ∨ links index func := by
  induction h with
  | refl => exact .inl hfunc
  | tail _ hstep ih =>
    rcases ih with hfunc' | hlinks
    · exact hstep.keeps hfunc' hcode
    · exact .inr hlinks

/-! ## Every function has its own lines -/

/-- The code of each function that has an entry stands there, and no two functions share a line. -/
structure Placed (placement : Placement) (region : Nat → Nat → List Line) : Prop where
  emitted : ∀ index function func entry, placement.functions index function = some func → func.code = some entry →
    func.Emits entry.line (region index function)
  held : ∀ index function entry, placement.entryOf index function = some entry →
    placement.code.Holds entry (region index function)
  apart : ∀ index function entry index' function' entry', placement.entryOf index function = some entry →
    placement.entryOf index' function' = some entry' → (index, function) ≠ (index', function') →
    entry.Apart (region index function).length entry' (region index' function').length

theorem entryOf_eq_some : placement.entryOf index function = some entry ↔
    ∃ func, placement.functions index function = some func ∧ func.code = some entry :=
  Option.bind_eq_some_iff

/-- Writing more code leaves the code of functions in place. -/
theorem Placed.extends {code code' : CodeStore} (h : Placed ⟨code, functions⟩ region) (hextends : code.Extends code') :
    Placed ⟨code', functions⟩ region where
  emitted := h.emitted
  held index function entry hentry := (h.held index function entry hentry).extends hextends
  apart := h.apart

/-- A function may get new code behind all the code that is there. -/
theorem Placed.enter {code code' : CodeStore} (h : Placed ⟨code, functions⟩ region)
    {lines : List Line} (hfunc : functions index function = some func)
    (hemits : func.Emits entry.line lines) (hgains : code.Gains code' entry lines) :
    ∃ region', Placed ⟨code', Placement.enter functions index function entry⟩ region' := by
  let region' : Nat → Nat → List Line := fun index' function' =>
    if (index', function') = (index, function) then lines else region index' function'
  have hself : region' index function = lines := if_pos rfl
  have hother : ∀ {index' function'}, (index', function') ≠ (index, function) →
      region' index' function' = region index' function' := fun hne => if_neg hne
  have henter := enter_self hfunc entry
  have hentry : (⟨code', Placement.enter functions index function entry⟩ : Placement).entryOf index function =
      some entry := entryOf_eq_some.2 ⟨_, henter, rfl⟩
  have hold : ∀ {index' function'}, (index', function') ≠ (index, function) →
      (⟨code', Placement.enter functions index function entry⟩ : Placement).entryOf index' function' =
        (⟨code, functions⟩ : Placement).entryOf index' function' :=
    fun hne => congrArg (·.bind Func.code) (enter_of_ne hne functions entry)
  have hbehind : ∀ {index' function' entry'}, (⟨code, functions⟩ : Placement).entryOf index' function' = some entry' →
      entry.Apart lines.length entry' (region index' function').length :=
    fun hentry' => hgains.apart (h.held _ _ _ hentry')
  refine ⟨region', ?_, ?_, ?_⟩
  · intro index' function' func' entry' hfunc' hcode'
    by_cases heq : (index', function') = (index, function)
    · cases heq
      cases henter.symm.trans hfunc'
      cases hcode'
      rw [hself]
      exact hemits.setCode _
    · rw [hother heq]
      exact h.emitted index' function' func' entry' ((enter_of_ne heq functions entry).symm.trans hfunc') hcode'
  · intro index' function' entry' hentry'
    by_cases heq : (index', function') = (index, function)
    · cases heq
      cases hentry.symm.trans hentry'
      rw [hself]
      exact hgains.holds
    · rw [hother heq]
      exact (h.held index' function' entry' ((hold heq).symm.trans hentry')).extends hgains.keeps
  · intro index₁ function₁ entry₁ index₂ function₂ entry₂ hentry₁ hentry₂ hne
    by_cases heq₁ : (index₁, function₁) = (index, function)
    · cases heq₁
      cases hentry.symm.trans hentry₁
      rw [hself, hother hne.symm]
      exact hbehind ((hold hne.symm).symm.trans hentry₂)
    · rw [hold heq₁] at hentry₁
      rw [hother heq₁]
      by_cases heq₂ : (index₂, function₂) = (index, function)
      · cases heq₂
        cases hentry.symm.trans hentry₂
        rw [hself]
        exact (hbehind hentry₁).symm
      · rw [hother heq₂]
        exact h.apart _ _ _ _ _ _ hentry₁ ((hold heq₂).symm.trans hentry₂) hne

theorem Placed.step (h : Placed placement region) (hstep : Step links placement placement')
    (haddr : placement'.code.Addressable) : ∃ region', Placed placement' region' := by
  cases hstep with
  | write functions hgrows hextends => exact ⟨region, h.extends (hextends haddr)⟩
  | compile hfunc hcode himport hgrows hgains =>
    obtain ⟨lines, hlines, hgains⟩ := hgains haddr
    exact h.enter hfunc (.compiled himport hlines) hgains
  | link hfunc hlinks himport hgrows hgains => exact h.enter hfunc (.linked himport _) (hgains haddr)
  | @load code functions functions' hkeep hfresh =>
    have hold : ∀ {index function func entry}, functions' index function = some func → func.code = some entry →
        functions index function = some func := by
      intro index function func entry hfunc hcode
      cases hbefore : functions index function with
      | none => cases (hfresh index function func hfunc hbefore).symm.trans hcode
      | some func' => exact hfunc ▸ (hkeep index function func' hbefore).symm
    have hentry : ∀ {index function entry}, (⟨code, functions'⟩ : Placement).entryOf index function = some entry →
        (⟨code, functions⟩ : Placement).entryOf index function = some entry := by
      intro index function entry h'
      obtain ⟨func, hfunc, hcode⟩ := entryOf_eq_some.1 h'
      exact entryOf_eq_some.2 ⟨func, hold hfunc hcode, hcode⟩
    exact ⟨region, fun index function func entry hfunc hcode => h.emitted _ _ _ _ (hold hfunc hcode) hcode,
      fun index function entry h' => h.held _ _ _ (hentry h'),
      fun _ _ _ _ _ _ h₁ h₂ hne => h.apart _ _ _ _ _ _ (hentry h₁) (hentry h₂) hne⟩

theorem Placed.steps (h : Placed placement region) (hsteps : Steps links placement placement')
    (haddr : placement'.code.Addressable) : ∃ region', Placed placement' region' := by
  induction hsteps with
  | refl => exact ⟨region, h⟩
  | tail _ hstep ih =>
    obtain ⟨region', hplaced⟩ := ih (haddr.of_grows hstep.grows)
    exact hplaced.step hstep haddr

end Placement

end WasmEngine
