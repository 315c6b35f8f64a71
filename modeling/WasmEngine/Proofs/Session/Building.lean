import WasmEngine.Proofs.Module.Building
import WasmEngine.Proofs.Session.Types

/-!
# Building modules in a session

A host builds a module call by call, and between two calls it may do anything else with the same environment. `Site` is
such a module with its session; its registry and its type list stay in order (`Site.Sound`).
-/

namespace WasmEngine

/-- A module under construction, and the session that it is built in. -/
structure Site where
  session : Session
  module : Module := {}

namespace Site

/-- What happens at a site: a call adds an item to the module, or the host does something else. -/
inductive Event where
  | call (item : BuildItem)
  | other (action : Action)

/-- The module with the registry that its types are interned in. -/
def draft (site : Site) : Draft :=
  ⟨site.session.env.registry, site.module⟩

/-- Goes on with another draft. -/
def resume (site : Site) (draft : Draft) : Site where
  session := { site.session with env := { site.session.env with registry := draft.registry } }
  module := draft.module

/-- Adds an item to the module. -/
def call (site : Site) (item : BuildItem) : Except Error (Option Nat) × Site :=
  let result := Draft.add site.session.env.config.argumentLimit item site.draft
  (resultOf result, site.resume (stateAfter result))

def step (site : Site) : Event → Site
  | .call item => (site.call item).2
  | .other action => { site with session := (site.session.perform action).2 }

def run (site : Site) (events : List Event) : Site :=
  events.foldl step site

/-- The items that are added, each with what its call returns. -/
def calls (site : Site) : List Event → List (BuildItem × Except Error (Option Nat))
  | [] => []
  | .call item :: events => (item, (site.call item).1) :: (site.step (.call item)).calls events
  | .other action :: events => (site.step (.other action)).calls events

/-- Without other events, adding items one by one is adding them all. -/
theorem run_calls (site : Site) (items : List BuildItem) :
    let built := Draft.addAll site.session.env.config.argumentLimit items site.draft
    (site.calls (items.map .call)).map Prod.snd = built.1 ∧ site.run (items.map .call) = site.resume built.2 := by
  induction items generalizing site with
  | nil => exact ⟨rfl, rfl⟩
  | cons item items ih =>
    obtain ⟨hcalls, hrun⟩ := ih (site.call item).2
    have hadd : Draft.addAll site.session.env.config.argumentLimit (item :: items) site.draft =
        ((site.call item).1 ::
            (Draft.addAll site.session.env.config.argumentLimit items (site.call item).2.draft).1,
          (Draft.addAll site.session.env.config.argumentLimit items (site.call item).2.draft).2) := by
      rw [Draft.addAll, call]
      cases Draft.add site.session.env.config.argumentLimit item site.draft <;> rfl
    rw [hadd]
    exact ⟨congrArg _ hcalls, hrun⟩

/-! ## What happens to the type list -/

variable {limit : Nat} {site : Site} {result : Except Error (Option Nat)} {signature : String}

/-- The registry lists each type once, and the type list is in order. Signatures have at most `limit` arguments. -/
structure Sound (limit : Nat) (site : Site) : Prop where
  canonical : site.session.env.registry.Canonical
  orderly : site.draft.Orderly
  limit : site.session.env.config.argumentLimit = limit

theorem Sound.lengthens (h : site.Sound limit) (event : Event) : site.draft.Lengthens (site.step event).draft := by
  cases event with
  | call item => exact (Draft.added site.session.env.config.argumentLimit item site.draft).lengthens h.orderly
  | other action =>
    have hextends : site.session.env.registry.Extends (site.session.perform action).2.env.registry := by
      rw [(site.session.perform_types action).1]
      exact TypeRegistry.extends_internAll _ _
    exact Draft.lengthens_registry hextends

theorem Sound.step (h : site.Sound limit) (event : Event) : (site.step event).Sound limit := by
  refine ⟨?_, (h.lengthens event).orderly h.orderly, ?_⟩
  · cases event with
    | call item =>
      have hregistry := (Draft.add_interns site.session.env.config.argumentLimit item site.draft).registry
      have hcall : (site.step (.call item)).session.env.registry = _ := hregistry
      rw [hcall]
      exact h.canonical.internAll _
    | other action =>
      have hother := (site.session.perform_types action).1
      have hcanonical := h.canonical.internAll (site.session.obtained action)
      rwa [← hother] at hcanonical
  · cases event with
    | call item => exact h.limit
    | other action =>
      have hconfig := (Engine.Reaches.fixed (site.session.perform_reaches action)).1
      exact (congrArg Config.argumentLimit hconfig).trans h.limit

theorem Sound.run (h : site.Sound limit) (events : List Event) :
    (site.run events).Sound limit ∧ site.draft.Lengthens (site.run events).draft := by
  induction events generalizing site with
  | nil => exact ⟨h, .refl _⟩
  | cons event events ih =>
    obtain ⟨hsound, hlengthens⟩ := ih (h.step event)
    exact ⟨hsound, (h.lengthens event).trans hlengthens⟩

/-! ## What calls return -/

/-- What the declaration of a type returns: an error if its signature cannot be read, and else an index of the type. -/
inductive Declared (limit : Nat) (module : Module) (signature : String) : Except Error (Option Nat) → Prop where
  | refused {error : Error} (hread : FuncType.ofSignature? limit signature = .error error) :
      Declared limit module signature (.error error)
  | listed {index : Nat} {handle : TypeHandle} (hread : FuncType.ofSignature? limit signature = .ok handle.type)
      (hplace : module.types[index]? = some handle) : Declared limit module signature (.ok (some index))

theorem Sound.call_type (h : site.Sound limit) (signature : String) :
    Declared limit (site.call (.type signature)).2.module signature (site.call (.type signature)).1 := by
  have hadded := Draft.added site.session.env.config.argumentLimit (.type signature) site.draft
  unfold call
  generalize Draft.add site.session.env.config.argumentLimit (.type signature) site.draft = result at hadded
  rw [h.limit] at hadded
  cases hadded with
  | refused hitem hread =>
    cases hitem
    exact .refused hread
  | @type _ type index types hread hdeclares =>
    refine .listed ?_ (hdeclares.lengthens_intern h.orderly).2
    rw [hread, (site.draft.registry.intern_spec type).1]
  | function hitem hother => exact absurd rfl (hother signature)
  | edited hitem => cases hitem

/-- Declared types stay at their indices. -/
theorem Declared.lengthens {draft draft' : Draft}
    (h : Declared limit draft.module signature result) (hlengthens : draft.Lengthens draft') :
    Declared limit draft'.module signature result := by
  cases h with
  | refused hread => exact .refused hread
  | listed hread hplace => exact .listed hread (hlengthens.places _ _ hplace)

/-- A call that fails leaves the module and its session as they were. -/
theorem call_error {item : BuildItem} {error : Error} (hfails : (site.call item).1 = .error error) :
    (site.call item).2 = site := by
  have hadded := Draft.added site.session.env.config.argumentLimit item site.draft
  unfold call at hfails ⊢
  generalize Draft.add site.session.env.config.argumentLimit item site.draft = result at hadded hfails
  cases hadded with
  | refused | overlong => rfl
  | _ => cases hfails

/-- What was returned for a type along the way holds of the module in the end. -/
theorem Sound.declared (h : site.Sound limit) {events : List Event}
    (hmem : (.type signature, result) ∈ site.calls events) :
    Declared limit (site.run events).module signature result := by
  induction events generalizing site with
  | nil => cases hmem
  | cons event events ih =>
    cases event with
    | other action => exact ih (h.step _) hmem
    | call item =>
      rcases List.mem_cons.1 hmem with hfirst | hlater
      · obtain ⟨rfl, rfl⟩ := Prod.mk.inj hfirst
        exact (h.call_type signature).lengthens ((h.step (.call (.type signature))).run events).2
      · exact ih (h.step _) hlater

/-- Without repetitions in the list, a type has one index. -/
theorem Declared.unique {module : Module} (hnodup : (module.types.toList.map TypeHandle.type).Nodup)
    {signature' : String} {result' : Except Error (Option Nat)}
    (h : Declared limit module signature result) (h' : Declared limit module signature' result')
    (hsame : FuncType.ofSignature? limit signature = FuncType.ofSignature? limit signature') : result = result' := by
  have htypes {index : Nat} {handle : TypeHandle} (h : module.types[index]? = some handle) :
      (module.types.toList.map TypeHandle.type)[index]? = some handle.type := by
    rw [List.getElem?_map, Array.getElem?_toList, h]
    rfl
  cases h with
  | refused hread =>
    cases h' with
    | refused hread' =>
      rw [hread, hread'] at hsame
      exact congrArg Except.error (Except.error.inj hsame)
    | listed hread' _ => rw [hread, hread'] at hsame; cases hsame
  | @listed index handle hread hplace =>
    cases h' with
    | refused hread' => rw [hread, hread'] at hsame; cases hsame
    | @listed index' handle' hread' hplace' =>
      rw [hread, hread'] at hsame
      have hlt := (List.getElem?_eq_some_iff.1 (htypes hplace)).1
      have hindex : index = index' := by
        rw [← List.getElem?_inj hlt hnodup, htypes hplace, htypes hplace', Except.ok.inj hsame]
      rw [hindex]

end Site

namespace Session

/-- A module that is built lists each type once, whatever a host does before and between the calls that add to it, and
lists the type of every function. The declaration of a type fails if its signature cannot be read, and else returns an
index at which the type stands in the end; signatures of one type give the same index. A call that fails leaves
everything as it was. To build a module in one action is to do nothing between the calls. -/
theorem types_listed (backing : Option Nat) (config : Config) (host : Host) (heap : Heap) (actions : List Action)
    (events : List Site.Event) :
    let site : Site := { session := (startWithin backing config host heap).performAll actions }
    let after := site.run events
    (after.module.types.toList.map TypeHandle.type).Nodup ∧
    (∀ func ∈ after.module.functions, func.type ∈ after.module.types) ∧
    (∀ signature result, (.type signature, result) ∈ site.calls events →
      Site.Declared config.argumentLimit after.module signature result) ∧
    (∀ signature result signature' result', (.type signature, result) ∈ site.calls events →
      (.type signature', result') ∈ site.calls events →
      FuncType.ofSignature? config.argumentLimit signature = FuncType.ofSignature? config.argumentLimit signature' →
        result = result') ∧
    (∀ item error, (after.call item).1 = .error error → (after.call item).2 = after) ∧
    ∀ slot items, events = items.map .call →
      (site.session.build slot items).1 = (site.calls events).map Prod.snd ∧
        (site.session.build slot items).2.slots.get? slot = some after.module := by
  intro site after
  obtain ⟨hregistry, -⟩ := performAll_types (startWithin backing config host heap) actions
  have hreaches := performAll_reaches (startWithin backing config host heap) actions
  have hsound : site.Sound config.argumentLimit := by
    refine ⟨?_, Draft.orderly_empty _, congrArg Config.argumentLimit (Engine.Reaches.fixed hreaches).1⟩
    rw [hregistry]
    exact TypeRegistry.canonical_empty.internAll _
  obtain ⟨hafter, -⟩ := hsound.run events
  have hnodup := hafter.orderly.nodup_types hafter.canonical
  refine ⟨hnodup, fun func hfunc => ?_, fun _ _ => hsound.declared, ?_, fun _ _ => Site.call_error, ?_⟩
  · exact hafter.orderly.listed _ (List.mem_append_right _ (List.mem_map_of_mem (Array.mem_toList_iff.2 hfunc)))
  · intro signature result signature' result' hmem hmem' hsame
    exact (hsound.declared hmem).unique hnodup (hsound.declared hmem') hsame
  · rintro slot items rfl
    obtain ⟨hcalls, hrun⟩ := site.run_calls items
    refine ⟨hcalls.symm, ?_⟩
    have hmodule : after.module = (Draft.addAll site.session.env.config.argumentLimit items site.draft).2.module :=
      congrArg Site.module hrun
    rw [hmodule]
    exact Table.get?_put ..

/-- Two spellings of one type, with another module built and a type interned in between, a function whose signature cannot
be read, and an import of a type that only the other module has declared. -/
theorem types_listed_between :
    let site : Site :=
      { session := (startWithin none {} (.ofBackends .threaded .threaded none) (.system 0)).performAll
          [.signature "f()"] }
    let events : List Site.Event :=
      [.call (.type "I(i*)"), .other (.build "m" [.type "v()"]), .call (.function "v(i" 0 [0x0B]),
        .other (.intern ⟨none, [.i64]⟩), .call (.importFunction ⟨"e", "f"⟩ "v()"), .call (.type " I ( ii ) ")]
    let after := site.run events
    (site.calls events).map (fun call => call.2.toOption) = [some (some 0), none, some (some 0), some (some 0)] ∧
    after.module.types.toList = [⟨1, some .i64, [.i32, .i32]⟩, ⟨2, none, []⟩] ∧
    (∃ result, (.type "I(i*)", result) ∈ site.calls events ∧ (.type " I ( ii ) ", result) ∈ site.calls events ∧
      Site.Declared ({} : Config).argumentLimit after.module "I(i*)" result) ∧
    (after.call (.type "v(")).2 = after := by
  intro site events after
  obtain ⟨-, -, hdeclared, hsame, hfails, -⟩ :=
    types_listed none {} (.ofBackends .threaded .threaded none) (.system 0) [.signature "f()"] events
  have hfirst : (.type "I(i*)", (site.call (.type "I(i*)")).1) ∈ site.calls events := .head _
  obtain ⟨result, hlast⟩ : ∃ result, (.type " I ( ii ) ", result) ∈ site.calls events :=
    ⟨_, .tail _ (.tail _ (.tail _ (.head _)))⟩
  have hresult := hsame _ _ _ _ hfirst hlast (by decide +kernel)
  refine ⟨by decide +kernel, by decide +kernel, ⟨_, hfirst, hresult ▸ hlast, hdeclared _ _ hfirst⟩, ?_⟩
  exact hfails (.type "v(") .malformedSignature (by decide +kernel)

end Session

end WasmEngine
