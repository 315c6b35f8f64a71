import WasmEngine.Proofs.Machine.Elements
import WasmEngine.Proofs.Session.Modules
import WasmEngine.Proofs.Session.Segments

/-!
# Tables of modules that hosts build

A module that is built with element segments has, once it is loaded, the table that they describe.
-/

namespace WasmEngine

/-! ## Before the element segments -/

namespace LoadM

open Loading (Along)

theorem along_upTo {rel : Environment → Environment → Prop} [Std.Refl rel] [IsTrans Environment rel]
    (hconst : ∀ (module : Module) (expr : List UInt8) (type : ValType),
      Keeps rel (Environment.constValue module expr type))
    (hgrow : ∀ (env : Environment) (memory : LinearMemory) (pages : Nat), rel env (env.grown memory pages))
    (index : Nat) : Keeps (Along rel) (upTo index) := by
  have hclosed := along_closed hconst
  refine .bind (.bind (along_sizeMemory hgrow) fun _ => .bind hclosed.setGlobals fun _ => hclosed.copySegments) ?_
  exact fun _ => .bind (.modify fun state => Std.Refl.refl state.env) fun _ => hclosed.elementSegments index

theorem serves_upTo (fuel index : Nat) : Keeps (Along (Preserves (Environment.Serves fuel))) (upTo index) := by
  refine along_upTo (fun module expr type => ?_) (fun env memory pages => ?_) index
  · intro env hserves
    exact hserves.constValue module expr type
  · intro hserves
    exact hserves.grown memory pages

theorem lasts_upTo (index : Nat) : Keeps (Along Environment.Lasts) (upTo index) := by
  refine along_upTo (fun module expr type env => ?_) (fun _ _ _ => ⟨rfl, rfl, rfl, Nat.le_refl _⟩) index
  exact Engine.Reaches.lasts (Environment.constValue_reaches module expr type env 0)

theorem system_upTo (index : Nat) :
    Keeps (Along (Preserves fun env : Environment => env.heap.IsSystem)) (upTo index) :=
  along_upTo Environment.system_constValue (fun _ memory pages => memory.system_growTo pages) index

end LoadM

namespace Session

open LoadM

/-- Where threaded code runs with the default configuration, and a module is built whose element segments all have
functions of the module and end within 32 bits: if memory, globals and data segments are set up, the table can be
backed and a code page can be had, as is always so on a heap of the system, then the module is loaded, and its table is
the one that the segments describe. -/
theorem elements_fill_table {session : Session} (hthreaded : session.IsThreaded) (hconfig : session.env.config = {})
    (machine : Machine) (limit : Nat) (registry : TypeRegistry) {items : List BuildItem}
    {segments : List ElementSegment} (hitems : items.filter BuildItem.isElements = segments.map ElementSegment.item)
    {module : Module} (hmodule : (Draft.addAll limit items ⟨registry, {}⟩).2.module = module)
    (hvalid : ∀ segment ∈ segments, segment.Valid module.functions.size) {ready : Loading}
    (hready : upTo 0 (Machine.preparing module ⟨session.env, machine⟩) = .ok () ready)
    (hbacks : session.env.backs (ElementSegment.reach segments * tableSlotSize) = true)
    (hpage : session.env.heap.IsSystem ∨ ready.env.Supplied) :
    let loading := Machine.load module ⟨session.env, machine⟩
    let index := machine.modules.size
    (loading.1 = .linked index ∨ ∃ error, loading.1 = .startFailed error index) ∧
      ∃ loaded, loading.2.machine.modules[index]? = some loaded ∧ loaded.table = ElementSegment.table segments := by
  intro loading index
  obtain ⟨-, howner, helements⟩ := Draft.adds_addAll limit items ⟨registry, {}⟩
  rw [hmodule] at howner helements
  rw [BuildItem.foldl_addElements, hitems,
    ElementSegment.foldl_addElements fun segment hsegment => (hvalid segment hsegment).length_lt] at helements
  have hsegments : module.elements = ⟨segments.length, segments.flatMap ElementSegment.bytes, #[]⟩ := by
    rw [helements]
    simp [Module.elements]
  have hserves : ready.env.Serves Backend.ampleFuel := (serves_upTo Backend.ampleFuel 0).of_ok hready hthreaded.serves
  have hlasts : session.env.Lasts ready.env := (lasts_upTo 0).of_ok hready
  have hdefault : ready.env.config = {} := hlasts.config.trans hconfig
  have hsupplied : ready.env.Supplied := by
    rcases hpage with hsystem | hsupplied
    · exact Environment.supplied_of_system hdefault ((system_upTo 0).of_ok hready hsystem)
    · exact hsupplied
  have hevaluates : ready.env.Evaluates Backend.ampleFuel :=
    ⟨hserves, by decide, hsupplied, by rw [hdefault]; decide⟩
  obtain ⟨final, hprepare, htable⟩ :=
    prepare_written hready hsegments hvalid hevaluates (hlasts.backs (Nat.le_refl _) hbacks)
  have hlinked : module.isLinked = false := congrArg Option.isSome howner
  obtain ⟨houtcome, hmodules⟩ := Machine.load_prepared hlinked hprepare
  refine ⟨houtcome, ?_⟩
  have hmap : loading.2.machine.modules.map Module.table = (machine.modules.push final.module).map Module.table :=
    hmodules fun _ _ _ => rfl
  have hloaded : (loading.2.machine.modules.map Module.table)[index]? = some final.module.table := by
    rw [hmap, Array.map_push, Array.getElem?_push, if_pos (Array.size_map ..).symm]
  rw [Array.getElem?_map, Option.map_eq_some_iff] at hloaded
  obtain ⟨loaded, hfound, hsame⟩ := hloaded
  exact ⟨loaded, hfound, hsame.trans htable⟩

/-- The second segment begins before the first one and overlaps it, and the third one leaves a gap. -/
def overlapping : List ElementSegment :=
  [⟨1, [0]⟩, ⟨0, [1, 1]⟩, ⟨3, [0]⟩]

/-- A module with these segments, between two functions. -/
def tabled : Module :=
  (Draft.addAll FuncType.defaultArgumentLimit
    (.function "v()" 0 [0x0B] :: overlapping.map ElementSegment.item ++ [.function "v()" 0 [0x0B]]) ⟨{}, {}⟩).2.module

/-- One slot is filled twice, and one is not. -/
theorem elements_fill_table_overlapping :
    (∀ segment ∈ overlapping, segment.Valid tabled.functions.size) ∧
      ∃ loaded, (Machine.load tabled (spare {})).2.machine.modules[0]? = some loaded ∧
        loaded.table = #[some 1, some 1, none, some 0] := by
  have hsize : tabled.functions.size = 2 := by decide +kernel
  have hvalid : ∀ segment ∈ overlapping, segment.Valid tabled.functions.size := by
    rw [hsize]
    intro segment hsegment
    simp only [overlapping, List.mem_cons, List.not_mem_nil, or_false] at hsegment
    rcases hsegment with rfl | rfl | rfl
    · exact ⟨by simp, by simp, by decide⟩
    · exact ⟨by simp, by simp, by decide⟩
    · exact ⟨by simp, by simp, by decide⟩
  have hok : (resultOf (upTo 0 (Machine.preparing tabled (spare {})))).isOk = true := by decide +kernel
  obtain ⟨done, hdone⟩ := exists_of_isOk hok
  obtain ⟨-, loaded, hfound, htable⟩ := elements_fill_table (isThreaded_untouched {}) rfl (spare {}).machine _ _ rfl
    rfl hvalid (eq_ok_of_resultOf hdone) rfl (.inl ⟨0, rfl⟩)
  have hdescribed : ElementSegment.table overlapping = #[some 1, some 1, none, some 0] := by decide +kernel
  exact ⟨hvalid, loaded, hfound, htable.trans hdescribed⟩

end Session

end WasmEngine
