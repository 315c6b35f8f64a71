import Mathlib.Data.Multiset.Bind
import Mathlib.Logic.Relation
import WasmEngine.Proofs.Code.Pool
import WasmEngine.Proofs.Machine.Work

/-!
# The allocation of code pages, step by step

An `Engine` is all that has code pages at some point of some operation: an environment with its pool, and the code
stores of its machines, each with the pages that are held there. `Engine.Step` lists what can happen to them, in any
order of the machines, and `Engine.Sound` holds at every point.
-/

namespace WasmEngine

/-! ## Steps -/

/-- The code store of a machine at some point of an operation, and the pages that are held there. -/
structure Workplace where
  code : CodeStore := {}
  held : List Nat := []

/-- An environment and the code stores of all its machines at some point of an operation. -/
structure Engine where
  env : Environment
  places : Multiset Workplace

namespace Environment

/-- Giving back the pages of the pool leaves all but the heap alone. -/
theorem foldl_free (pages : List CodePage) (env : Environment) :
    pages.foldl (fun env page => env.free page.grant) env =
      { env with heap := pages.foldl (fun heap page => heap.free page.grant) env.heap } := by
  induction pages generalizing env with
  | nil => rfl
  | cons page pages ih => exact ih (env.free page.grant)

/-- What lasts of an environment: configuration, host, what the system can back, and the count of machines. -/
structure Lasts (env env' : Environment) : Prop where
  config : env'.config = env.config
  host : env'.host = env.host
  backing : env'.memoryBacking = env.memoryBacking
  made : env.machinesMade ≤ env'.machinesMade

theorem Lasts.refl (env : Environment) : env.Lasts env :=
  ⟨rfl, rfl, rfl, Nat.le_refl _⟩

theorem Lasts.trans {first second third : Environment} (h : first.Lasts second) (h' : second.Lasts third) :
    first.Lasts third :=
  ⟨h'.config.trans h.config, h'.host.trans h.host, h'.backing.trans h.backing, Nat.le_trans h.made h'.made⟩

instance : Std.Refl Lasts where
  refl := .refl

instance : IsTrans Environment Lasts where
  trans _ _ _ := .trans

theorem lasts_teardown (env : Environment) : env.Lasts env.teardown := by
  rw [teardown, foldl_free]
  exact ⟨rfl, rfl, rfl, Nat.le_refl _⟩

end Environment

namespace Engine

/-- What can happen to the code pages of an environment and its machines. -/
inductive Step : Engine → Engine → Prop where
  /-- A machine takes hold of a page. -/
  | acquire {minLines id : Nat} {env env' : Environment} {code code' : CodeStore} (held : List Nat)
      (places : Multiset Workplace) (h : CodeArea.acquire minLines ⟨env, code⟩ = .ok id ⟨env', code'⟩) :
      Step ⟨env, ⟨code, held⟩ ::ₘ places⟩ ⟨env', ⟨code', id :: held⟩ ::ₘ places⟩
  /-- A machine asks for a page in vain. -/
  | refuse {minLines : Nat} {error : Error} {env env' : Environment} {code code' : CodeStore} (held : List Nat)
      (places : Multiset Workplace) (h : CodeArea.acquire minLines ⟨env, code⟩ = .error error ⟨env', code'⟩) :
      Step ⟨env, ⟨code, held⟩ ::ₘ places⟩ ⟨env', ⟨code', held⟩ ::ₘ places⟩
  /-- A machine lets go of a page that it holds. -/
  | release {id : Nat} (env : Environment) (code : CodeStore) {held : List Nat} (places : Multiset Workplace)
      (hid : id ∈ held) :
      Step ⟨env, ⟨code, held⟩ ::ₘ places⟩
        ⟨env, ⟨code.release env.config.freeLineThreshold id, held.erase id⟩ ::ₘ places⟩
  /-- A line is appended to a page that is held. -/
  | emit {id : Nat} {line : Line} {address : CodeRef} (env : Environment) {code code' : CodeStore} {held : List Nat}
      (places : Multiset Workplace) (hid : id ∈ held) (h : code.emit id line = .ok (address, code')) :
      Step ⟨env, ⟨code, held⟩ ::ₘ places⟩ ⟨env, ⟨code', held⟩ ::ₘ places⟩
  /-- A line of any page is replaced. -/
  | patch {address : CodeRef} {line : Line} (env : Environment) {code code' : CodeStore} (held : List Nat)
      (places : Multiset Workplace) (h : code.patch address line = .ok code') :
      Step ⟨env, ⟨code, held⟩ ::ₘ places⟩ ⟨env, ⟨code', held⟩ ::ₘ places⟩
  /-- A machine is made. -/
  | arrive (env : Environment) (places : Multiset Workplace) : Step ⟨env, places⟩ ⟨env, {} ::ₘ places⟩
  /-- A machine that holds no page is disposed of. -/
  | leave (env : Environment) (code : CodeStore) (places : Multiset Workplace) :
      Step ⟨env, ⟨code, []⟩ ::ₘ places⟩ ⟨env.recycle code.drain, places⟩
  /-- Something happens that does not concern code pages. -/
  | tend {env env' : Environment} (places : Multiset Workplace) (h : env.SamePages env') :
      Step ⟨env, places⟩ ⟨env', places⟩
  /-- The environment is torn down when no machine is left. -/
  | teardown (env : Environment) : Step ⟨env, 0⟩ ⟨env.teardown, 0⟩

theorem Step.lasts {engine engine' : Engine} (h : Step engine engine') : engine.env.Lasts engine'.env := by
  cases h with
  | @acquire minLines id env env' code code' held places hacquire =>
    have hcases := CodeArea.acquired minLines ⟨env, code⟩
    rw [hacquire] at hcases
    cases hcases <;> exact ⟨rfl, rfl, rfl, Nat.le_refl _⟩
  | @refuse minLines error env env' code code' held places hacquire =>
    have hcases := CodeArea.acquired minLines ⟨env, code⟩
    rw [hacquire] at hcases
    cases hcases
    exact ⟨rfl, rfl, rfl, Nat.le_refl _⟩
  | release => exact .refl _
  | emit => exact .refl _
  | patch => exact .refl _
  | arrive => exact .refl _
  | leave => exact ⟨rfl, rfl, rfl, Nat.le_refl _⟩
  | tend places hsame => exact ⟨hsame.config, hsame.host, hsame.backing, hsame.made⟩
  | teardown env => exact env.lasts_teardown

/-- No step changes the configuration or the host. -/
theorem Step.fixed {engine engine' : Engine} (h : Step engine engine') :
    engine'.env.config = engine.env.config ∧ engine'.env.host = engine.env.host :=
  ⟨h.lasts.config, h.lasts.host⟩

/-- A sequence of steps. -/
abbrev Reaches : Engine → Engine → Prop :=
  Relation.ReflTransGen Step

end Engine

/-! ## What every step keeps -/

/-- The numbers of the pages of a store. -/
def CodeStore.sequences (store : CodeStore) : List UInt32 :=
  store.pages.toList.map CodePage.sequence

/-- The numbers of the pages of the pool. -/
def PagePool.sequences (pool : PagePool) : List UInt32 :=
  pool.batches.flatten.map CodePage.sequence

/-- The pages that the heap served have the numbers of different requests. -/
def Environment.Numbered (env : Environment) : Prop :=
  ∃ requests : List Nat, env.pagesServed = requests.map UInt32.ofNat ∧ requests.Pairwise (· > ·) ∧
    ∀ request ∈ requests, request < env.pagesAsked

namespace CodeStore

variable {store store' : CodeStore}

theorem SameCode.sequences_eq (h : SameCode store store') : store'.sequences = store.sequences :=
  h.map_eq CodePage.sequence fun _ => rfl

@[simp]
theorem sequences_hold (store : CodeStore) (id : Nat) : (store.hold id).sequences = store.sequences :=
  (sameCode_hold store id).sequences_eq

@[simp]
theorem sequences_release (store : CodeStore) (threshold id : Nat) :
    (store.release threshold id).sequences = store.sequences :=
  (sameCode_release store threshold id).sequences_eq

theorem sequences_insert (store : CodeStore) (page : CodePage) :
    (store.insert page).2.sequences = store.sequences ++ [page.sequence] := by
  simp [sequences, insert]

theorem sequences_emit {id : Nat} {line : Line} {address : CodeRef} (h : store.emit id line = .ok (address, store')) :
    store'.sequences = store.sequences :=
  map_emit CodePage.sequence (fun _ _ => rfl) h

theorem sequences_patch {address : CodeRef} {line : Line} (h : store.patch address line = .ok store') :
    store'.sequences = store.sequences :=
  map_patch CodePage.sequence (fun _ _ => rfl) h

theorem Laid.sequences_drain {threshold : Nat} {opens fulls : List Nat} (h : Laid threshold store opens fulls []) :
    (store.drain.map CodePage.sequence).Perm store.sequences := by
  have hperm := h.drain_perm.map CodePage.sequence
  rwa [List.map_map] at hperm

end CodeStore

namespace Environment.Numbered

variable {env env' : Environment}

theorem of_eq (h : env.Numbered) (hasked : env'.pagesAsked = env.pagesAsked)
    (hserved : env'.pagesServed = env.pagesServed) : env'.Numbered := by
  unfold Environment.Numbered
  rw [hasked, hserved]
  exact h

/-- A request that is not served. -/
theorem refuse (h : env.Numbered) (hasked : env'.pagesAsked = env.pagesAsked + 1)
    (hserved : env'.pagesServed = env.pagesServed) : env'.Numbered := by
  obtain ⟨requests, heq, hdecreasing, hlt⟩ := h
  refine ⟨requests, hserved.trans heq, hdecreasing, fun request hmem => ?_⟩
  have := hlt request hmem
  omega

/-- A request that is served. -/
theorem serve (h : env.Numbered) (hasked : env'.pagesAsked = env.pagesAsked + 1)
    (hserved : env'.pagesServed = UInt32.ofNat env.pagesAsked :: env.pagesServed) : env'.Numbered := by
  obtain ⟨requests, heq, hdecreasing, hlt⟩ := h
  refine ⟨env.pagesAsked :: requests, ?_, List.pairwise_cons.2 ⟨hlt, hdecreasing⟩, ?_⟩
  · rw [hserved, heq, List.map_cons]
  · intro request hmem
    rcases List.mem_cons.1 hmem with rfl | hmem
    · omega
    · have := hlt request hmem
      omega

/-- As long as the numbers of the requests fit, no two pages have the same one. -/
theorem nodup (h : env.Numbered) (hasked : env.pagesAsked ≤ 0x100000000) : env.pagesServed.Nodup := by
  obtain ⟨requests, heq, hdecreasing, hlt⟩ := h
  rw [heq]
  refine List.Nodup.map_on ?_ (hdecreasing.imp fun hgt => Nat.ne_of_gt hgt)
  intro first hfirst second hsecond hnumber
  have h1 := hlt first hfirst
  have h2 := hlt second hsecond
  have hmod := congrArg UInt32.toNat hnumber
  simp only [UInt32.toNat_ofNat'] at hmod
  omega

end Environment.Numbered

namespace Engine

variable {env : Environment} {places : Multiset Workplace} {engine engine' : Engine}

/-- The numbers of the pages that the pool and the machines have. -/
def census (engine : Engine) : Multiset UInt32 :=
  (engine.env.pool.sequences : Multiset UInt32) +
    engine.places.bind fun place => (place.code.sequences : Multiset UInt32)

/-- The pool is tidy, the pages of machines are laid out, and each page that the heap served is in one place. -/
structure Sound (engine : Engine) : Prop where
  tidy : engine.env.pool.Tidy
  laid : ∀ place ∈ engine.places, ∃ opens fulls,
    place.code.Laid engine.env.config.freeLineThreshold opens fulls place.held
  census : engine.census = ↑engine.env.pagesServed
  numbered : engine.env.Numbered

/-- A machine and the pool change, and have together what they had and what the heap served. -/
theorem Sound.replace {env' : Environment} {place place' : Workplace}
    (h : Sound ⟨env, place ::ₘ places⟩) (served : List UInt32) (hconfig : env'.config = env.config)
    (htidy : env'.pool.Tidy)
    (hlaid : ∃ opens fulls, place'.code.Laid env.config.freeLineThreshold opens fulls place'.held)
    (hserved : env'.pagesServed = served ++ env.pagesServed)
    (hmoved : (env'.pool.sequences ++ place'.code.sequences).Perm
      (served ++ (env.pool.sequences ++ place.code.sequences)))
    (hnumbered : env'.Numbered) : Sound ⟨env', place' ::ₘ places⟩ where
  tidy := htidy
  laid := by
    change ∀ other ∈ place' ::ₘ places, ∃ opens fulls,
      other.code.Laid env'.config.freeLineThreshold opens fulls other.held
    rw [hconfig]
    intro other hother
    rcases Multiset.mem_cons.1 hother with rfl | hother
    · exact hlaid
    · exact h.laid other (Multiset.mem_cons_of_mem hother)
  census := by
    have hcensus := h.census
    have hmoved := Multiset.coe_eq_coe.2 hmoved
    simp only [Engine.census, Multiset.cons_bind, ← Multiset.coe_add, ← add_assoc] at hcensus hmoved ⊢
    rw [hmoved, hserved, ← Multiset.coe_add, add_assoc, add_assoc, ← add_assoc (env.pool.sequences : Multiset UInt32),
      hcensus]
  numbered := hnumbered

/-- A machine without pages may come and go. -/
theorem sound_cons_empty :
    Sound ⟨env, {} ::ₘ places⟩ ↔ Sound ⟨env, places⟩ := by
  have hcensus : census ⟨env, {} ::ₘ places⟩ = census ⟨env, places⟩ := by
    simp [census, CodeStore.sequences]
  constructor
  · intro h
    exact ⟨h.tidy, fun place hplace => h.laid place (Multiset.mem_cons_of_mem hplace), hcensus ▸ h.census, h.numbered⟩
  · intro h
    refine ⟨h.tidy, fun place hplace => ?_, hcensus ▸ h.census, h.numbered⟩
    rcases Multiset.mem_cons.1 hplace with rfl | hplace
    · exact ⟨[], [], .empty _⟩
    · exact h.laid place hplace

/-- Taking hold of a page, or failing to. -/
theorem Sound.acquired {minLines : Nat} {code : CodeStore} {held : List Nat} (h : Sound ⟨env, ⟨code, held⟩ ::ₘ places⟩)
    {result : EStateM.Result Error CodeArea Nat} (hresult : CodeArea.Acquired minLines ⟨env, code⟩ result) :
    match result with
    | .ok id area => Sound ⟨area.env, ⟨area.code, id :: held⟩ ::ₘ places⟩
    | .error _ area => Sound ⟨area.env, ⟨area.code, held⟩ ::ₘ places⟩ := by
  obtain ⟨opens, fulls, hlaid⟩ := h.laid ⟨code, held⟩ (Multiset.mem_cons_self ..)
  have hadopt : ∀ page : CodePage, ((code.insert page).2.hold (code.insert page).1).sequences =
      code.sequences ++ [page.sequence] := fun page => by
    rw [CodeStore.sequences_hold, CodeStore.sequences_insert]
  cases hresult with
  | opened htake =>
    obtain ⟨skipped, rest, -, htaken⟩ := hlaid.takeOpen htake
    refine h.replace [] rfl h.tidy ⟨_, _, htaken⟩ rfl ?_ h.numbered
    rw [CodeStore.sequences_hold, (CodeStore.sameCode_takeOpen htake).sequences_eq]
    exact .refl _
  | @pooled page pool hopen htake =>
    obtain ⟨hblank, htidy, hperm⟩ := h.tidy.take htake
    refine h.replace [] rfl htidy ⟨_, _, hlaid.insert hblank.usage hblank.next⟩ rfl ?_
      (h.numbered.of_eq rfl rfl)
    have hmoved := (hperm.map CodePage.sequence).append_right code.sequences
    change (pool.sequences ++ ((code.insert page).2.hold (code.insert page).1).sequences).Perm
      (env.pool.sequences ++ code.sequences)
    rw [hadopt, ← List.append_assoc]
    exact (List.perm_append_singleton _ _).trans hmoved.symm
  | @served page heap hopen hpool halloc =>
    obtain ⟨hblank, hsequence⟩ := CodePage.allocate_eq_some halloc
    refine h.replace [page.sequence] rfl h.tidy ⟨_, _, hlaid.insert hblank.usage hblank.next⟩ rfl ?_
      (h.numbered.serve rfl (hsequence ▸ rfl))
    change (env.pool.sequences ++ ((code.insert page).2.hold (code.insert page).1).sequences).Perm _
    rw [hadopt, ← List.append_assoc]
    exact List.perm_append_singleton _ _
  | refused hopen hpool halloc =>
    exact h.replace [] rfl h.tidy ⟨_, _, hlaid⟩ rfl (.refl _) (h.numbered.refuse rfl rfl)

/-- The pages of a machine that holds none go to the pool. -/
theorem Sound.leave {code : CodeStore}
    (h : Sound ⟨env, ⟨code, []⟩ ::ₘ places⟩) : Sound ⟨env.recycle code.drain, places⟩ := by
  obtain ⟨opens, fulls, hlaid⟩ := h.laid ⟨code, []⟩ (Multiset.mem_cons_self ..)
  have hblank : ∀ page ∈ code.drain, page.Blank := by
    intro page hpage
    obtain ⟨old, -, rfl⟩ := List.mem_map.1 (hlaid.drain_perm.mem_iff.1 hpage)
    exact old.blank_reset
  rw [← sound_cons_empty]
  refine h.replace [] rfl (h.tidy.add hblank) ⟨[], [], .empty _⟩ rfl ?_ (h.numbered.of_eq rfl rfl)
  change ((env.pool.add code.drain).sequences ++ []).Perm (env.pool.sequences ++ code.sequences)
  rw [List.append_nil, PagePool.sequences, PagePool.flatten_add, List.map_append]
  exact (hlaid.sequences_drain.append_right _).trans List.perm_append_comm

/-- What holds of an engine holds after any step. -/
theorem Sound.step (h : Sound engine) (hstep : Step engine engine') : Sound engine' := by
  cases hstep with
  | @acquire minLines _ env _ code _ held places hacquire =>
    have hacquired := CodeArea.acquired minLines ⟨env, code⟩
    rw [hacquire] at hacquired
    exact h.acquired hacquired
  | @refuse minLines _ env _ code _ held places hacquire =>
    have hacquired := CodeArea.acquired minLines ⟨env, code⟩
    rw [hacquire] at hacquired
    exact h.acquired hacquired
  | release env code places hid =>
    obtain ⟨opens, fulls, hlaid⟩ := h.laid _ (Multiset.mem_cons_self ..)
    refine h.replace [] rfl h.tidy (hlaid.release hid) rfl ?_ h.numbered
    rw [CodeStore.sequences_release]
    exact .refl _
  | emit env places hid hemit =>
    obtain ⟨opens, fulls, hlaid⟩ := h.laid _ (Multiset.mem_cons_self ..)
    refine h.replace [] rfl h.tidy ⟨_, _, hlaid.emit hid hemit⟩ rfl ?_ h.numbered
    rw [CodeStore.sequences_emit hemit]
    exact .refl _
  | patch env held places hpatch =>
    obtain ⟨opens, fulls, hlaid⟩ := h.laid _ (Multiset.mem_cons_self ..)
    refine h.replace [] rfl h.tidy ⟨_, _, hlaid.patch hpatch⟩ rfl ?_ h.numbered
    rw [CodeStore.sequences_patch hpatch]
    exact .refl _
  | arrive env places => exact sound_cons_empty.2 h
  | leave env code places => exact h.leave
  | tend places hsame =>
    have hcensus := h.census
    refine ⟨?_, ?_, ?_, h.numbered.of_eq hsame.pagesAsked hsame.pagesServed⟩
    · exact hsame.pool ▸ h.tidy
    · simpa only [hsame.config] using h.laid
    · unfold Engine.census at hcensus ⊢
      simpa only [hsame.pool, hsame.pagesServed] using hcensus
  | teardown env =>
    exact ⟨.empty, fun _ hplace => absurd hplace (Multiset.notMem_zero _), rfl, ⟨[], rfl, .nil, by simp⟩⟩

/-- What holds of an engine holds at every later point. -/
theorem Sound.reaches (h : Sound engine) (hreaches : Reaches engine engine') :
    Sound engine' := by
  induction hreaches with
  | refl => exact h
  | tail _ hstep ih => exact ih.step hstep

theorem Reaches.lasts (h : Reaches engine engine') : engine.env.Lasts engine'.env := by
  induction h with
  | refl => exact .refl _
  | tail _ hstep ih => exact ih.trans hstep.lasts

theorem Reaches.fixed (h : Reaches engine engine') :
    engine'.env.config = engine.env.config ∧ engine'.env.host = engine.env.host :=
  ⟨h.lasts.config, h.lasts.host⟩

end Engine

end WasmEngine
