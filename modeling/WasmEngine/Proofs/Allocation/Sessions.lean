import WasmEngine.Proofs.Allocation.Machines
import WasmEngine.Proofs.Session.Effects
import WasmEngine.Session.Start

/-!
# The code pages of a session

What a host does with its machines is a sequence of allocation steps. So the pages of every machine are laid out on two
chains and the held pages, and each page that the heap served is in one place, a machine or the pool.
-/

namespace WasmEngine

open Engine (Reaches)

/-- The code stores of some machines between two actions: no page is held. -/
def Table.places (machines : Table Machine) : Multiset Workplace :=
  ↑(machines.entries.map fun entry => ({ code := entry.2.code } : Workplace))

namespace Session

variable {permit : String → Permit} {session session' : Session}

/-- The environment and the machines of a session between two actions. -/
def engine (session : Session) : Engine :=
  ⟨session.env, session.machines.places⟩

/-- Does what the host asks for, one action after the other. -/
def performAll (session : Session) (actions : List Action) : Session :=
  actions.foldl (fun session action => (session.perform action).2) session

/-- A machine that is put is one more workplace. -/
theorem places_put (machines : Table Machine) (name : String) (machine : Machine) :
    (machines.put name machine).places = ⟨machine.code, []⟩ ::ₘ (machines.erase name).places :=
  rfl

/-- A machine that is there is one of the workplaces. -/
theorem places_of_get? {machines : Table Machine} {name : String} {machine : Machine}
    (h : machines.get? name = some machine) :
    machines.places = ⟨machine.code, []⟩ ::ₘ (machines.erase name).places :=
  Multiset.coe_eq_coe.2 ((Table.perm_of_get? h).map _)

theorem places_erase_of_get? {machines : Table Machine} {name : String} (h : machines.get? name = none) :
    (machines.erase name).places = machines.places := by
  unfold Table.places
  rw [Table.erase_eq_of_get? h]

theorem Effect.reaches (h : Effect permit session session') : Reaches session.engine session'.engine := by
  unfold engine
  cases h with
  | tend hmachines henv =>
    rw [hmachines]
    exact .single (.tend _ henv)
  | work hget hevents henv hmachines =>
    rw [hmachines, henv, places_put, places_of_get? hget]
    exact hevents.reaches _
  | create hmakes hreplaces hget hcreate hmachines =>
    obtain ⟨hcode, -, henv⟩ := Machine.create_eq_ok hcreate
    rw [hmachines, places_put, places_erase_of_get? hget, hcode]
    exact .head (.tend _ henv) (.single (.arrive _ _))
  | @replace name slots machine old env hmakes hreplaces hget hcreate henv hmachines =>
    obtain ⟨hcode, -, hsame⟩ := Machine.create_eq_ok hcreate
    rw [hmachines, henv, places_put, places_of_get? hget, hcode]
    exact (Relation.ReflTransGen.head (.tend _ hsame) (old.reaches_dispose env _)).tail (.arrive _ _)
  | @dispose name machine hreplaces hget henv hmachines =>
    rw [hmachines, henv, places_of_get? hget]
    exact machine.reaches_dispose _ _
  | teardown hempty henv hmachines =>
    have hplaces : session.machines.places = 0 := by
      unfold Table.places
      rw [hempty]
      rfl
    rw [hmachines, henv, hplaces]
    exact .single (.teardown _)

theorem Effects.reaches (h : Effects permit session session') : Reaches session.engine session'.engine := by
  induction h with
  | refl => exact .refl
  | tail _ heffect ih => exact ih.trans heffect.reaches

/-- Every action is a sequence of allocation steps. -/
theorem perform_reaches (session : Session) (action : Action) :
    Reaches session.engine (session.perform action).2.engine :=
  (perform_effects session action).reaches

theorem performAll_reaches (session : Session) (actions : List Action) :
    Reaches session.engine (session.performAll actions).engine := by
  induction actions generalizing session with
  | nil => exact .refl
  | cons action actions ih => exact (perform_reaches session action).trans (ih _)

variable (backing : Option Nat) (config : Config) (host : Host) (heap : Heap)

/-- Nothing is to be laid out or counted at the start. -/
theorem sound_startWithin : (startWithin backing config host heap).engine.Sound where
  tidy := .empty
  laid := fun _ hplace => absurd hplace (Multiset.notMem_zero _)
  census := rfl
  numbered := ⟨[], rfl, .nil, by simp⟩

/-- Every point of every session is sound. -/
theorem sound_of_reaches (actions : List Action) {engine : Engine}
    (h : Reaches ((startWithin backing config host heap).performAll actions).engine engine) :
    engine.Sound ∧ engine.env.config = config := by
  have hreaches := (performAll_reaches (startWithin backing config host heap) actions).trans h
  exact ⟨(sound_startWithin backing config host heap).reaches hreaches, Engine.Reaches.fixed hreaches |>.1⟩

theorem mem_places_of_get? {name : String} {machine : Machine} (h : session.machines.get? name = some machine) :
    (⟨machine.code, []⟩ : Workplace) ∈ session.engine.places := by
  change _ ∈ session.machines.places
  rw [places_of_get? h]
  exact Multiset.mem_cons_self ..

/-- At every point of every session the pages of a machine are on its two chains or held. -/
theorem laid_of_reaches (actions : List Action) {engine : Engine}
    (h : Reaches ((startWithin backing config host heap).performAll actions).engine engine) {place : Workplace}
    (hplace : place ∈ engine.places) :
    place.code.Laid config.freeLineThreshold (place.code.chain place.code.openHead)
      (place.code.chain place.code.fullHead) place.held := by
  obtain ⟨hsound, hconfig⟩ := sound_of_reaches backing config host heap actions h
  obtain ⟨opens, fulls, hlaid⟩ := hsound.laid place hplace
  obtain ⟨hopens, hfulls⟩ := hlaid.chains_eq
  rw [hopens, hfulls, ← hconfig]
  exact hlaid

/-- Between two actions of a host the pages of a machine are on its two chains, and nobody uses them. While a compiler
is at work on a machine, the page that it is at is held. Actions are sequences of steps, and at every point of any
sequence of steps the pages of every machine are on its two chains or held. -/
theorem pages_laid_out (actions : List Action) :
    let session := (startWithin backing config host heap).performAll actions
    (∀ name machine, session.machines.get? name = some machine →
      (machine.code.Laid config.freeLineThreshold (machine.code.chain machine.code.openHead)
          (machine.code.chain machine.code.fullHead) [] ∧
        machine.code.numActive = 0 ∧ machine.code.numOpen + machine.code.numFull = machine.code.numTotal ∧
        machine.code.numTotal = machine.code.pages.size ∧ ∀ page ∈ machine.code.pages, page.usage = 0) ∧
      ∀ minLines page area, CodeArea.acquire minLines ⟨session.env, machine.code⟩ = .ok page area →
        ∀ program : Compile Unit,
          let state := (area.compile page program).2
          state.area.code.Laid config.freeLineThreshold (state.area.code.chain state.area.code.openHead)
            (state.area.code.chain state.area.code.fullHead) [state.page]) ∧
    (∀ action, Reaches session.engine (session.perform action).2.engine) ∧
    ∀ engine, Reaches session.engine engine → ∀ place ∈ engine.places,
      place.code.Laid config.freeLineThreshold (place.code.chain place.code.openHead)
        (place.code.chain place.code.fullHead) place.held := by
  intro session
  refine ⟨?_, fun action => session.perform_reaches action, fun engine h place hplace =>
    laid_of_reaches backing config host heap actions h hplace⟩
  intro name machine hget
  have hlaid := laid_of_reaches backing config host heap actions .refl (mem_places_of_get? hget)
  refine ⟨⟨hlaid, hlaid.settled⟩, fun minLines page area hacquire program => ?_⟩
  intro state
  have hworking : Reaches session.engine
      ⟨state.area.env, ⟨state.area.code, [state.page]⟩ ::ₘ (session.machines.erase name).places⟩ := by
    unfold engine
    rw [places_of_get? hget]
    exact .head (.acquire _ _ hacquire) (area.compile_travels page program [] _)
  have hplace : (⟨state.area.code, [state.page]⟩ : Workplace) ∈
      ⟨state.area.code, [state.page]⟩ ::ₘ (session.machines.erase name).places := Multiset.mem_cons_self ..
  exact laid_of_reaches backing config host heap actions hworking hplace

/-- A compiler that moves to another page, fills it and fails leaves one page on each chain. The one on the open chain
can be acquired next. -/
theorem pages_laid_out_failed_compile :
    let session := (startWithin none { codePageAlign := 128, freeLineThreshold := 3 }
      (.ofBackends .scripted .absent none) (.system 0)).performAll
        [.create "a" 64, .build "m" [.function "v()" 0 [0x02, 1, 0x03, 8, 0x06, 0x00], .exportFunction 0 "f"],
          .load "a" "m", .find "a" "f"]
    ∃ machine page area, session.machines.get? "a" = some machine ∧
      (machine.code.numOpen, machine.code.numFull, machine.code.numTotal) = (1, 1, 2) ∧
      machine.code.Laid 3 (machine.code.chain machine.code.openHead) (machine.code.chain machine.code.fullHead) [] ∧
      CodeArea.acquire 3 ⟨session.env, machine.code⟩ = .ok page area ∧
      area.code.Laid 3 (area.code.chain area.code.openHead) (area.code.chain area.code.fullHead) [page] := by
  intro session
  have hcounts : (session.machines.get? "a").map
      (fun machine => (machine.code.numOpen, machine.code.numFull, machine.code.numTotal)) = some (1, 1, 2) := by
    decide +kernel
  obtain ⟨machine, hget, hcounts⟩ := Option.map_eq_some_iff.1 hcounts
  have hroom : (session.machines.get? "a").map
      (fun machine => (machine.code.takeOpen 3).isSome) = some true := by decide +kernel
  rw [hget, Option.map_some, Option.some.injEq] at hroom
  obtain ⟨⟨page, code⟩, htake⟩ := Option.isSome_iff_exists.1 hroom
  have hacquire : CodeArea.acquire 3 ⟨session.env, machine.code⟩ = .ok page ⟨session.env, code.hold page⟩ := by
    unfold CodeArea.acquire
    rw [htake]
  obtain ⟨⟨hlaid, -⟩, hworking⟩ := (pages_laid_out none _ _ _ _).1 "a" machine hget
  exact ⟨machine, page, _, hget, hcounts, hlaid, hacquire, hworking 3 page _ hacquire (pure ())⟩

/-- At every point of any sequence of steps the pool and the machines have, each once, the pages that the heap served;
the pool counts its pages right, has no empty batch and has blank pages only. Disposing of a machine adds all its
pages to the pool. -/
theorem pages_conserved (actions : List Action) :
    let session := (startWithin backing config host heap).performAll actions
    (∀ action, Reaches session.engine (session.perform action).2.engine) ∧
    (∀ engine, Reaches session.engine engine →
      engine.census = ↑engine.env.pagesServed ∧
      (engine.env.pagesAsked ≤ 0x100000000 → engine.env.pagesServed.Nodup) ∧
      engine.env.pool.Tidy) ∧
    ∀ name machine, session.machines.get? name = some machine →
      (machine.dispose session.env).pool.size = session.env.pool.size + machine.code.numTotal ∧
      (session.holdsEnvironment = true →
        (session.perform (.dispose name)).2.env.pool.size = session.env.pool.size + machine.code.numTotal) := by
  intro session
  refine ⟨fun action => session.perform_reaches action, fun engine h => ?_, fun name machine hget => ?_⟩
  · obtain ⟨hsound, -⟩ := sound_of_reaches backing config host heap actions h
    exact ⟨hsound.census, hsound.numbered.nodup, hsound.tidy⟩
  · have hlaid := laid_of_reaches backing config host heap actions .refl (mem_places_of_get? hget)
    have hdispose : (machine.dispose session.env).pool.size = session.env.pool.size + machine.code.numTotal := by
      rw [(machine.samePages_dispose session.env).pool]
      exact (PagePool.size_add _ _).trans (congrArg _ hlaid.length_drain)
    refine ⟨hdispose, fun hholds => ?_⟩
    simp only [perform, Session.dispose, hget, settle, hholds, Bool.not_true, Bool.false_and, Bool.false_eq_true,
      if_false]
    exact hdispose

/-- Two pages of a machine that was disposed of serve another machine, and go to the pool once more. -/
theorem pages_conserved_reuse :
    let session := (startWithin none { codePageAlign := 128, freeLineThreshold := 3 }
      (.ofBackends .scripted .absent none) (.system 0)).performAll
        [.create "a" 64, .build "m" [.function "v()" 0 [0x02, 1, 0x03, 8, 0x06, 0x00], .exportFunction 0 "f"],
          .copy "m" "n", .load "a" "m", .find "a" "f", .dispose "a", .create "b" 64, .load "b" "n", .find "b" "f"]
    session.engine.census = ↑[(1 : UInt32), 0] ∧ session.env.pagesServed.Nodup ∧
      (session.perform (.dispose "b")).2.env.pool.size = 2 := by
  intro session
  obtain ⟨-, hpoints, hdisposed⟩ := pages_conserved none { codePageAlign := 128, freeLineThreshold := 3 }
    (.ofBackends .scripted .absent none) (.system 0)
    [.create "a" 64, .build "m" [.function "v()" 0 [0x02, 1, 0x03, 8, 0x06, 0x00], .exportFunction 0 "f"],
      .copy "m" "n", .load "a" "m", .find "a" "f", .dispose "a", .create "b" 64, .load "b" "n", .find "b" "f"]
  obtain ⟨hcensus, hnodup, -⟩ := hpoints _ .refl
  have hserved : session.env.pagesServed = [1, 0] := by decide +kernel
  have htotal : (session.machines.get? "b").map (fun machine => machine.code.numTotal) = some 2 := by decide +kernel
  obtain ⟨machine, hget, htotal⟩ := Option.map_eq_some_iff.1 htotal
  refine ⟨hserved ▸ hcensus, hnodup (by decide +kernel), ?_⟩
  have hpool : session.env.pool.size = 0 := by decide +kernel
  rw [(hdisposed "b" machine hget).2 (by decide +kernel), hpool, htotal]

end Session

end WasmEngine
