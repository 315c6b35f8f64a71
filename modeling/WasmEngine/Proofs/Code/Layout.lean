import Mathlib.Data.List.Perm.Basic
import WasmEngine.Proofs.Code.Chain

/-!
# How the pages of a store are laid out

A code store splits its pages into three lists: the open chain, the full chain, and the pages that are held (`Laid`).
Every operation of a store moves pages between the lists or leaves the lists alone.
-/

namespace WasmEngine

/-- A page apart from its link and its users. -/
def CodePage.bare (page : CodePage) : CodePage :=
  { page with usage := 0, next := none }

/-- A page without code that nobody holds and that is on no chain. -/
structure CodePage.Blank (page : CodePage) : Prop where
  lines : page.lines = #[]
  usage : page.usage = 0
  next : page.next = none

namespace CodeStore

variable {threshold : Nat} {store store' : CodeStore} {opens fulls held : List Nat} {id : Nat} {page : CodePage}
  {line : Line} {address : CodeRef}

/-- Each page of a store is on the open chain, on the full chain or held. -/
structure Laid (threshold : Nat) (store : CodeStore) (opens fulls held : List Nat) : Prop where
  openChain : Chain store.pages store.openHead opens
  fullChain : Chain store.pages store.fullHead fulls
  /-- The three lists have every page of the store once. -/
  split : (opens ++ fulls ++ held).Perm (List.range store.pages.size)
  numOpen : store.numOpen = opens.length
  numFull : store.numFull = fulls.length
  numActive : store.numActive = held.length
  numTotal : store.numTotal = store.pages.size
  idle : ∀ id ∈ opens ++ fulls, ∀ page, store.pages[id]? = some page → page.usage = 0
  busy : ∀ id ∈ held, ∀ page, store.pages[id]? = some page → page.usage = 1 ∧ page.next = none
  roomy : ∀ id ∈ opens, ∀ page, store.pages[id]? = some page → threshold ≤ page.freeLines
  tight : ∀ id ∈ fulls, ∀ page, store.pages[id]? = some page → page.freeLines < threshold

/-- Two stores have the same code: they differ in links, users, heads and counters at most. -/
def SameCode (store store' : CodeStore) : Prop :=
  ∀ id : Nat, store'.pages[id]?.map CodePage.bare = store.pages[id]?.map CodePage.bare

/-! ## Lists of pages -/

/-- The pages on a list have a property. -/
def All (store : CodeStore) (ids : List Nat) (property : CodePage → Prop) : Prop :=
  ∀ id ∈ ids, ∀ page, store.pages[id]? = some page → property page

section All

variable {ids : List Nat} {property : CodePage → Prop}

theorem All.cons (hpage : store.pages[id]? = some page) (hproperty : property page)
    (h : store.All ids property) : store.All (id :: ids) property := by
  intro other hmem otherPage hother
  rcases List.mem_cons.1 hmem with rfl | hmem
  · cases hpage.symm.trans hother
    exact hproperty
  · exact h other hmem otherPage hother

/-- The pages on the list stay as they are. -/
theorem All.congr (hsame : ∀ id ∈ ids, store'.pages[id]? = store.pages[id]?) (h : store.All ids property) :
    store'.All ids property := by
  intro id hmem page hpage
  rw [hsame id hmem] at hpage
  exact h id hmem page hpage

/-- Every page changes in some way. -/
theorem All.of_map {change : Nat → CodePage → CodePage}
    (hpages : ∀ id : Nat, store'.pages[id]? = store.pages[id]?.map (change id))
    (h : ∀ id ∈ ids, ∀ page, store.pages[id]? = some page → property (change id page)) :
    store'.All ids property := by
  intro id hmem page hpage
  rw [hpages] at hpage
  obtain ⟨old, hold, rfl⟩ := Option.map_eq_some_iff.1 hpage
  exact h id hmem old hold

end All

/-! ## The pages after each operation -/

theorem getElem?_unlink (store : CodeStore) {before : Option Nat} (after : Option Nat)
    (hbefore : before ≠ some id) (other : Nat) :
    (store.unlink before id after).pages[other]? = store.pages[other]?.map fun page =>
      { page with next := if other = id then none else if before = some other then after else page.next } := by
  cases before with
  | none =>
    simp only [unlink, update, Array.getElem?_modify, reduceCtorEq, if_false]
    by_cases h : id = other
    · simp [h]
    · simp [h, Ne.symm h]
  | some previous =>
    simp only [unlink, update, Array.getElem?_modify, Option.some.injEq]
    by_cases h : id = other
    · have hne : previous ≠ other := fun heq => hbefore (by rw [heq, h])
      simp [h, hne]
    · by_cases hp : previous = other
      · simp [h, hp, Ne.symm h]
      · simp [h, hp, Ne.symm h]

theorem getElem?_hold (store : CodeStore) (id other : Nat) :
    (store.hold id).pages[other]? = store.pages[other]?.map fun page =>
      { page with usage := if other = id then page.usage + 1 else page.usage } := by
  simp only [hold, update, Array.getElem?_modify]
  by_cases h : id = other
  · simp [h]
  · simp [h, Ne.symm h]

/-- Letting go of a held page changes its users and its link. -/
theorem getElem?_release (store : CodeStore) (threshold : Nat)
    (hpage : store.pages[id]? = some page) (husage : page.usage ≠ 0) (other : Nat) :
    (store.release threshold id).pages[other]? =
      if other = id then
        some { page with
          usage := page.usage - 1
          next := if page.freeLines < threshold then store.fullHead else store.openHead }
      else store.pages[other]? := by
  simp only [release, hpage, if_neg husage]
  by_cases h : other = id
  · subst h
    by_cases hroom : page.freeLines < threshold
    · simp [hroom, update, Array.getElem?_modify, hpage]
    · simp [hroom, update, Array.getElem?_modify, hpage]
  · by_cases hroom : page.freeLines < threshold
    · simp [hroom, update, Array.getElem?_modify, h, Ne.symm h]
    · simp [hroom, update, Array.getElem?_modify, h, Ne.symm h]

@[simp]
theorem size_unlink (store : CodeStore) (before : Option Nat) (id : Nat) (after : Option Nat) :
    (store.unlink before id after).pages.size = store.pages.size := by
  cases before <;> simp [unlink, update]

@[simp]
theorem size_hold (store : CodeStore) (id : Nat) : (store.hold id).pages.size = store.pages.size := by
  simp [hold, update]

@[simp]
theorem size_release (store : CodeStore) (threshold id : Nat) :
    (store.release threshold id).pages.size = store.pages.size := by
  unfold release
  repeat' split
  all_goals simp [update]

theorem sameCode_hold (store : CodeStore) (id : Nat) : SameCode store (store.hold id) := by
  intro other
  rw [getElem?_hold, Option.map_map]
  rfl

theorem sameCode_takeOpen {minLines : Nat} (h : store.takeOpen minLines = some (id, store')) :
    SameCode store store' := by
  have hmodify (pages : Array CodePage) (index : Nat) (next : Option Nat) (other : Nat) :
      (pages.modify index fun page => { page with next })[other]?.map CodePage.bare =
        pages[other]?.map CodePage.bare := by
    rw [Array.getElem?_modify]
    split
    · rw [Option.map_map]
      rfl
    · rfl
  unfold takeOpen at h
  split at h
  · cases h
  rename_i before found after _
  cases h
  intro other
  cases before with
  | none => exact hmodify ..
  | some previous => exact (hmodify ..).trans (hmodify ..)

theorem sameCode_release (store : CodeStore) (threshold id : Nat) :
    SameCode store (store.release threshold id) := by
  intro other
  cases hpage : store.pages[id]? with
  | none => simp [release, hpage]
  | some page =>
    by_cases husage : page.usage = 0
    · simp [release, hpage, husage]
    · rw [getElem?_release store threshold hpage husage]
      by_cases heq : other = id
      · rw [if_pos heq, heq, hpage]
        rfl
      · rw [if_neg heq]

/-- Stores with the same code agree in whatever depends on neither links nor users. -/
theorem SameCode.map_eq (h : SameCode store store') {α : Type} (f : CodePage → α)
    (hf : ∀ page, f page.bare = f page) : store'.pages.toList.map f = store.pages.toList.map f := by
  apply List.ext_getElem?
  intro id
  have hbare (pages : Array CodePage) : pages[id]?.map f = (pages[id]?.map CodePage.bare).map f := by
    rw [Option.map_map]
    exact Option.map_congr fun page _ => (hf page).symm
  rw [List.getElem?_map, List.getElem?_map, Array.getElem?_toList, Array.getElem?_toList, hbare, hbare, h id]

/-! ## Taking hold of a page -/

theorem Laid.nodup (h : Laid threshold store opens fulls held) : (opens ++ fulls ++ held).Nodup :=
  h.split.nodup_iff.2 List.nodup_range

theorem Laid.lt_size (h : Laid threshold store opens fulls held) (hid : id ∈ opens ++ fulls ++ held) :
    id < store.pages.size :=
  List.mem_range.1 (h.split.mem_iff.1 hid)

/-- A store without pages. -/
theorem Laid.empty (threshold : Nat) : Laid threshold {} [] [] [] where
  openChain := .nil
  fullChain := .nil
  split := .refl _
  numOpen := rfl
  numFull := rfl
  numActive := rfl
  numTotal := rfl
  idle := by simp
  busy := by simp
  roomy := by simp
  tight := by simp

/-- The store with a page taken off the open chain, behind the pages that were skipped. -/
def withoutOpen (store : CodeStore) (skipped : List Nat) (id : Nat) (rest : List Nat) : CodeStore :=
  { store.unlink skipped.getLast? id rest.head? with numOpen := store.numOpen - 1 }

theorem Laid.takeOpen_eq_some (h : Laid threshold store opens fulls held) {minLines : Nat}
    (htake : store.takeOpen minLines = some (id, store')) :
    ∃ skipped rest, opens = skipped ++ id :: rest ∧ store' = store.withoutOpen skipped id rest := by
  unfold CodeStore.takeOpen at htake
  split at htake
  · cases htake
  rename_i before found after hfind
  cases htake
  obtain ⟨skipped, rest, page, hopens, hpage, -, -, hbefore, hafter⟩ := findRoom_eq_some h.openChain hfind
  rw [Option.or_none] at hbefore
  exact ⟨skipped, rest, hopens, by rw [hbefore, hafter, withoutOpen]⟩

theorem openHead_withoutOpen (store : CodeStore) (skipped : List Nat) (id : Nat) (rest : List Nat) :
    ((store.withoutOpen skipped id rest).hold id).openHead =
      if skipped = [] then rest.head? else store.openHead := by
  unfold withoutOpen
  cases skipped with
  | nil => rfl
  | cons first skipped => rw [List.getLast?_cons]; rfl

/-- Nothing but the head of the open chain and the number of its pages changes beside the pages. -/
theorem withoutOpen_eq (store : CodeStore) (skipped : List Nat) (id : Nat) (rest : List Nat) :
    (store.withoutOpen skipped id rest).hold id =
      { (store.withoutOpen skipped id rest).hold id with
        fullHead := store.fullHead, numOpen := store.numOpen - 1, numFull := store.numFull
        numActive := store.numActive + 1, numTotal := store.numTotal } := by
  unfold withoutOpen
  cases skipped.getLast? with
  | none => rfl
  | some before => rfl

section TakeOpen

variable {skipped rest : List Nat} (h : Laid threshold store (skipped ++ id :: rest) fulls held)

include h

theorem Laid.open_ne : ∀ other ∈ skipped ++ rest, other ≠ id := by
  rintro other hmem rfl
  have hnodup : (skipped ++ other :: rest).Nodup := (List.nodup_append.1 (List.nodup_append.1 h.nodup).1).1
  exact (List.nodup_cons.1 (List.perm_middle.nodup_iff.1 hnodup)).1 hmem

/-- The page before the one that is taken is another page on the open chain. -/
theorem Laid.getLast?_skipped_ne : skipped.getLast? ≠ some id := fun hlast =>
  h.open_ne id (List.mem_append_left _ (List.mem_of_getLast? hlast)) rfl

theorem Laid.apart_of_open : ∀ other ∈ fulls ++ held, other ≠ id ∧ skipped.getLast? ≠ some other := by
  intro other hmem
  have hnodup := h.nodup
  rw [List.append_assoc] at hnodup
  have hdisjoint := (List.nodup_append.1 hnodup).2.2
  constructor
  · rintro rfl
    exact hdisjoint other (by simp) other hmem rfl
  · intro hlast
    exact hdisjoint other (List.mem_append_left _ (List.mem_of_getLast? hlast)) other hmem rfl

theorem Laid.getElem?_withoutOpen (other : Nat) :
    ((store.withoutOpen skipped id rest).hold id).pages[other]? =
      store.pages[other]?.map fun page =>
        { page with
          usage := if other = id then page.usage + 1 else page.usage
          next := if other = id then none else if skipped.getLast? = some other then rest.head? else page.next } := by
  rw [withoutOpen, getElem?_hold, getElem?_unlink store rest.head? h.getLast?_skipped_ne, Option.map_map]
  rfl

theorem Laid.holdOpen :
    Laid threshold ((store.withoutOpen skipped id rest).hold id) (skipped ++ rest) fulls (id :: held) := by
  have hopen : ∀ other ∈ skipped ++ rest, other ∈ skipped ++ id :: rest := fun other hmem =>
    List.perm_middle.mem_iff.2 (List.mem_cons_of_mem _ hmem)
  have hsize : ((store.withoutOpen skipped id rest).hold id).pages.size = store.pages.size := by
    rw [size_hold, withoutOpen, size_unlink]
  have hlist : (skipped ++ id :: rest).Nodup := (List.nodup_append.1 (List.nodup_append.1 h.nodup).1).1
  constructor
  case openChain =>
    -- What led to the page, the head or the link of its predecessor, leads on to the rest.
    rw [openHead_withoutOpen]
    refine h.openChain.unlink hlist ?_ ?_
    · intro last hlast
      have hmem := List.mem_append_left rest (List.mem_of_getLast? hlast)
      obtain ⟨lastPage, hlastPage⟩ := h.openChain.exists_page (hopen last hmem)
      rw [h.getElem?_withoutOpen, hlastPage, hlast]
      simp [h.open_ne last hmem]
    · intro other hmem hother
      rw [h.getElem?_withoutOpen, Option.map_map]
      simp [h.open_ne other hmem, hother, Function.comp_def]
  case fullChain =>
    rw [withoutOpen_eq]
    refine h.fullChain.congr fun other hmem => ?_
    obtain ⟨hne, hlast⟩ := h.apart_of_open other (List.mem_append_left _ hmem)
    rw [h.getElem?_withoutOpen, Option.map_map]
    simp [hne, hlast, Function.comp_def]
  case split =>
    rw [hsize]
    refine List.Perm.trans ?_ h.split
    rw [List.perm_iff_count]
    intro other
    simp only [List.count_append, List.count_cons]
    omega
  case numOpen =>
    rw [withoutOpen_eq]
    change store.numOpen - 1 = _
    rw [h.numOpen]
    simp only [List.length_append, List.length_cons]
    omega
  case numFull => rw [withoutOpen_eq]; exact h.numFull
  case numActive => rw [withoutOpen_eq]; exact congrArg (· + 1) h.numActive
  case numTotal => rw [hsize, withoutOpen_eq]; exact h.numTotal
  case idle =>
    refine All.of_map h.getElem?_withoutOpen fun other hmem old hold => ?_
    rcases List.mem_append.1 hmem with hmem | hmem
    · simp [h.open_ne other hmem, h.idle other (List.mem_append_left _ (hopen other hmem)) old hold]
    · simp [(h.apart_of_open other (List.mem_append_left _ hmem)).1,
        h.idle other (List.mem_append_right _ hmem) old hold]
  case busy =>
    refine All.of_map h.getElem?_withoutOpen fun other hmem old hold => ?_
    rcases List.mem_cons.1 hmem with rfl | hmem
    · simp [h.idle other (by simp) old hold]
    · obtain ⟨hne, hlast⟩ := h.apart_of_open other (List.mem_append_right _ hmem)
      simp [hne, hlast, h.busy other hmem old hold]
  case roomy => exact All.of_map h.getElem?_withoutOpen fun other hmem => h.roomy other (hopen other hmem)
  case tight => exact All.of_map h.getElem?_withoutOpen h.tight

end TakeOpen

/-- The first page with enough room is taken off the open chain and held. -/
theorem Laid.takeOpen (h : Laid threshold store opens fulls held) {minLines : Nat}
    (htake : store.takeOpen minLines = some (id, store')) :
    ∃ skipped rest, opens = skipped ++ id :: rest ∧
      Laid threshold (store'.hold id) (skipped ++ rest) fulls (id :: held) := by
  obtain ⟨skipped, rest, rfl, rfl⟩ := h.takeOpen_eq_some htake
  exact ⟨skipped, rest, rfl, h.holdOpen⟩

/-- A new page that nobody uses is added and held. -/
theorem Laid.insert (h : Laid threshold store opens fulls held) (husage : page.usage = 0) (hnext : page.next = none) :
    Laid threshold ((store.insert page).2.hold (store.insert page).1) opens fulls (store.pages.size :: held) := by
  have hpages : ∀ other : Nat, ((store.insert page).2.hold (store.insert page).1).pages[other]? =
      if other = store.pages.size then some { page with usage := page.usage + 1 } else store.pages[other]? := by
    intro other
    rw [getElem?_hold]
    simp only [CodeStore.insert, Array.getElem?_push]
    by_cases hother : other = store.pages.size
    · simp [hother]
    · simp [hother]
  have hold : ∀ other ∈ opens ++ fulls ++ held,
      ((store.insert page).2.hold (store.insert page).1).pages[other]? = store.pages[other]? := by
    intro other hmem
    rw [hpages, if_neg (Nat.ne_of_lt (h.lt_size hmem))]
  constructor
  case openChain =>
    exact h.openChain.congr fun other hmem => by rw [hold other (by simp [hmem])]
  case fullChain =>
    exact h.fullChain.congr fun other hmem => by rw [hold other (by simp [hmem])]
  case split =>
    rw [size_hold]
    simp only [CodeStore.insert, Array.size_push, List.range_succ]
    exact List.perm_middle.trans ((h.split.cons _).trans (List.perm_append_singleton _ _).symm)
  case numOpen => exact h.numOpen
  case numFull => exact h.numFull
  case numActive => exact congrArg (· + 1) h.numActive
  case numTotal =>
    rw [size_hold]
    simp only [CodeStore.insert, Array.size_push]
    exact congrArg (· + 1) h.numTotal
  case idle => exact All.congr (fun other hmem => hold other (List.mem_append_left _ hmem)) h.idle
  case busy =>
    refine All.cons ((hpages _).trans (if_pos rfl)) (by simp [husage, hnext]) ?_
    exact All.congr (fun other hmem => hold other (List.mem_append_right _ hmem)) h.busy
  case roomy => exact All.congr (fun other hmem => hold other (by simp [hmem])) h.roomy
  case tight => exact All.congr (fun other hmem => hold other (by simp [hmem])) h.tight

/-! ## Letting go of a page -/

section Release

variable (h : Laid threshold store opens fulls held) (hid : id ∈ held)

include h

theorem Laid.mem_erase_held : ∀ other ∈ held.erase id, other ∈ held ∧ other ≠ id := by
  intro other hmem
  have hnodup : held.Nodup := (List.nodup_append.1 h.nodup).2.1
  exact ⟨List.mem_of_mem_erase hmem, (hnodup.mem_erase_iff.1 hmem).1⟩

include hid

theorem Laid.ne_of_held : ∀ other ∈ opens ++ fulls, other ≠ id := by
  rintro other hmem rfl
  exact (List.nodup_append.1 h.nodup).2.2 other hmem other hid rfl

theorem Laid.length_erase_held : store.numActive - 1 = (held.erase id).length := by
  rw [h.numActive, List.length_erase_of_mem hid]

/-- The page that is let go is one of the pages, wherever it is put. -/
theorem Laid.split_release :
    (id :: opens ++ fulls ++ held.erase id).Perm (List.range (store.release threshold id).pages.size) := by
  rw [size_release]
  refine List.Perm.trans ?_ h.split
  rw [List.cons_append, List.cons_append]
  exact List.perm_middle.symm.trans ((List.perm_cons_erase hid).symm.append_left _)

variable (hpage : store.pages[id]? = some page)

include hpage

theorem Laid.usage_ne_zero : page.usage ≠ 0 := by
  rw [(h.busy id hid page hpage).1]
  exact Nat.one_ne_zero

/-- Nobody uses the page that is let go, and it is linked to the chain that its room puts it on. -/
theorem Laid.getElem?_release_self :
    (store.release threshold id).pages[id]? = some { page with
      usage := 0
      next := if page.freeLines < threshold then store.fullHead else store.openHead } := by
  rw [getElem?_release store threshold hpage (h.usage_ne_zero hid hpage), if_pos rfl, (h.busy id hid page hpage).1]

/-- The other pages stay as they are. -/
theorem Laid.getElem?_release_of_ne {other : Nat} (hne : other ≠ id) :
    (store.release threshold id).pages[other]? = store.pages[other]? := by
  rw [getElem?_release store threshold hpage (h.usage_ne_zero hid hpage), if_neg hne]

theorem Laid.getElem?_release_chained :
    ∀ other ∈ opens ++ fulls, (store.release threshold id).pages[other]? = store.pages[other]? := fun other hmem =>
  h.getElem?_release_of_ne hid hpage (h.ne_of_held hid other hmem)

theorem Laid.idle_release : (store.release threshold id).All (id :: (opens ++ fulls)) (·.usage = 0) :=
  .cons (h.getElem?_release_self hid hpage) rfl (.congr (h.getElem?_release_chained hid hpage) h.idle)

theorem Laid.busy_release :
    (store.release threshold id).All (held.erase id) fun page => page.usage = 1 ∧ page.next = none :=
  .congr (fun other hmem => h.getElem?_release_of_ne hid hpage (h.mem_erase_held other hmem).2)
    fun other hmem => h.busy other (h.mem_erase_held other hmem).1

theorem Laid.openChain_release : Chain (store.release threshold id).pages store.openHead opens :=
  h.openChain.congr fun other hmem => by
    rw [h.getElem?_release_chained hid hpage other (List.mem_append_left _ hmem)]

theorem Laid.fullChain_release : Chain (store.release threshold id).pages store.fullHead fulls :=
  h.fullChain.congr fun other hmem => by
    rw [h.getElem?_release_chained hid hpage other (List.mem_append_right _ hmem)]

theorem Laid.roomy_release : (store.release threshold id).All opens (threshold ≤ ·.freeLines) :=
  .congr (fun other hmem => h.getElem?_release_chained hid hpage other (List.mem_append_left _ hmem)) h.roomy

theorem Laid.tight_release : (store.release threshold id).All fulls (·.freeLines < threshold) :=
  .congr (fun other hmem => h.getElem?_release_chained hid hpage other (List.mem_append_right _ hmem)) h.tight

/-- A held page with little room goes in front of the full chain when it is let go. -/
theorem Laid.release_full (hroom : page.freeLines < threshold) :
    Laid threshold (store.release threshold id) opens (id :: fulls) (held.erase id) := by
  have hself := h.getElem?_release_self hid hpage
  rw [if_pos hroom] at hself
  have hstore : store.release threshold id =
      { store.release threshold id with
        openHead := store.openHead, fullHead := some id, numOpen := store.numOpen
        numFull := store.numFull + 1, numActive := store.numActive - 1, numTotal := store.numTotal } := by
    simp [CodeStore.release, hpage, h.usage_ne_zero hid hpage, hroom, update]
  constructor
  case openChain => rw [hstore]; exact h.openChain_release hid hpage
  case fullChain => rw [hstore]; exact .cons hself (h.fullChain_release hid hpage)
  case split => exact (List.perm_middle.append_right _).trans (h.split_release hid)
  case numOpen => rw [hstore]; exact h.numOpen
  case numFull => rw [hstore]; exact congrArg (· + 1) h.numFull
  case numActive => rw [hstore]; exact h.length_erase_held hid
  case numTotal => rw [size_release, hstore]; exact h.numTotal
  case idle => exact fun other hmem => h.idle_release hid hpage other (List.perm_middle.mem_iff.1 hmem)
  case busy => exact h.busy_release hid hpage
  case roomy => exact h.roomy_release hid hpage
  case tight => exact All.cons hself hroom (h.tight_release hid hpage)

/-- A held page with enough room goes in front of the open chain when it is let go. -/
theorem Laid.release_open (hroom : threshold ≤ page.freeLines) :
    Laid threshold (store.release threshold id) (id :: opens) fulls (held.erase id) := by
  have hself := h.getElem?_release_self hid hpage
  rw [if_neg (Nat.not_lt.2 hroom)] at hself
  have hstore : store.release threshold id =
      { store.release threshold id with
        openHead := some id, fullHead := store.fullHead, numOpen := store.numOpen + 1
        numFull := store.numFull, numActive := store.numActive - 1, numTotal := store.numTotal } := by
    simp [CodeStore.release, hpage, h.usage_ne_zero hid hpage, Nat.not_lt.2 hroom, update]
  constructor
  case openChain => rw [hstore]; exact .cons hself (h.openChain_release hid hpage)
  case fullChain => rw [hstore]; exact h.fullChain_release hid hpage
  case split => exact h.split_release hid
  case numOpen => rw [hstore]; exact congrArg (· + 1) h.numOpen
  case numFull => rw [hstore]; exact h.numFull
  case numActive => rw [hstore]; exact h.length_erase_held hid
  case numTotal => rw [size_release, hstore]; exact h.numTotal
  case idle => exact h.idle_release hid hpage
  case busy => exact h.busy_release hid hpage
  case roomy => exact All.cons hself hroom (h.roomy_release hid hpage)
  case tight => exact h.tight_release hid hpage

omit hpage in
/-- A held page that is let go goes in front of the chain that its room puts it on. -/
theorem Laid.release : ∃ opens' fulls', Laid threshold (store.release threshold id) opens' fulls' (held.erase id) := by
  obtain ⟨page, hpage⟩ : ∃ page, store.pages[id]? = some page :=
    ⟨_, Array.getElem?_eq_getElem (h.lt_size (List.mem_append_right _ hid))⟩
  rcases Nat.lt_or_ge page.freeLines threshold with hroom | hroom
  · exact ⟨_, _, h.release_full hid hpage hroom⟩
  · exact ⟨_, _, h.release_open hid hpage hroom⟩

end Release

/-- A store without held pages has all its pages on the chains, and nobody uses them. -/
theorem Laid.settled (h : Laid threshold store opens fulls []) :
    store.numActive = 0 ∧ store.numOpen + store.numFull = store.numTotal ∧ store.numTotal = store.pages.size ∧
      ∀ page ∈ store.pages, page.usage = 0 := by
  have hlength := h.split.length_eq
  simp only [List.length_append, List.length_range, List.append_nil] at hlength
  refine ⟨h.numActive, ?_, h.numTotal, fun page hpage => ?_⟩
  · rw [h.numOpen, h.numFull, h.numTotal, hlength]
  · obtain ⟨id, hid, hget⟩ := Array.mem_iff_getElem.1 hpage
    have hmem : id ∈ opens ++ fulls ++ [] := h.split.mem_iff.2 (List.mem_range.2 hid)
    rw [List.append_nil] at hmem
    exact h.idle id hmem page (Array.getElem?_eq_some_iff.2 ⟨hid, hget⟩)

/-! ## Writing code -/

/-- What emitting a line does to the store. -/
theorem emit_eq_ok (h : store.emit id line = .ok (address, store')) :
    ∃ page, store.pages[id]? = some page ∧ page.freeLines ≠ 0 ∧ address = ⟨id, page.pc⟩ ∧
      store' = { store with pages := store.pages.setIfInBounds id { page with lines := page.lines.push line } } := by
  unfold emit at h
  cases hpage : store.pages[id]? with
  | none => simp [hpage] at h
  | some page =>
    simp only [hpage, CodePage.emit] at h
    by_cases hfull : page.freeLines = 0
    · simp [hfull] at h
    · simp only [if_neg hfull] at h
      cases h
      exact ⟨page, rfl, hfull, rfl, rfl⟩

/-- What replacing a line does to the store. -/
theorem patch_eq_ok (h : store.patch address line = .ok store') :
    ∃ page, store.pages[address.page]? = some page ∧ address.line < page.lines.size ∧
      store' = { store with
        pages := store.pages.setIfInBounds address.page
          { page with lines := page.lines.setIfInBounds address.line line } } := by
  unfold patch at h
  cases hpage : store.pages[address.page]? with
  | none => simp [hpage] at h
  | some page =>
    simp only [hpage, CodePage.patch] at h
    by_cases hline : address.line < page.lines.size
    · simp only [if_pos hline] at h
      cases h
      exact ⟨page, rfl, hline, rfl⟩
    · simp [hline] at h

/-- Putting a page in the place of one that agrees with it in something leaves that alone. -/
theorem map_setIfInBounds {α : Type} (f : CodePage → α) {page' : CodePage}
    (hpage : store.pages[id]? = some page) (hsame : f page' = f page) :
    (store.pages.setIfInBounds id page').toList.map f = store.pages.toList.map f := by
  have hlt : id < store.pages.toList.length := (Array.getElem?_eq_some_iff.1 hpage).1
  have hget : store.pages.toList[id] = page := (Array.getElem?_eq_some_iff.1 hpage).2
  rw [Array.toList_setIfInBounds, List.map_set, hsame, ← hget, ← List.getElem_map f (h := by simpa using hlt),
    List.set_getElem_self]

/-- Writing code leaves alone whatever does not depend on lines. -/
theorem map_emit {α : Type} (f : CodePage → α) (hf : ∀ (page : CodePage) (lines : Array Line),
    f { page with lines } = f page)
    (h : store.emit id line = .ok (address, store')) : store'.pages.toList.map f = store.pages.toList.map f := by
  obtain ⟨page, hpage, -, -, rfl⟩ := emit_eq_ok h
  exact map_setIfInBounds f hpage (hf page _)

theorem map_patch {α : Type} (f : CodePage → α) (hf : ∀ (page : CodePage) (lines : Array Line),
    f { page with lines } = f page) (h : store.patch address line = .ok store') :
    store'.pages.toList.map f = store.pages.toList.map f := by
  obtain ⟨page, hpage, -, rfl⟩ := patch_eq_ok h
  exact map_setIfInBounds f hpage (hf page _)

/-- Changing the lines of one page leaves the layout alone, if the page is held or keeps its room. -/
theorem Laid.rewrite (h : Laid threshold store opens fulls held) {lines : Array Line}
    (hpage : store.pages[id]? = some page)
    (hroom : id ∈ held ∨ ({ page with lines } : CodePage).freeLines = page.freeLines) :
    Laid threshold { store with pages := store.pages.setIfInBounds id { page with lines } } opens fulls held := by
  have hpages (other : Nat) : (store.pages.setIfInBounds id { page with lines })[other]? =
      store.pages[other]?.map fun old => { old with lines := if other = id then lines else old.lines } := by
    rw [Array.getElem?_setIfInBounds]
    by_cases heq : id = other
    · subst heq
      rw [if_pos rfl, if_pos (Array.getElem?_eq_some_iff.1 hpage).1, hpage]
      simp
    · simp [heq, Ne.symm heq]
  have hnext (other : Nat) : (store.pages.setIfInBounds id { page with lines })[other]?.map CodePage.next =
      store.pages[other]?.map CodePage.next := by
    rw [hpages, Option.map_map]
    rfl
  have hfree : ∀ other ∈ opens ++ fulls, ∀ old, store.pages[other]? = some old →
      ({ old with lines := if other = id then lines else old.lines } : CodePage).freeLines = old.freeLines := by
    intro other hmem old hold
    have hheld : other ∉ held := fun hheld => (List.nodup_append.1 h.nodup).2.2 other hmem other hheld rfl
    split
    · rename_i heq
      subst heq
      cases hpage.symm.trans hold
      exact hroom.resolve_left hheld
    · rfl
  constructor
  case openChain => exact h.openChain.congr fun other _ => hnext other
  case fullChain => exact h.fullChain.congr fun other _ => hnext other
  case split => simpa using h.split
  case numOpen => exact h.numOpen
  case numFull => exact h.numFull
  case numActive => exact h.numActive
  case numTotal => simpa using h.numTotal
  case idle => exact All.of_map hpages h.idle
  case busy => exact All.of_map hpages h.busy
  case roomy =>
    refine All.of_map hpages fun other hmem old hold => ?_
    rw [hfree other (List.mem_append_left _ hmem) old hold]
    exact h.roomy other hmem old hold
  case tight =>
    refine All.of_map hpages fun other hmem old hold => ?_
    rw [hfree other (List.mem_append_right _ hmem) old hold]
    exact h.tight other hmem old hold

/-- Emitting onto a held page leaves the layout alone. -/
theorem Laid.emit (h : Laid threshold store opens fulls held)
    (hid : id ∈ held) (hemit : store.emit id line = .ok (address, store')) :
    Laid threshold store' opens fulls held := by
  obtain ⟨page, hpage, -, -, rfl⟩ := emit_eq_ok hemit
  exact h.rewrite hpage (.inl hid)

/-- Replacing a line of any page leaves the layout alone. -/
theorem Laid.patch (h : Laid threshold store opens fulls held)
    (hpatch : store.patch address line = .ok store') : Laid threshold store' opens fulls held := by
  obtain ⟨page, hpage, -, rfl⟩ := patch_eq_ok hpatch
  exact h.rewrite hpage (.inr (by simp [CodePage.freeLines]))

/-! ## Draining -/

/-- Looking up all places of a list one after the other gives the list. -/
theorem filterMap_range_getElem? {α β : Type} (f : α → β) (items : List α) :
    (List.range items.length).filterMap (fun index => items[index]?.map f) = items.map f := by
  induction items with
  | nil => rfl
  | cons item items ih =>
    rw [List.length_cons, List.range_succ_eq_map, List.filterMap_cons, List.filterMap_map]
    simpa [Function.comp_def] using ih

/-- Following the links of a store finds the two chains. -/
theorem Laid.chains_eq (h : Laid threshold store opens fulls held) :
    store.chain store.openHead = opens ∧ store.chain store.fullHead = fulls := by
  have hlength := h.split.length_eq
  simp only [List.length_append, List.length_range] at hlength
  exact ⟨chainFrom_eq h.openChain (by omega), chainFrom_eq h.fullChain (by omega)⟩

/-- A store without held pages drains to all its pages. -/
theorem Laid.drain_perm (h : Laid threshold store opens fulls []) :
    store.drain.Perm (store.pages.toList.map CodePage.reset) := by
  obtain ⟨hopens, hfulls⟩ := h.chains_eq
  have hsplit := h.split
  rw [List.append_nil] at hsplit
  unfold drain
  rw [hopens, hfulls, ← filterMap_range_getElem?]
  simpa using hsplit.filterMap fun id => store.pages[id]?.map CodePage.reset

theorem Laid.length_drain (h : Laid threshold store opens fulls []) : store.drain.length = store.numTotal := by
  rw [h.drain_perm.length_eq, List.length_map, Array.length_toList, h.numTotal]

end CodeStore

end WasmEngine
