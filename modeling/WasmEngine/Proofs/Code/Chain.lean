import WasmEngine.Code.Store

/-!
# Chains of code pages

`Chain pages head ids` says that following the `next` links of pages from `head` visits the pages `ids`, in this order,
and then ends.
-/

namespace WasmEngine.CodeStore

variable {pages pages' : Array CodePage} {head : Option Nat} {ids skipped rest : List Nat}

/-- Following the `next` links from `head` visits the pages `ids` in this order and then ends. -/
inductive Chain (pages : Array CodePage) : Option Nat → List Nat → Prop where
  | nil : Chain pages none []
  | cons {id : Nat} {page : CodePage} {ids : List Nat} (hpage : pages[id]? = some page)
      (hrest : Chain pages page.next ids) : Chain pages (some id) (id :: ids)

/-- A chain starts with its first page. -/
theorem Chain.head_eq (h : Chain pages head ids) : head = ids.head? := by
  cases h <;> rfl

/-- The pages on a chain exist. -/
theorem Chain.exists_page (h : Chain pages head ids) {id : Nat} (hid : id ∈ ids) :
    ∃ page, pages[id]? = some page := by
  induction h with
  | nil => cases hid
  | cons hpage hrest ih =>
    rcases List.mem_cons.1 hid with rfl | hid
    · exact ⟨_, hpage⟩
    · exact ih hid

/-- Only the links of its own pages matter to a chain. -/
theorem Chain.congr (h : Chain pages head ids)
    (hnext : ∀ id ∈ ids, pages'[id]?.map CodePage.next = pages[id]?.map CodePage.next) :
    Chain pages' head ids := by
  induction h with
  | nil => exact .nil
  | @cons id page ids hpage hrest ih =>
    have hlink := hnext id (List.mem_cons_self ..)
    rw [hpage] at hlink
    obtain ⟨page', hpage', hsame⟩ := Option.map_eq_some_iff.1 hlink
    refine .cons hpage' ?_
    rw [hsame]
    exact ih fun other hother => hnext other (List.mem_cons_of_mem _ hother)

/-- Following the links for long enough gives the chain. -/
theorem chainFrom_eq (h : Chain pages head ids) {fuel : Nat} (hfuel : ids.length ≤ fuel) :
    chainFrom pages fuel head = ids := by
  induction h generalizing fuel with
  | nil => cases fuel <;> rfl
  | cons hpage hrest ih =>
    cases fuel with
    | zero => cases hfuel
    | succ fuel =>
      simp only [List.length_cons, Nat.add_le_add_iff_right] at hfuel
      simp [chainFrom, hpage, ih hfuel]

/-- A page that the search for room finds is the first one on the chain with enough room. -/
theorem findRoom_eq_some (h : Chain pages head ids) {minLines fuel id : Nat} {start before after : Option Nat}
    (hfind : findRoom pages minLines fuel start head = some (before, id, after)) :
    ∃ skipped rest page, ids = skipped ++ id :: rest ∧ pages[id]? = some page ∧ minLines ≤ page.freeLines ∧
      (∀ other ∈ skipped, ∀ page, pages[other]? = some page → page.freeLines < minLines) ∧
      before = skipped.getLast?.or start ∧ after = rest.head? := by
  induction h generalizing fuel start with
  | nil => cases fuel <;> cases hfind
  | @cons first page ids hpage hrest ih =>
    cases fuel with
    | zero => cases hfind
    | succ fuel =>
      simp only [findRoom, hpage] at hfind
      split at hfind
      · rename_i hroom
        cases hfind
        exact ⟨[], ids, page, rfl, hpage, hroom, by simp, rfl, hrest.head_eq⟩
      · rename_i hroom
        obtain ⟨skipped, rest, found, hids, hfound, hfit, hskip, hbefore, hafter⟩ := ih hfind
        refine ⟨first :: skipped, rest, found, by simp [hids], hfound, hfit, ?_, ?_, hafter⟩
        · intro other hother otherPage hotherPage
          rcases List.mem_cons.1 hother with rfl | hother
          · rw [hpage] at hotherPage
            cases hotherPage
            omega
          · exact hskip other hother otherPage hotherPage
        · rw [hbefore]
          cases skipped with
          | nil => rfl
          | cons second skipped => simp [List.getLast?_cons]

/-- The search for room fails only if no page on the chain has enough. -/
theorem findRoom_eq_none (h : Chain pages head ids) {minLines fuel : Nat} {start : Option Nat}
    (hfuel : ids.length ≤ fuel) (hfind : findRoom pages minLines fuel start head = none) :
    ∀ id ∈ ids, ∀ page, pages[id]? = some page → page.freeLines < minLines := by
  induction h generalizing fuel start with
  | nil => simp
  | @cons first page ids hpage hrest ih =>
    cases fuel with
    | zero => cases hfuel
    | succ fuel =>
      simp only [List.length_cons, Nat.add_le_add_iff_right] at hfuel
      simp only [findRoom, hpage] at hfind
      split at hfind
      · cases hfind
      · rename_i hroom
        intro id hid other hother
        rcases List.mem_cons.1 hid with rfl | hid
        · rw [hpage] at hother
          cases hother
          omega
        · exact ih hfuel hfind id hid other hother

/-- A page is taken out of a chain by redirecting the link before it, or the head if there is none. -/
theorem Chain.unlink {id : Nat} (h : Chain pages head (skipped ++ id :: rest))
    (hnodup : (skipped ++ id :: rest).Nodup)
    (hlast : ∀ last, skipped.getLast? = some last → pages'[last]?.map CodePage.next = some rest.head?)
    (hother : ∀ other ∈ skipped ++ rest, skipped.getLast? ≠ some other →
      pages'[other]?.map CodePage.next = pages[other]?.map CodePage.next) :
    Chain pages' (if skipped = [] then rest.head? else head) (skipped ++ rest) := by
  -- The last skipped page is the only one whose link changes, so the induction runs down to it.
  induction skipped generalizing head with
  | nil =>
    cases h with
    | cons hpage hrest =>
      rw [if_pos rfl, ← hrest.head_eq]
      exact hrest.congr fun other hmem => hother other hmem (by simp)
  | cons first skipped ih =>
    rw [if_neg (List.cons_ne_nil _ _)]
    cases h with
    | @cons _ page _ hpage hrest =>
      have hnodup' := (List.nodup_cons.1 hnodup).2
      cases skipped with
      | nil =>
        obtain ⟨page', hpage', hnext⟩ := Option.map_eq_some_iff.1 (hlast first rfl)
        refine .cons hpage' ?_
        rw [hnext]
        have hfirst : ∀ other ∈ rest, other ≠ first := by
          rintro other hmem rfl
          exact (List.nodup_cons.1 hnodup).1 (by simp [hmem])
        have hpart := ih hrest hnodup' (by simp) fun other hmem _ =>
          hother other (by simpa using Or.inr hmem) (by simpa using (hfirst other hmem).symm)
        simpa using hpart
      | cons second skipped =>
        have hfirst : (first :: second :: skipped).getLast? ≠ some first := by
          intro heq
          rw [List.getLast?_cons_cons] at heq
          exact (List.nodup_cons.1 hnodup).1 (List.mem_append_left _ (List.mem_of_getLast? heq))
        have hlink := hother first (by simp) hfirst
        rw [hpage] at hlink
        obtain ⟨page', hpage', hnext⟩ := Option.map_eq_some_iff.1 hlink
        refine .cons hpage' ?_
        rw [hnext]
        have hpart := ih hrest hnodup' (fun last hl => hlast last (by rwa [List.getLast?_cons_cons]))
          fun other hmem hne => hother other (List.mem_cons_of_mem _ hmem) (by rwa [List.getLast?_cons_cons])
        simpa using hpart

end WasmEngine.CodeStore
