import Mathlib.Data.List.Infix
import WasmEngine.Proofs.Code.Area

/-!
# The text of code pages

The text of a page is the code on it, apart from who holds the page and which chain it is on. A store extends another
one if the text of each page begins with what it was (`CodeStore.Extends`), and code behind it is gained
(`CodeStore.Gains`).
-/

namespace WasmEngine

namespace CodeStore

variable {store store' store'' : CodeStore} {id : Nat} {line : Line} {entry : CodeRef} {lines : List Line}

/-- The lines of a page; a page that does not exist has none. -/
def text (store : CodeStore) (id : Nat) : List Line :=
  match store.pages[id]? with
  | none => []
  | some page => page.lines.toList

/-- The text of every page goes on from what it was. -/
def Extends (store store' : CodeStore) : Prop :=
  ∀ id, store.text id <+: store'.text id

/-- No text gets shorter. -/
def Grows (store store' : CodeStore) : Prop :=
  ∀ id, (store.text id).length ≤ (store'.text id).length

/-- Lines have numbers of 32 bits, and there are no lines beyond. -/
def Addressable (store : CodeStore) : Prop :=
  ∀ id, (store.text id).length ≤ 0xFFFFFFFF

/-- Some lines stand at an address. -/
def Holds (store : CodeStore) (entry : CodeRef) (lines : List Line) : Prop :=
  ∃ before after, store.text entry.page = before ++ lines ++ after ∧ before.length = entry.line

/-- Lines are put behind the text of a page. -/
def Appends (store store' : CodeStore) (id : Nat) (lines : List Line) : Prop :=
  ∀ other, store'.text other = if other = id then store.text id ++ lines else store.text other

/-- Lines come to stand at an address behind all that was on the page. -/
structure Gains (store store' : CodeStore) (entry : CodeRef) (lines : List Line) : Prop where
  keeps : store.Extends store'
  fresh : (store.text entry.page).length ≤ entry.line
  holds : store'.Holds entry lines

theorem text_of_getElem? {page : CodePage} (h : store.pages[id]? = some page) :
    store.text id = page.lines.toList := by
  simp only [text, h]

theorem addressable_of_all (h : (store.pages.all fun page => page.lines.size ≤ 0xFFFFFFFF) = true) :
    store.Addressable := by
  intro id
  unfold text
  cases hpage : store.pages[id]? with
  | none => exact Nat.zero_le _
  | some page =>
    rw [Array.all_eq_true_iff_forall_mem] at h
    simpa using h page (Array.mem_of_getElem? hpage)

theorem line?_eq (store : CodeStore) (address : CodeRef) :
    store.line? address = (store.text address.page)[address.line]? := by
  unfold line? text
  cases store.pages[address.page]? with
  | none => rfl
  | some page => exact (Array.getElem?_toList).symm

theorem pc_eq (store : CodeStore) (id : Nat) : store.pc id = ⟨id, min (store.text id).length 0xFFFFFFFF⟩ := by
  unfold pc text
  cases store.pages[id]? with
  | none => rfl
  | some page => rfl

/-! ## Relations between texts -/

theorem Extends.refl (store : CodeStore) : store.Extends store :=
  fun _ => List.prefix_refl _

theorem Extends.trans (h : store.Extends store') (h' : store'.Extends store'') : store.Extends store'' :=
  fun id => (h id).trans (h' id)

theorem Extends.of_eq (h : store'.text = store.text) : store.Extends store' :=
  fun _ => h ▸ List.prefix_refl _

theorem Extends.grows (h : store.Extends store') : store.Grows store' :=
  fun id => (h id).length_le

theorem Extends.line? (h : store.Extends store') {address : CodeRef}
    (hline : store.line? address = some line) : store'.line? address = some line := by
  rw [line?_eq] at hline ⊢
  obtain ⟨more, hmore⟩ := h address.page
  rw [← hmore, List.getElem?_append_left (List.getElem?_eq_some_iff.1 hline).1, hline]

theorem Grows.refl (store : CodeStore) : store.Grows store :=
  fun _ => Nat.le_refl _

theorem Grows.trans (h : store.Grows store') (h' : store'.Grows store'') : store.Grows store'' :=
  fun id => Nat.le_trans (h id) (h' id)

/-- Where the last line has a number, each had one before. -/
theorem Addressable.of_grows (h : store'.Addressable) (hgrows : store.Grows store') : store.Addressable :=
  fun id => Nat.le_trans (hgrows id) (h id)

theorem Holds.extends (h : store.Holds entry lines) (hextends : store.Extends store') : store'.Holds entry lines := by
  obtain ⟨before, after, htext, hlength⟩ := h
  obtain ⟨more, hmore⟩ := hextends entry.page
  exact ⟨before, after ++ more, by rw [← hmore, htext, List.append_assoc], hlength⟩

theorem Holds.le_length (h : store.Holds entry lines) :
    entry.line + lines.length ≤ (store.text entry.page).length := by
  obtain ⟨before, after, htext, hlength⟩ := h
  rw [htext, List.length_append, List.length_append, hlength]
  omega

/-- The lines that stand at an address are found one after the other. -/
theorem Holds.line? (h : store.Holds entry lines) {index : Nat}
    (hline : lines[index]? = some line) : store.line? (entry.offset index) = some line := by
  obtain ⟨before, after, htext, hlength⟩ := h
  have hlt : index < lines.length := (List.getElem?_eq_some_iff.1 hline).1
  rw [line?_eq]
  change (store.text entry.page)[entry.line + index]? = some line
  rw [htext, ← hlength, List.append_assoc, List.getElem?_append_right (Nat.le_add_right ..), Nat.add_sub_cancel_left,
    List.getElem?_append_left hlt, hline]

theorem Holds.head (h : store.Holds entry (line :: lines)) :
    store.line? entry = some line := by
  have hline : (line :: lines)[0]? = some line := rfl
  exact h.line? hline

theorem Holds.second {line' : Line} (h : store.Holds entry (line :: line' :: lines)) :
    store.line? (entry.offset 1) = some line' := by
  have hline : (line :: line' :: lines)[1]? = some line' := rfl
  exact h.line? hline

theorem Holds.append_left {lines' : List Line} (h : store.Holds entry (lines ++ lines')) :
    store.Holds entry lines := by
  obtain ⟨before, after, htext, hlength⟩ := h
  exact ⟨before, lines' ++ after, by simpa using htext, hlength⟩

theorem Holds.append_right {lines' : List Line} (h : store.Holds entry (lines ++ lines')) :
    store.Holds (entry.offset lines.length) lines' := by
  obtain ⟨before, after, htext, hlength⟩ := h
  refine ⟨before ++ lines, after, ?_, ?_⟩
  · rw [List.append_assoc before]
    exact htext
  · rw [List.length_append, hlength]
    rfl

/-- Part of the lines that stand at an address. -/
theorem Holds.part {page start : Nat} {part rest : List Line} (h : store.Holds ⟨page, start⟩ lines)
    (index : Nat) (hindex : index ≤ lines.length) (hpart : lines.drop index = part ++ rest) :
    store.Holds ⟨page, start + index⟩ part := by
  rw [← List.take_append_drop index lines, hpart] at h
  have hrest := h.append_right
  rw [List.length_take, Nat.min_eq_left hindex] at hrest
  exact hrest.append_left

theorem Appends.extends (h : store.Appends store' id lines) : store.Extends store' := by
  intro other
  rw [h other]
  split
  · rename_i heq
    exact heq ▸ List.prefix_append _ _
  · exact List.prefix_refl _

/-- Lines that are put behind a text that goes on from another are gained. -/
theorem Appends.gains (h : store'.Appends store'' id lines)
    (hextends : store.Extends store') : store.Gains store'' ⟨id, (store'.text id).length⟩ lines where
  keeps := hextends.trans h.extends
  fresh := (hextends id).length_le
  holds := ⟨store'.text id, [], by rw [h id, if_pos rfl, List.append_nil], rfl⟩

theorem Gains.extends (h : store.Gains store' entry lines)
    (hextends : store'.Extends store'') : store.Gains store'' entry lines where
  keeps := h.keeps.trans hextends
  fresh := h.fresh
  holds := h.holds.extends hextends

/-- What is gained later was not there before either. -/
theorem Gains.after (hextends : store.Extends store')
    (h : store'.Gains store'' entry lines) : store.Gains store'' entry lines where
  keeps := hextends.trans h.keeps
  fresh := Nat.le_trans (hextends entry.page).length_le h.fresh
  holds := h.holds

/-! ## What operations do to texts -/

theorem SameCode.text_eq (h : SameCode store store') : store'.text = store.text := by
  funext id
  have hpage := h id
  unfold text
  cases hold : store.pages[id]? with
  | none =>
    rw [hold, Option.map_none, Option.map_eq_none_iff] at hpage
    rw [hpage]
  | some page =>
    rw [hold, Option.map_some, Option.map_eq_some_iff] at hpage
    obtain ⟨page', hpage', hbare⟩ := hpage
    rw [hpage']
    exact congrArg (fun page => page.lines.toList) hbare

/-- A new page takes no other's place. -/
theorem extends_insert (store : CodeStore) (page : CodePage) : store.Extends (store.insert page).2 := by
  intro id
  unfold text insert
  cases hpage : store.pages[id]? with
  | none => exact List.nil_prefix
  | some old =>
    have hlt : id < store.pages.size := (Array.getElem?_eq_some_iff.1 hpage).1
    simp only [Array.getElem?_push, Nat.ne_of_lt hlt, if_false, hpage]
    exact List.prefix_refl _

theorem appends_emit {address : CodeRef} (h : store.emit id line = .ok (address, store')) :
    store.Appends store' id [line] := by
  obtain ⟨page, hpage, -, rfl, rfl⟩ := emit_eq_ok h
  have hlt : id < store.pages.size := (Array.getElem?_eq_some_iff.1 hpage).1
  intro other
  by_cases heq : other = id
  · rw [if_pos heq, heq, text_of_getElem? hpage]
    simp [text, hlt]
  · rw [if_neg heq]
    simp [text, Ne.symm heq]

/-- Emitting lines puts them behind the text of the page, all of them if there is room. -/
theorem appends_emitAll (store : CodeStore) (id : Nat) (lines : List Line) :
    ∃ written, store.Appends (store.emitAll id lines).2 id written ∧
      ((store.emitAll id lines).1 = .ok () → written = lines) := by
  induction lines generalizing store with
  | nil =>
    refine ⟨[], fun other => ?_, fun _ => rfl⟩
    by_cases heq : other = id
    · rw [if_pos heq, heq, List.append_nil]
      rfl
    · rw [if_neg heq]
      rfl
  | cons line lines ih =>
    unfold emitAll
    cases hemit : store.emit id line with
    | error error =>
      refine ⟨[], fun other => ?_, fun h => by cases h⟩
      by_cases heq : other = id
      · rw [if_pos heq, heq, List.append_nil]
      · rw [if_neg heq]
    | ok emitted =>
      obtain ⟨written, happends, hall⟩ := ih emitted.2
      have hfirst := appends_emit hemit
      refine ⟨line :: written, fun other => ?_, fun h => by rw [hall h]⟩
      rw [happends other, hfirst id, if_pos rfl, List.append_assoc]
      by_cases heq : other = id
      · rw [if_pos heq, if_pos heq, List.singleton_append]
      · rw [if_neg heq, if_neg heq, hfirst other, if_neg heq]

theorem findRoom_lt {pages : Array CodePage} {minLines fuel : Nat} {start cursor before after : Option Nat}
    (h : findRoom pages minLines fuel start cursor = some (before, id, after)) : id < pages.size := by
  fun_induction findRoom pages minLines fuel start cursor with
  | case1 => cases h
  | case2 => cases h
  | case3 => cases h
  | case4 fuel start found page hpage hroom =>
    cases h
    exact (Array.getElem?_eq_some_iff.1 hpage).1
  | case5 fuel start found page hpage hroom ih => exact ih h

end CodeStore

namespace CodeArea

variable {area area' : CodeArea}

/-- The page that was acquired exists, and no text is lost. -/
theorem extends_of_acquire {minLines id : Nat} (h : acquire minLines area = .ok id area') :
    area.code.Extends area'.code ∧ id < area'.code.pages.size := by
  have hadopt (env : Environment) (page : CodePage) : area.code.Extends (adopt ⟨env, area.code⟩ page).code ∧
      area.code.pages.size < (adopt ⟨env, area.code⟩ page).code.pages.size := by
    refine ⟨(area.code.extends_insert page).trans (.of_eq (CodeStore.sameCode_hold _ _).text_eq), ?_⟩
    simp [adopt, CodeStore.insert]
  have hcases := acquired minLines area
  rw [h] at hcases
  cases hcases with
  | @opened _ code htake =>
    have hfound := htake
    unfold CodeStore.takeOpen at hfound
    split at hfound
    · cases hfound
    rename_i before found after hroom
    cases hfound
    refine ⟨(CodeStore.Extends.of_eq (CodeStore.sameCode_takeOpen htake).text_eq).trans
      (.of_eq (CodeStore.sameCode_hold _ _).text_eq), ?_⟩
    rw [CodeStore.size_hold]
    simpa using CodeStore.findRoom_lt hroom
  | pooled hopen htake => exact hadopt _ _
  | served hopen hpool halloc => exact hadopt _ _

theorem code_of_refuse {minLines : Nat} {error : Error} (h : acquire minLines area = .error error area') :
    area'.code = area.code := by
  have hcases := acquired minLines area
  rw [h] at hcases
  cases hcases
  rfl

theorem text_release (area : CodeArea) (id : Nat) : (area.release id).code.text = area.code.text :=
  (CodeStore.sameCode_release _ _ _).text_eq

end CodeArea

end WasmEngine
