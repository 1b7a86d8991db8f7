import Mathlib.Data.List.Nodup
import Bookkeeping.Store.Table

/-! # Tidy tables

A table is tidy if its rows have distinct ids of 64 bits, none beyond the counter of ids, and every
cell is of the type of its column. The operations on tables keep it so, and say which rows there are
afterwards.
-/

namespace Bookkeeping.Store.Table

variable {α : Type} {t : Table α} {r x : Row α}

/-- A table with distinct ids of 64 bits within its counter, and without odd cells. -/
structure Tidy (t : Table α) : Prop where
  nodup : (t.rows.map Row.id).Nodup
  within : ∀ r ∈ t.rows, r.id ≤ t.lastId
  fits : ∀ r ∈ t.rows, fitsInteger r.id = true
  proper : ∀ r ∈ t.rows, r.odd = []

theorem tidy_empty : ({} : Table α).Tidy where
  nodup := List.nodup_nil
  within := by simp
  fits := by simp
  proper := by simp

/-! ## The next id -/

theorem le_largestId (t : Table α) : t.lastId ≤ t.largestId ∧ ∀ r ∈ t.rows, r.id ≤ t.largestId := by
  have hfold (rows : List (Row α)) (n : Int) : n ≤ rows.foldl (fun n r => max n r.id) n ∧
      ∀ r ∈ rows, r.id ≤ rows.foldl (fun n r => max n r.id) n := by
    induction rows generalizing n with
    | nil => exact ⟨Int.le_refl n, fun r hr => absurd hr List.not_mem_nil⟩
    | cons x rows ih =>
      obtain ⟨hstart, hrest⟩ := ih (max n x.id)
      refine ⟨Int.le_trans (Int.le_max_left n x.id) hstart, fun r hr => ?_⟩
      rcases List.mem_cons.1 hr with rfl | hr
      · exact Int.le_trans (Int.le_max_right n r.id) hstart
      · exact hrest r hr
  exact hfold t.rows t.lastId

theorem lastId_lt_nextId (t : Table α) : t.lastId < t.nextId := by
  have := t.le_largestId.1
  rw [nextId]
  omega

theorem id_lt_nextId (t : Table α) (hr : r ∈ t.rows) : r.id < t.nextId := by
  have := t.le_largestId.2 r hr
  rw [nextId]
  omega

namespace Tidy

theorem eq_of_id (h : t.Tidy) (hr : r ∈ t.rows) (hx : x ∈ t.rows) (hid : r.id = x.id) : r = x :=
  List.inj_on_of_nodup_map h.nodup hr hx hid

/-- A condition that singles out an id finds the row of that id. -/
theorem find?_eq (h : t.Tidy) (hr : r ∈ t.rows) {p : Row α → Bool}
    (hp : ∀ x ∈ t.rows, p x = true ↔ x.id = r.id) : t.rows.find? p = some r := by
  cases hf : t.rows.find? p with
  | none => exact absurd ((hp r hr).2 rfl) (by simpa using List.find?_eq_none.1 hf r hr)
  | some x =>
    have hx := List.mem_of_find?_eq_some hf
    have hid := (hp x hx).1 (List.find?_some hf)
    rw [h.eq_of_id hx hr hid]

/-! ### The next id -/

theorem largestId_eq (h : t.Tidy) : t.largestId = t.lastId := by
  have hfold (rows : List (Row α)) (hw : ∀ r ∈ rows, r.id ≤ t.lastId) :
      rows.foldl (fun n r => max n r.id) t.lastId = t.lastId := by
    induction rows with
    | nil => rfl
    | cons r rows ih =>
      rw [List.foldl_cons, Int.max_eq_left (hw r List.mem_cons_self)]
      exact ih fun x hx => hw x (List.mem_cons_of_mem r hx)
  exact hfold t.rows h.within

theorem nextId_eq (h : t.Tidy) : t.nextId = t.lastId + 1 := by
  rw [nextId, h.largestId_eq]

end Tidy

/-! ## Rows after a change -/

/-- A row that takes the place of the one with its id. -/
theorem rows_replace (t : Table α) (r : Row α) :
    (t.replace r.id r).rows = t.rows.map fun x => if x.id == r.id then r else x := by
  simp [replace]

theorem mem_replace :
    x ∈ (t.replace r.id r).rows ↔ (x = r ∧ ∃ o ∈ t.rows, o.id = r.id) ∨ (x ∈ t.rows ∧ x.id ≠ r.id) := by
  rw [rows_replace, List.mem_map]
  constructor
  · rintro ⟨o, ho, rfl⟩
    by_cases hid : o.id = r.id
    · exact .inl ⟨by simp [hid], o, ho, hid⟩
    · exact .inr ⟨by simpa [hid] using ho, by simp [hid]⟩
  · rintro (⟨rfl, o, ho, hid⟩ | ⟨hx, hid⟩)
    · exact ⟨o, ho, by simp [hid]⟩
    · exact ⟨x, hx, by simp [hid]⟩

theorem mem_insert {a : α} :
    x ∈ (t.insert a).rows ↔ x ∈ t.rows ∨ x = { id := t.nextId, data := a } := by
  simp

theorem mem_change {p : Row α → Bool} {f : Row α → Row α} :
    x ∈ (t.change p f).rows ↔ ∃ o ∈ t.rows, x = if p o = true then f o else o := by
  rw [rows_change, List.mem_map]
  exact exists_congr fun o => and_congr_right fun _ => eq_comm

theorem mem_erase {p : Row α → Bool} : x ∈ (t.erase p).rows ↔ x ∈ t.rows ∧ p x = false := by
  simp

/-! ## Statements that select no row -/

section

variable {p : Row α → Bool}

theorem count_eq_zero : t.count p = 0 ↔ ∀ r ∈ t.rows, p r = false := by
  simp [count]

/-- Rows that are changed keep their ids. -/
theorem map_id_change {f : Row α → Row α} (hid : ∀ r, (f r).id = r.id) :
    (t.change p f).rows.map Row.id = t.rows.map Row.id := by
  rw [rows_change, List.map_map]
  refine List.map_congr_left fun r _ => ?_
  simp only [Function.comp_apply]
  split
  · exact hid r
  · rfl

theorem change_of_none {f : Row α → Row α} (h : ∀ r ∈ t.rows, p r = false) : t.change p f = t := by
  have hrows : t.rows.map (fun r => if p r then f r else r) = t.rows := by
    refine (List.map_congr_left fun r hr => ?_).trans (List.map_id t.rows)
    simp [h r hr]
  rw [change, hrows]

theorem modify_of_none {f : α → α} (h : ∀ r ∈ t.rows, p r = false) : t.modify p f = t :=
  change_of_none h

theorem erase_of_none (h : ∀ r ∈ t.rows, p r = false) : t.erase p = t := by
  have hrows : t.rows.filter (fun r => !p r) = t.rows := by
    rw [List.filter_eq_self]
    intro r hr
    simp [h r hr]
  rw [erase, hrows]

end

/-! ## Tidiness after a change -/

namespace Tidy

theorem insert (h : t.Tidy) (hfull : t.isFull = false) (a : α) : (t.insert a).Tidy where
  nodup := by
    rw [rows_insert, List.map_append]
    refine h.nodup.append (List.nodup_singleton _) ?_
    simp only [List.disjoint_right, List.map_cons, List.map_nil, List.mem_singleton, List.mem_map]
    rintro _ rfl ⟨x, hx, hid⟩
    exact absurd hid (by have := t.id_lt_nextId hx; omega)
  within := by
    intro x hx
    rcases mem_insert.1 hx with hx | rfl
    · exact Int.le_of_lt (t.id_lt_nextId hx)
    · exact Int.le_refl _
  fits := by
    intro x hx
    rcases mem_insert.1 hx with hx | rfl
    · exact h.fits x hx
    · simpa [isFull] using hfull
  proper := by
    intro x hx
    rcases mem_insert.1 hx with hx | rfl
    · exact h.proper x hx
    · rfl

theorem change (h : t.Tidy) {p : Row α → Bool} {f : Row α → Row α} (hid : ∀ r, (f r).id = r.id)
    (hodd : ∀ r, r.odd = [] → (f r).odd = []) : (t.change p f).Tidy where
  nodup := by
    rw [map_id_change hid]
    exact h.nodup
  within := by
    intro x hx
    obtain ⟨o, ho, rfl⟩ := mem_change.1 hx
    split
    · rw [hid]
      exact h.within o ho
    · exact h.within o ho
  fits := by
    intro x hx
    obtain ⟨o, ho, rfl⟩ := mem_change.1 hx
    split
    · rw [hid]
      exact h.fits o ho
    · exact h.fits o ho
  proper := by
    intro x hx
    obtain ⟨o, ho, rfl⟩ := mem_change.1 hx
    split
    · exact hodd o (h.proper o ho)
    · exact h.proper o ho

theorem replace (h : t.Tidy) (hodd : r.odd = []) : (t.replace r.id r).Tidy where
  nodup := by
    have hids : (t.replace r.id r).rows.map Row.id = t.rows.map Row.id := by
      rw [rows_replace, List.map_map]
      refine List.map_congr_left fun x _ => ?_
      by_cases hid : x.id = r.id <;> simp [hid]
    rw [hids]
    exact h.nodup
  within := by
    intro x hx
    rcases mem_replace.1 hx with ⟨rfl, o, ho, hid⟩ | ⟨hx, -⟩
    · exact hid ▸ h.within o ho
    · exact h.within x hx
  fits := by
    intro x hx
    rcases mem_replace.1 hx with ⟨rfl, o, ho, hid⟩ | ⟨hx, -⟩
    · exact hid ▸ h.fits o ho
    · exact h.fits x hx
  proper := by
    intro x hx
    rcases mem_replace.1 hx with ⟨rfl, -⟩ | ⟨hx, -⟩
    · exact hodd
    · exact h.proper x hx

theorem erase (h : t.Tidy) (p : Row α → Bool) : (t.erase p).Tidy where
  nodup := h.nodup.sublist (List.filter_sublist.map Row.id)
  within r hr := h.within r (mem_erase.1 hr).1
  fits r hr := h.fits r (mem_erase.1 hr).1
  proper r hr := h.proper r (mem_erase.1 hr).1

end Tidy

end Bookkeeping.Store.Table
