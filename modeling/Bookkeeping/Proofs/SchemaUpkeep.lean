import Bookkeeping.Proofs.Upholding
import Bookkeeping.Proofs.Removals
import Bookkeeping.Proofs.SchemaRules

/-! # Statements keep to the schema

Whatever a statement asks for, a ledger that looks after references lets it through only if the rules
of the schema survive: a row is stored after a look at its key and its references, a row that others
refer to keeps its id and its place, and users go together with all they own.
-/

namespace Bookkeeping.Store

/-! ## Tables -/

section

variable {ρ : Type} {t : Table ρ} {r x : Row ρ} {id : Int}

/-- The rows after one took the place of the row of an id, in whatever order. -/
theorem Table.mem_replaced :
    x ∈ (t.replace id r).rows ↔ (x = r ∧ t.Has id) ∨ (x ∈ t.rows ∧ x.id ≠ id) := by
  have hmap : x ∈ (t.replace id r).rows ↔
      x ∈ t.rows.map fun o => if o.id == id then r else o := by
    simp only [Table.replace]
    split
    · rfl
    · exact List.mem_mergeSort
  rw [hmap, List.mem_map]
  constructor
  · rintro ⟨o, ho, rfl⟩
    by_cases hid : o.id = id
    · exact .inl ⟨by simp [hid], o, ho, hid⟩
    · exact .inr ⟨by simpa [hid] using ho, by simp [hid]⟩
  · rintro (⟨rfl, o, ho, hid⟩ | ⟨hx, hid⟩)
    · exact ⟨o, ho, by simp [hid]⟩
    · exact ⟨x, hx, by simp [hid]⟩

theorem Table.ids_replaced (h : (t.rows.map Row.id).Nodup)
    (hid : ∀ o ∈ t.rows, o.id ≠ id → o.id ≠ r.id) :
    ((t.replace id r).rows.map Row.id).Nodup := by
  have hmap : ((t.rows.map fun o => if o.id == id then r else o).map Row.id).Nodup := by
    have hids : (t.rows.map fun o => if o.id == id then r else o).map Row.id
        = (t.rows.map Row.id).map fun n => if n = id then r.id else n := by
      rw [List.map_map, List.map_map]
      refine List.map_congr_left fun o _ => ?_
      by_cases ho : o.id = id <;> simp [ho]
    rw [hids]
    refine List.Nodup.map_on ?_ h
    simp only [List.mem_map]
    rintro _ ⟨a, ha, rfl⟩ _ ⟨b, hb, rfl⟩ hab
    by_cases haid : a.id = id
    · by_cases hbid : b.id = id
      · rw [haid, hbid]
      · exact absurd (by simpa [haid, hbid] using hab.symm) (hid b hb hbid)
    · by_cases hbid : b.id = id
      · exact absurd (by simpa [haid, hbid] using hab) (hid a ha haid)
      · simpa [haid, hbid] using hab
  simp only [Table.replace]
  split
  · exact hmap
  · exact ((List.mergeSort_perm _ _).map Row.id).nodup_iff.2 hmap

variable [Relation ρ]

theorem Table.Tight.replace (h : t.Tight) (hid : ∀ o ∈ t.rows, o.id ≠ id → o.id ≠ r.id)
    (hkey : ∀ o ∈ t.rows, o.id ≠ id → Relation.key o ≠ [] → Relation.key o ≠ Relation.key r)
    (hplain : r.Plain) : (t.replace id r).Tight where
  ids := Table.ids_replaced h.ids hid
  keys a ha b hb hne hab := by
    rcases mem_replaced.1 ha with ⟨rfl, -⟩ | ⟨hat, haid⟩
    · rcases mem_replaced.1 hb with ⟨rfl, -⟩ | ⟨hbt, hbid⟩
      · rfl
      · exact absurd hab.symm (hkey b hbt hbid (hab ▸ hne))
    · rcases mem_replaced.1 hb with ⟨rfl, -⟩ | ⟨hbt, -⟩
      · exact absurd hab (hkey a hat haid hne)
      · exact h.keys a hat b hbt hne hab
  plain a ha := by
    rcases mem_replaced.1 ha with ⟨rfl, -⟩ | ⟨ha, -⟩
    · exact hplain
    · exact h.plain a ha

theorem Table.Tight.insert (h : t.Tight) {a : ρ} (hid : ∀ o ∈ t.rows, o.id ≠ t.nextId)
    (hkey : ∀ o ∈ t.rows, Relation.key o ≠ [] → Relation.key o ≠ Relation.key ⟨t.nextId, a, []⟩) :
    (t.insert a).Tight where
  ids := by
    rw [rows_insert, List.map_append]
    refine h.ids.append (List.nodup_singleton _) ?_
    simp only [List.disjoint_right, List.map_cons, List.map_nil, List.mem_singleton, List.mem_map]
    rintro _ rfl ⟨x, hx, hxid⟩
    exact hid x hx hxid
  keys x hx y hy hne hxy := by
    rcases mem_insert.1 hx with hx | rfl
    · rcases mem_insert.1 hy with hy | rfl
      · exact h.keys x hx y hy hne hxy
      · exact absurd hxy (hkey x hx hne)
    · rcases mem_insert.1 hy with hy | rfl
      · exact absurd hxy.symm (hkey y hy (hxy ▸ hne))
      · rfl
  plain x hx := by
    rcases mem_insert.1 hx with hx | rfl
    · exact h.plain x hx
    · exact plain_of_odd_nil rfl

theorem Table.Tight.erase (h : t.Tight) (p : Row ρ → Bool) : (t.erase p).Tight where
  ids := h.ids.sublist (List.filter_sublist.map Row.id)
  keys a ha b hb := h.keys a (mem_erase.1 ha).1 b (mem_erase.1 hb).1
  plain r hr := h.plain r (mem_erase.1 hr).1

/-- Rows may change as long as they keep their ids and keys. -/
theorem Table.Tight.change (h : t.Tight) {p : Row ρ → Bool} {f : Row ρ → Row ρ}
    (hid : ∀ r, (f r).id = r.id) (hplain : ∀ r, r.Plain → (f r).Plain)
    (hkey : ∀ r, r.Plain → Relation.key (f r) = Relation.key r) : (t.change p f).Tight := by
  have hsame (o : Row ρ) (ho : o ∈ t.rows) : (if p o = true then f o else o).id = o.id ∧
      Relation.key (if p o = true then f o else o) = Relation.key o := by
    split
    · exact ⟨hid o, hkey o (h.plain o ho)⟩
    · exact ⟨rfl, rfl⟩
  refine ⟨?_, ?_, ?_⟩
  · have hids : (t.change p f).rows.map Row.id = t.rows.map Row.id := by
      rw [rows_change, List.map_map]
      exact List.map_congr_left fun o ho => (hsame o ho).1
    rw [hids]
    exact h.ids
  · intro a ha b hb hne hab
    obtain ⟨o, ho, rfl⟩ := mem_change.1 ha
    obtain ⟨q, hq, rfl⟩ := mem_change.1 hb
    rw [(hsame o ho).2] at hne hab
    rw [(hsame q hq).2] at hab
    rw [(hsame o ho).1, (hsame q hq).1]
    exact h.keys o ho q hq hne hab
  · intro a ha
    obtain ⟨o, ho, rfl⟩ := mem_change.1 ha
    split
    · exact hplain o (h.plain o ho)
    · exact h.plain o ho

end

/-! ## Cells that are assigned -/

section

variable {ρ : Type} [Relation ρ] {cells : List (String × Cell)} {r x : Row ρ}

/-- What storing a cell in a column keeps, assigning cells to columns keeps. -/
theorem assigned_induct {columns : List (Column ρ)} {P : Row ρ → Prop}
    (hx : Ledger.assigned columns cells r = .ok x) (hr : P r)
    (hstore : ∀ c ∈ columns, ∀ cell a b, cells.lookup c.name = some cell → P a →
      c.store cell a = .ok b → P b) : P x := by
  have hfold : ∀ (cs : List (Column ρ)) (acc : Row ρ × List Breach), (∀ c ∈ cs, c ∈ columns) →
      P acc.1 → P (cs.foldl (assignStep cells) acc).1 := by
    intro cs
    induction cs with
    | nil => exact fun _ _ h => h
    | cons c cs ih =>
      intro acc hcs hacc
      refine ih _ (fun d hd => hcs d (List.mem_cons_of_mem c hd)) ?_
      unfold assignStep
      split
      · exact hacc
      · rename_i cell hcell
        split
        · exact hstore c (hcs c List.mem_cons_self) cell _ _ hcell hacc ‹_›
        · exact hacc
  rw [assigned_eq] at hx
  split at hx
  · cases hx
    exact hfold columns (r, []) (fun _ hc => hc) hr
  · cases hx

theorem Row.Sturdy.store [SchemaOf ρ] [LawfulSchema ρ] {c : Column ρ} (h : r.Sturdy)
    (hc : c ∈ Relation.columns) {cell : Cell} (hx : c.store cell r = .ok x) : x.Sturdy := by
  obtain ⟨stored, hput, hx⟩ := Service.except_bind_ok_iff.1 hx
  cases stored with
  | some a =>
    cases hx
    exact fun y hy => h y (List.mem_filter.1 hy).1
  | none =>
    cases hx
    obtain ⟨hnull, htext⟩ := (LawfulSchema.solid c hc).odd hput
    intro y hy
    rcases List.mem_cons.1 hy with rfl | hy
    · refine ⟨hnull, fun d hd hname => ?_⟩
      rwa [List.inj_on_of_nodup_map LawfulSchema.names hd hc hname]
    · exact h y (List.mem_filter.1 hy).1

theorem Row.Sturdy.assigned [SchemaOf ρ] [LawfulSchema ρ] {columns : List (Column ρ)}
    (h : r.Sturdy) (hc : ∀ c ∈ columns, c ∈ Relation.columns)
    (hx : Ledger.assigned columns cells r = .ok x) : x.Sturdy :=
  assigned_induct hx h fun c hmem _ _ _ _ ha hb => ha.store (hc c hmem) hb

theorem columns_subset (layout : Layout) :
    ∀ c ∈ layout.columns (ρ := ρ), c ∈ Relation.columns (ρ := ρ) :=
  fun _ hc => (List.mem_filter.1 hc).1

theorem Row.Sturdy.apply [SchemaOf ρ] [LawfulSchema ρ] {u : Update} {layout : Layout}
    {params : List Cell} (h : r.Sturdy)
    (hx : u.apply (layout.columns (ρ := ρ)) params r = .ok x) : x.Sturdy := by
  obtain ⟨y, hy, hx⟩ := Service.except_bind_ok_iff.1 hx
  have hodd : y.odd = r.odd := by
    unfold Ledger.renumbered at hy
    split at hy
    · cases hy
      rfl
    · split at hy
      · cases hy
        rfl
      · cases hy
  have hsturdy : y.Sturdy := by
    intro z hz
    rw [hodd] at hz
    exact h z hz
  exact hsturdy.assigned (columns_subset layout) hx

end

/-! ## Ledgers -/

section

variable {ρ : Type} [Relation ρ] {l m : Ledger} {r : Row ρ} {n : Nat}

/-- Rows without the key of another have another key. -/
theorem key_ne_of_clash [SchemaOf ρ] [LawfulSchema ρ] {a b : Row ρ} (ha : a.Plain)
    (h : Ledger.clash a b = false) (hne : Relation.key a ≠ []) :
    Relation.key a ≠ Relation.key b := by
  intro hab
  have hself : ∀ x ∈ Relation.key a, x.same x = true := by
    intro x hx
    rw [LawfulSchema.key_eq a ha] at hx
    obtain ⟨column, hc, rfl⟩ := List.mem_map.1 hx
    exact (Cell.eq_of_same (ha.key_exact hc) (ha.key_exact hc)).2 rfl
  have hall : ∀ p ∈ (Relation.key a).zip (Relation.key a), p.1.same p.2 = true := by
    rintro ⟨x, y⟩ hp
    obtain ⟨i, hi, he⟩ := List.mem_iff_getElem.1 hp
    simp only [List.getElem_zip, Prod.mk.injEq] at he
    rw [← he.1, ← he.2]
    exact hself _ (List.getElem_mem _)
  rw [Ledger.clash, ← hab] at h
  simp only [Bool.and_eq_false_iff, Bool.not_eq_false', List.isEmpty_iff] at h
  rcases h with h | h
  · exact hne h
  · rw [List.all_eq_true.2 hall] at h
    cases h

/-- A row that passed its checks while references are looked after. -/
theorem references_of_checked {others : List (Row ρ)} {x : Row ρ}
    (hx : Ledger.checked true l others r = .ok x) : Ledger.refersToNothing r = false := by
  unfold Ledger.checked at hx
  split at hx
  · cases hx
  · split at hx
    · cases hx
    · split at hx
      · cases hx
      · rename_i href
        simp only [Bool.true_and, Bool.or_eq_true, not_or] at href
        simpa using href.1

/-- A ledger that stored a new row. -/
structure Ledger.Inserted (enforce : Bool) (l m : Ledger) (a : ρ) (n : Int) : Prop where
  id : n = (Relation.table (ρ := ρ) l).nextId
  fresh : ∀ o ∈ (Relation.table (ρ := ρ) l).rows, o.id ≠ n
  apart : ∀ o ∈ (Relation.table (ρ := ρ) l).rows, Ledger.clash o ⟨n, a, []⟩ = false
  resolves : enforce = true → Relation.resolves l a = true
  ledger : m = Relation.withTable l ((Relation.table (ρ := ρ) l).insert a)

theorem inserted_of_ok {enforce : Bool} {a : ρ} {n : Int} (h : l.insert enforce a = .ok (n, m)) :
    Ledger.Inserted enforce l m a n := by
  obtain ⟨x, hx, hxm⟩ := Service.except_bind_ok_iff.1 h
  obtain ⟨rfl, hid, hclash, hresolves⟩ := checked_ok hx
  cases hxm
  exact ⟨rfl, hid, hclash, hresolves, rfl⟩

/-- A ledger that put a row in the place of another one. -/
structure Ledger.Replaced (enforce : Bool) (l m : Ledger) (old x : Row ρ) : Prop where
  mem : old ∈ (Relation.table (ρ := ρ) l).rows
  fresh : ∀ o ∈ (Relation.table (ρ := ρ) l).rows, o.id ≠ old.id → o.id ≠ x.id
  apart : ∀ o ∈ (Relation.table (ρ := ρ) l).rows, o.id ≠ old.id → Ledger.clash o x = false
  refers : enforce = true → Ledger.refersToNothing x = false
  resolves : enforce = true → Relation.resolves l x.data = true
  /-- A row that others refer to keeps its id. -/
  kept : enforce = true → Relation.isReferenced (ρ := ρ) l old.id = true → x.id = old.id
  ledger : m = Relation.withTable l ((Relation.table (ρ := ρ) l).replace old.id x)

theorem replaced_of_ok {enforce : Bool} {p : Row ρ → Bool} {change : Row ρ → Stored (Row ρ)} {n : Nat}
    (h : l.update enforce p change = .ok (n, m)) :
    m = l ∨ ∃ old x, change old = .ok x ∧ Ledger.Replaced enforce l m old x := by
  unfold Ledger.update at h
  cases hf : (Relation.table (ρ := ρ) l).rows.find? p with
  | none =>
    simp only [hf] at h
    cases h
    exact .inl rfl
  | some old =>
    simp only [hf] at h
    obtain ⟨r, hr, h₁⟩ := Service.except_bind_ok_iff.1 h
    obtain ⟨x, hx, h₂⟩ := Service.except_bind_ok_iff.1 h₁
    obtain ⟨rfl, hid, hclash, hresolves⟩ := checked_ok hx
    have hother {o : Row ρ} (ho : o ∈ (Relation.table (ρ := ρ) l).rows) (hne : o.id ≠ old.id) :
        o ∈ (Relation.table (ρ := ρ) l).rows.filter fun other => other.id != old.id := by
      simp [ho, hne]
    split at h₂
    · cases h₂
    · rename_i hreferenced
      cases h₂
      refine .inr ⟨old, x, hr, ?_⟩
      exact
        { mem := List.mem_of_find?_eq_some hf
          fresh := fun o ho hne => hid o (hother ho hne)
          apart := fun o ho hne => hclash o (hother ho hne)
          refers := fun he => references_of_checked (he ▸ hx)
          resolves := hresolves
          kept := fun he hisref => by
            by_contra hne
            simp [he, hne, hisref] at hreferenced
          ledger := rfl }

variable [SchemaOf ρ] [LawfulSchema ρ]

/-- A table may be put in the place of another if its rows refer to something and none is missing
that is still referred to. -/
theorem Sound.withTable (h : Sound l) {t : Table ρ} (ht : t.Tight)
    (hrefers : ∀ table id, t.Needs table id → l.Has table id)
    (hkeeps : ∀ id, l.Needs (Relation.name ρ) id → t.Has id) : Sound (Relation.withTable l t) := by
  have hown (id : Int) : (Relation.withTable l t).Has (Relation.name ρ) id ↔ t.Has id := by
    rw [LawfulSchema.has_table, LawfulSchema.table_withTable]
  refine LawfulSchema.sound_withTable l t h ht fun table id hneeds => ?_
  rcases LawfulSchema.needs_withTable l t table id hneeds with hn | hn
  · have hne : table ≠ Relation.name ρ := by
      obtain ⟨r, -, k, hk, rfl, -⟩ := hn
      exact LawfulSchema.elsewhere k hk
    exact LawfulSchema.has_withTable l t table id hne (hrefers table id hn)
  · by_cases hne : table = Relation.name ρ
    · subst hne
      exact (hown id).2 (hkeeps id hn)
    · exact LawfulSchema.has_withTable l t table id hne (h.resolve table id hn)

theorem Sound.needs_table (h : Sound l) {table : TableName} {id : Int} {r : Row ρ}
    (hr : r ∈ (Relation.table (ρ := ρ) l).rows) (hrefers : RefersTo r.data table id) :
    l.Has table id :=
  h.resolve table id (LawfulSchema.needs_table l table id ⟨r, hr, hrefers⟩)

theorem Sound.has_own (h : Sound l) {id : Int} (hn : l.Needs (Relation.name ρ) id) :
    (Relation.table (ρ := ρ) l).Has id :=
  (LawfulSchema.has_table l id).1 (h.resolve _ id hn)

theorem Sound.insert (h : Sound l) {a : ρ} {n : Int} (hi : l.insert true a = .ok (n, m)) :
    Sound m := by
  obtain ⟨rfl, hfresh, hapart, hresolves, rfl⟩ := inserted_of_ok hi
  have htight := LawfulSchema.tight_table (ρ := ρ) l h
  refine h.withTable (htight.insert hfresh fun o ho hne => ?_) ?_ ?_
  · exact key_ne_of_clash (htight.plain o ho) (hapart o ho) hne
  · rintro table id ⟨x, hx, hrefers⟩
    rcases Table.mem_insert.1 hx with hx | rfl
    · exact h.needs_table hx hrefers
    · exact LawfulSchema.resolves l a (hresolves rfl) table id hrefers
  · intro id hn
    obtain ⟨x, hx, hxid⟩ := h.has_own hn
    exact ⟨x, Table.mem_insert.2 (.inl hx), hxid⟩

theorem Sound.update (h : Sound l) {p : Row ρ → Bool} {change : Row ρ → Stored (Row ρ)}
    (hsturdy : ∀ a b, a.Sturdy → change a = .ok b → b.Sturdy)
    (hu : l.update true p change = .ok (n, m)) : Sound m := by
  rcases replaced_of_ok hu with rfl | ⟨old, x, hx, hr⟩
  · exact h
  have htight := LawfulSchema.tight_table (ρ := ρ) l h
  have hplain : x.Plain :=
    (hsturdy old x (htight.plain old hr.mem).sturdy hx).plain (hr.refers rfl)
  rw [hr.ledger]
  refine h.withTable (htight.replace hr.fresh (fun o ho hne => ?_) hplain) ?_ ?_
  · exact key_ne_of_clash (htight.plain o ho) (hr.apart o ho hne)
  · rintro table id ⟨y, hy, hrefers⟩
    rcases Table.mem_replaced.1 hy with ⟨rfl, -⟩ | ⟨hy, -⟩
    · exact LawfulSchema.resolves l y.data (hr.resolves rfl) table id hrefers
    · exact h.needs_table hy hrefers
  · -- what is still referred to is there: another row, or the new one under the id of the old
    intro id hn
    obtain ⟨y, hy, rfl⟩ := h.has_own hn
    by_cases hyold : y.id = old.id
    · have hkept := hr.kept rfl (LawfulSchema.isReferenced l _ (hyold ▸ hn))
      exact ⟨x, Table.mem_replaced.2 (.inl ⟨rfl, old, hr.mem, rfl⟩), hkept.trans hyold.symm⟩
    · exact ⟨y, Table.mem_replaced.2 (.inr ⟨hy, hyold⟩), rfl⟩

/-- Rows that nothing refers to may go. -/
theorem Sound.erase (h : Sound l) {p : Row ρ → Bool}
    (hfree : ∀ r ∈ (Relation.table (ρ := ρ) l).rows, p r = true → ¬ l.Needs (Relation.name ρ) r.id) :
    Sound (Relation.withTable l ((Relation.table (ρ := ρ) l).erase p)) := by
  refine h.withTable ((LawfulSchema.tight_table l h).erase p) ?_ ?_
  · rintro table id ⟨x, hx, hrefers⟩
    exact h.needs_table (Table.mem_erase.1 hx).1 hrefers
  · intro id hn
    obtain ⟨x, hx, rfl⟩ := h.has_own hn
    refine ⟨x, Table.mem_erase.2 ⟨hx, ?_⟩, rfl⟩
    by_contra hp
    exact hfree x hx (by simpa using hp) hn

/-- Rows may change as long as they keep their ids and keys and gain no reference. -/
theorem Sound.change (h : Sound l) {p : Row ρ → Bool} {f : Row ρ → Row ρ}
    (hid : ∀ r, (f r).id = r.id) (hplain : ∀ r, r.Plain → (f r).Plain)
    (hkey : ∀ r, r.Plain → Relation.key (f r) = Relation.key r)
    (hrefers : ∀ r table id, RefersTo (f r).data table id → RefersTo r.data table id) :
    Sound (Relation.withTable l ((Relation.table (ρ := ρ) l).change p f)) := by
  refine h.withTable ((LawfulSchema.tight_table l h).change hid hplain hkey) ?_ ?_
  · rintro table id ⟨x, hx, href⟩
    obtain ⟨o, ho, rfl⟩ := Table.mem_change.1 hx
    refine h.needs_table ho ?_
    split at href
    · exact hrefers o table id href
    · exact href
  · intro id hn
    obtain ⟨x, hx, rfl⟩ := h.has_own hn
    refine ⟨_, Table.mem_change.2 ⟨x, hx, rfl⟩, ?_⟩
    split
    · exact hid x
    · rfl

end

/-! ## Removing rows -/

section

variable {l m : Ledger} {n : Nat}

theorem unused_of_removeUnused {α : Type} {t x : Table α} {used : Int → Bool} {p : Row α → Bool}
    (h : Ledger.removeUnused t used p = .ok x) : ∀ r ∈ t.rows, p r = true → used r.id = false := by
  unfold Ledger.removeUnused at h
  split at h
  · cases h
  · rename_i hnone
    intro r hr hp
    cases hu : used r.id with
    | false => rfl
    | true => exact absurd (List.any_eq_true.2 ⟨r, hr, by simp [hp, hu]⟩) hnone

/-- Rows of a table may go once none of them is used, whatever uses them. -/
theorem Sound.removeUnused {ρ : Type} [Relation ρ] [SchemaOf ρ] [LawfulSchema ρ] (h : Sound l)
    {t : Table ρ} {p : Row ρ → Bool}
    (hr : Ledger.removeUnused (Relation.table (ρ := ρ) l) (Relation.isReferenced (ρ := ρ) l) p
      = .ok t) : Sound (Relation.withTable l t) := by
  rw [removeUnused_ok hr]
  refine h.erase fun r hrow hp hn => ?_
  have hfree := unused_of_removeUnused hr r hrow hp
  rw [LawfulSchema.isReferenced l r.id hn] at hfree
  cases hfree

theorem Sound.removeEntries (h : Sound l) (p : Row StoredEntry → Bool) : Sound (l.removeEntries p) :=
  h.removeUnused (ρ := StoredEntry) (removeUnused_of fun _ _ _ => rfl)

theorem Sound.removeSources (h : Sound l) {p : Row Source → Bool} (hr : l.removeSources p = .ok m) :
    Sound m := by
  obtain ⟨t, ht, hr⟩ := Service.except_bind_ok_iff.1 hr
  cases hr
  exact h.removeUnused (ρ := Source) ht

theorem Sound.removeCategories (h : Sound l) {p : Row Category → Bool}
    (hr : l.removeCategories p = .ok m) : Sound m := by
  obtain ⟨t, ht, hr⟩ := Service.except_bind_ok_iff.1 hr
  cases hr
  exact h.removeUnused (ρ := Category) ht

/-- Nobody is harmed by reporting in no currency. -/
theorem Sound.forgetCurrencies (h : Sound l) (gone : Int → Bool) : Sound (l.forgetCurrencies gone) :=
  h.change (ρ := User) (f := fun r => { r with data := { r.data with fixedCurrency := none } })
    (fun _ => rfl) (fun _ hr => hr) (fun _ _ => rfl) fun _ _ _ hr => by cases (refersTo_user.1 hr).2

/-- Currencies go after those who report in them are rid of them. -/
theorem Sound.removeCurrencies (h : Sound l) {p : Row Currency → Bool}
    (hr : l.removeCurrencies p = .ok m) : Sound m := by
  obtain ⟨t, ht, hr⟩ := Service.except_bind_ok_iff.1 hr
  cases hr
  have hunused := unused_of_removeUnused ht
  obtain rfl := removeUnused_ok ht
  refine (h.forgetCurrencies _).removeUnused (ρ := Currency) (removeUnused_of fun r hrow hp => ?_)
  have hforgot : (l.forgetCurrencies fun id => l.currencies.rows.any fun r => p r && r.id == id).users.rows.any
      (fun u => u.data.fixedCurrency == some r.id) = false := by
    rw [List.any_eq_false]
    intro u hu
    obtain ⟨o, -, rfl⟩ := Table.mem_change.1 hu
    split
    · simp
    · rename_i hgone
      intro hreports
      have hfixed : o.data.fixedCurrency = some r.id := by simpa using hreports
      refine hgone ?_
      rw [hfixed]
      exact List.any_eq_true.2 ⟨r, hrow, by simp [hp]⟩
  show (Ledger.usesCurrency l r.id || _) = false
  rw [hunused r hrow hp, Bool.false_or]
  exact hforgot

/-- Users go together with all they own. -/
theorem Sound.removeUsers (h : Sound l) {p : Row User → Bool}
    (hp : ∀ a b : Row User, a.id = b.id → p a = p b) (hr : l.removeUsers p = .ok m) : Sound m := by
  unfold Ledger.removeUsers at hr
  obtain ⟨l₂, h₂, hr₂⟩ := Service.except_bind_ok_iff.1 hr
  obtain ⟨l₃, h₃, hr₃⟩ := Service.except_bind_ok_iff.1 hr₂
  obtain ⟨l₄, h₄, hr₄⟩ := Service.except_bind_ok_iff.1 hr₃
  cases hr₄
  have hsound : Sound l₄ :=
    (((h.removeEntries _).removeSources h₂).removeCategories h₃).removeCurrencies h₄
  obtain rfl := removeSources_ok h₂
  obtain rfl := removeCategories_ok h₃
  obtain ⟨t, ht, h₄⟩ := Service.except_bind_ok_iff.1 h₄
  obtain rfl := removeUnused_ok ht
  cases h₄
  refine hsound.erase (ρ := User) fun r hrow hpr hn => ?_
  -- the rows of a user who goes are gone already
  have hgone : (l.users.rows.any fun u => p u && u.id == r.id) = true := by
    obtain ⟨o, ho, hro⟩ := Table.mem_change.1 hrow
    have hid : o.id = r.id := by
      rw [hro]
      split <;> rfl
    exact List.any_eq_true.2 ⟨o, ho, by simp [hp o r hid, hpr, hid]⟩
  have hkept {α : Type} {t : Table α} (owner : α → Int) {x : Row α}
      (hx : x ∈ (t.erase fun r => l.users.rows.any fun u => p u && u.id == owner r.data).rows) :
      owner x.data ≠ r.id := by
    intro howner
    have hnot := (Table.mem_erase.1 hx).2
    rw [howner, hgone] at hnot
    cases hnot
  rcases hn with ⟨x, hx, href⟩ | ⟨x, hx, href⟩ | ⟨x, hx, href⟩ | ⟨x, hx, href⟩ | ⟨x, hx, href⟩
  · cases (refersTo_user.1 href).1
  · exact hkept Currency.owner hx (refersTo_currency.1 href).2
  · exact hkept Category.owner hx (refersTo_category.1 href).2
  · rcases refersTo_source.1 href with ⟨-, howner⟩ | ⟨htable, -⟩
    · exact hkept Source.owner hx howner
    · cases htable
  · rcases refersTo_entry.1 href with ⟨-, howner⟩ | href | href | href | href
    · exact hkept StoredEntry.owner hx howner
    all_goals cases href.1

theorem relation_remove {ρ : Type} [Relation ρ] {p : Row ρ → Bool}
    (h : l.remove true p = .ok (n, m)) : Relation.remove l p = .ok m := by
  obtain ⟨x, hx, h⟩ := Service.except_bind_ok_iff.1 h
  cases h
  exact hx

/-! ## Balances and reports -/

theorem Sound.release (h : Sound l) {p : Row User → Bool} {f : Row User → Row User}
    (hf : ∀ r, f r = r.put "fixed_currency_id" { r.data with fixedCurrency := none }) :
    Sound { l with users := l.users.change p f } := by
  refine h.change (ρ := User) (fun r => ?_) (fun r hr => ?_) (fun r _ => ?_) fun r _ _ href => ?_
  · rw [hf]
    rfl
  · rw [hf]
    exact fun x hx => hr x (List.mem_filter.1 hx).1
  · rw [hf]
    rfl
  · rw [hf] at href
    cases (refersTo_user.1 href).2

theorem Sound.shiftSources (h : Sound l) (p : Row Source → Bool) (d : Cell) :
    Sound (shiftSources l p d).2 := by
  have hplain : ∀ (r : Row Source) a, r.Plain → (r.put "amount" a).Plain :=
    fun _ _ hr x hx => hr x (List.mem_filter.1 hx).1
  refine h.change (ρ := Source) (fun _ => rfl) (fun r hr => hplain r _ hr) (fun r hr => ?_)
    fun r table id href => ?_
  · rw [LawfulSchema.key_eq r hr, LawfulSchema.key_eq _ (hplain r _ hr)]
    refine List.map_congr_left fun column hc => ?_
    rw [hr.at_key hc, (hplain r _ hr).at_key hc]
    rcases List.mem_pair.1 hc with rfl | rfl <;> rfl
  · have hids := refersTo_source.1 href
    exact refersTo_source.2 hids

end

end Bookkeeping.Store
