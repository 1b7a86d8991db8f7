import Bookkeeping.Proofs.CatalogCalls

/-! # What belongs to whom

A user holds the row of the account and every row that the user owns. Two ledgers may have the same
rows of some users and differ in the rows of others. A condition that goes by the rows of these
users selects the same in both, and a change of the rows of some users leaves those of others alone.
-/

namespace Bookkeeping.Store

/-! ## Chosen rows of a table -/

namespace Table

variable {α : Type} {t u v : Table α} {p q : Row α → Bool} {f : Row α → Row α}

/-- Two tables have the same chosen rows. -/
def Same (q : Row α → Bool) (t u : Table α) : Prop := t.rows.filter q = u.rows.filter q

/-- Two tables have the same chosen rows, and their next rows get the same id. -/
structure Alike (q : Row α → Bool) (t u : Table α) : Prop where
  same : Same q t u
  lastId : t.lastId = u.lastId

instance [DecidableEq α] : Decidable (Same q t u) :=
  inferInstanceAs (Decidable (t.rows.filter q = u.rows.filter q))

instance [DecidableEq α] : Decidable (Alike q t u) :=
  decidable_of_iff (Same q t u ∧ t.lastId = u.lastId) ⟨fun h => ⟨h.1, h.2⟩, fun h => ⟨h.1, h.2⟩⟩

theorem Same.eq (h : Same q t u) : t.rows.filter q = u.rows.filter q := h

theorem Same.refl (q : Row α → Bool) (t : Table α) : Same q t t := rfl

theorem Same.symm (h : Same q t u) : Same q u t := Eq.symm h

theorem Same.trans (h : Same q t u) (h' : Same q u v) : Same q t v := Eq.trans h h'

theorem Same.mem (h : Same q t u) {r : Row α} (hr : r ∈ t.rows) (hq : q r = true) : r ∈ u.rows := by
  have hmem : r ∈ u.rows.filter q := h.eq ▸ List.mem_filter.2 ⟨hr, hq⟩
  exact (List.mem_filter.1 hmem).1

theorem filter_of_imp {rows : List (Row α)} (h : ∀ r ∈ rows, p r = true → q r = true) :
    rows.filter p = (rows.filter q).filter p := by
  rw [List.filter_filter]
  refine List.filter_congr fun r hr => ?_
  cases hp : p r with
  | false => rfl
  | true => rw [h r hr hp, Bool.and_self]

section

variable (h : Same q t u) (ht : ∀ r ∈ t.rows, p r = true → q r = true)
  (hu : ∀ r ∈ u.rows, p r = true → q r = true)

include h ht hu

/-- A condition on chosen rows selects the same rows. -/
theorem Same.filter : t.rows.filter p = u.rows.filter p := by
  rw [filter_of_imp ht, filter_of_imp hu, h.eq]

theorem Same.find? : t.rows.find? p = u.rows.find? p := by
  rw [← List.head?_filter, ← List.head?_filter, h.filter ht hu]

theorem Same.count : t.count p = u.count p := congrArg List.length (h.filter ht hu)

end

theorem Same.mono (h : Same q t u) (hp : ∀ r, p r = true → q r = true) : Same p t u :=
  h.filter (fun r _ => hp r) fun r _ => hp r

/-! ## The same change of two tables -/

theorem filter_change (h : ∀ r ∈ t.rows, p r = true → q (f r) = q r) :
    (t.change p f).rows.filter q = (t.rows.filter q).map fun r => if p r then f r else r := by
  rw [rows_change, List.filter_map]
  refine congrArg _ (List.filter_congr fun r hr => ?_)
  cases hp : p r with
  | false => simp [hp]
  | true => simpa [hp] using h r hr hp

theorem filter_erase (t : Table α) (p q : Row α → Bool) :
    (t.erase p).rows.filter q = (t.rows.filter q).filter fun r => !p r := by
  rw [rows_erase, List.filter_filter, List.filter_filter]
  exact List.filter_congr fun r _ => Bool.and_comm _ _

/-- A row takes the place of the one with its id. -/
theorem replace_eq_change (t : Table α) (r : Row α) :
    t.replace r.id r = t.change (fun x => x.id == r.id) fun _ => r := by
  rw [change, ← rows_replace]
  rfl

namespace Alike

theorem nextId (h : Alike q t u) (ht : t.Tidy) (hu : u.Tidy) : t.nextId = u.nextId := by
  rw [ht.nextId_eq, hu.nextId_eq, h.lastId]

theorem isFull (h : Alike q t u) (ht : t.Tidy) (hu : u.Tidy) : t.isFull = u.isFull := by
  rw [Table.isFull, Table.isFull, h.nextId ht hu]

theorem insert (h : Alike q t u) (ht : t.Tidy) (hu : u.Tidy) (a : α) :
    Alike q (t.insert a) (u.insert a) where
  same := by
    rw [Same, rows_insert, rows_insert, List.filter_append, List.filter_append, h.nextId ht hu,
      h.same.eq]
  lastId := h.nextId ht hu

theorem change (h : Alike q t u) (ht : ∀ r ∈ t.rows, p r = true → q (f r) = q r)
    (hu : ∀ r ∈ u.rows, p r = true → q (f r) = q r) : Alike q (t.change p f) (u.change p f) where
  same := by rw [Same, filter_change ht, filter_change hu, h.same.eq]
  lastId := h.lastId

theorem erase (h : Alike q t u) (p : Row α → Bool) : Alike q (t.erase p) (u.erase p) where
  same := by rw [Same, filter_erase, filter_erase, h.same.eq]
  lastId := h.lastId

end Alike

/-! ## Changes that leave the chosen rows alone -/

theorem same_insert {a : α} (h : q { id := t.nextId, data := a } = false) :
    Same q t (t.insert a) := by
  rw [Same, rows_insert, List.filter_append, List.filter_cons_of_neg (by simp [h]),
    List.filter_nil, List.append_nil]

theorem same_erase (h : ∀ r ∈ t.rows, p r = true → q r = false) : Same q t (t.erase p) := by
  rw [Same, filter_erase, eq_comm, List.filter_eq_self]
  intro r hr
  obtain ⟨hmem, hq⟩ := List.mem_filter.1 hr
  cases hp : p r with
  | false => rfl
  | true => rw [h r hmem hp] at hq; cases hq

theorem same_change (h : ∀ r ∈ t.rows, p r = true → q r = false ∧ q (f r) = false) :
    Same q t (t.change p f) := by
  rw [Same, filter_change fun r hr hp => (h r hr hp).2.trans (h r hr hp).1.symm, eq_comm]
  refine (List.map_congr_left fun r hr => ?_).trans (List.map_id _)
  obtain ⟨hmem, hq⟩ := List.mem_filter.1 hr
  cases hp : p r with
  | false => rfl
  | true => rw [(h r hmem hp).1] at hq; cases hq

end Table

/-! ## Chosen users of a ledger -/

/-- Kinds of rows that users hold. -/
class Held (ρ : Type) where
  holder : Row ρ → Int

instance : Held User := ⟨Row.id⟩

instance {ρ : Type} [Owned ρ] : Held ρ := ⟨fun r => Owned.owner r.data⟩

namespace Ledger

/-- Two ledgers whose tables are related as far as the chosen users hold their rows. -/
structure Each (R : {α : Type} → (Row α → Bool) → Table α → Table α → Prop) (p : Int → Bool)
    (l m : Ledger) : Prop where
  users : R (fun r => p r.id) l.users m.users
  currencies : R (fun r => p r.data.owner) l.currencies m.currencies
  categories : R (fun r => p r.data.owner) l.categories m.categories
  sources : R (fun r => p r.data.owner) l.sources m.sources
  entries : R (fun r => p r.data.owner) l.entries m.entries

/-- Two ledgers have the same rows of the chosen users: their accounts, and the currencies,
categories, sources and entries that they own. -/
abbrev Same (p : Int → Bool) (l m : Ledger) : Prop := Each Table.Same p l m

/-- Two ledgers have the same rows of the chosen users, and all their counters of ids agree. -/
abbrev Alike (p : Int → Bool) (l m : Ledger) : Prop := Each Table.Alike p l m

variable {p q : Int → Bool} {l m n : Ledger}

theorem Same.refl (p : Int → Bool) (l : Ledger) : Same p l l := ⟨rfl, rfl, rfl, rfl, rfl⟩

theorem Same.trans (h : Same p l m) (h' : Same p m n) : Same p l n where
  users := h.users.trans h'.users
  currencies := h.currencies.trans h'.currencies
  categories := h.categories.trans h'.categories
  sources := h.sources.trans h'.sources
  entries := h.entries.trans h'.entries

theorem Same.mono (h : Same p l m) (hq : ∀ n, q n = true → p n = true) : Same q l m where
  users := h.users.mono fun _ => hq _
  currencies := h.currencies.mono fun _ => hq _
  categories := h.categories.mono fun _ => hq _
  sources := h.sources.mono fun _ => hq _
  entries := h.entries.mono fun _ => hq _

theorem Alike.refl (p : Int → Bool) (l : Ledger) : Alike p l l :=
  ⟨⟨rfl, rfl⟩, ⟨rfl, rfl⟩, ⟨rfl, rfl⟩, ⟨rfl, rfl⟩, ⟨rfl, rfl⟩⟩

/-- Ledgers that are alike for all users are the same. -/
theorem Alike.eq (h : Alike (fun _ => true) l m) : l = m := by
  have htable {α : Type} {t u : Table α} (h : t.Alike (fun _ => true) u) : t = u := by
    obtain ⟨hs, hid⟩ := h
    rw [Table.Same, List.filter_true, List.filter_true] at hs
    cases t
    cases u
    cases hs
    cases hid
    rfl
  cases l
  cases m
  simp only [mk.injEq]
  exact ⟨htable h.users, htable h.currencies, htable h.categories, htable h.sources,
    htable h.entries⟩

end Ledger

/-- Relations whose tables are parts of ledgers like any other. -/
class Parted (ρ : Type) [Relation ρ] [Held ρ] : Prop where
  withTable_table (l : Ledger) : Relation.withTable l (Relation.table (ρ := ρ) l) = l
  each {R : {α : Type} → (Row α → Bool) → Table α → Table α → Prop} {p : Int → Bool}
    {l m : Ledger} (h : Ledger.Each R p l m) :
    R (fun r : Row ρ => p (Held.holder r)) (Relation.table l) (Relation.table m)
  withTable {R : {α : Type} → (Row α → Bool) → Table α → Table α → Prop} {p : Int → Bool}
    {l m : Ledger} {t u : Table ρ} (h : Ledger.Each R p l m)
    (ht : R (fun r => p (Held.holder r)) t u) :
    Ledger.Each R p (Relation.withTable l t) (Relation.withTable m u)

instance : Parted User where
  withTable_table _ := rfl
  each h := h.users
  withTable h ht := { h with users := ht }

instance : Parted Currency where
  withTable_table _ := rfl
  each h := h.currencies
  withTable h ht := { h with currencies := ht }

instance : Parted Category where
  withTable_table _ := rfl
  each h := h.categories
  withTable h ht := { h with categories := ht }

instance : Parted Source where
  withTable_table _ := rfl
  each h := h.sources
  withTable h ht := { h with sources := ht }

instance : Parted StoredEntry where
  withTable_table _ := rfl
  each h := h.entries
  withTable h ht := { h with entries := ht }

/-- A change of one table that leaves the chosen rows alone. -/
theorem same_withTable {ρ : Type} [Relation ρ] [Held ρ] [Parted ρ] {p : Int → Bool} {l : Ledger}
    {t : Table ρ} (h : (Relation.table l).Same (fun r => p (Held.holder r)) t) :
    Ledger.Same p l (Relation.withTable l t) := by
  have hw := Parted.withTable (Ledger.Same.refl p l) h
  rwa [Parted.withTable_table] at hw

end Bookkeeping.Store
