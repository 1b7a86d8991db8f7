import Bookkeeping.Proofs.TableUpkeep

/-! # The order of rows

The rows of a table stand in the order of their ids, and no two of them have one. A new row gets a
larger id than all others, and a row that gets another id moves to its new place. So the order outlives
calls of any kind, whether references are looked after or not.
-/

namespace Bookkeeping.Store

/-! ## Tables -/

/-- The rows of a table in the order of their ids. -/
def Table.byId {α : Type} (t : Table α) : List (Row α) := t.rows.mergeSort fun a b => a.id ≤ b.id

/-- A table whose rows stand in the order of their ids, each of which only one row has. -/
def Table.Ascending {α : Type} (t : Table α) : Prop := t.rows.Pairwise fun a b => a.id < b.id

instance {α : Type} (t : Table α) : Decidable t.Ascending :=
  inferInstanceAs (Decidable (t.rows.Pairwise fun a b => a.id < b.id))

namespace Table

variable {α : Type} {t : Table α}

/-- The rows of a list by ids, which must not be the same, stand in their order. -/
theorem pairwise_mergeSort {rows : List (Row α)} (h : (rows.map Row.id).Nodup) :
    (rows.mergeSort fun a b => a.id ≤ b.id).Pairwise fun a b => a.id < b.id := by
  have htrans (a b c : Row α) (hab : decide (a.id ≤ b.id) = true)
      (hbc : decide (b.id ≤ c.id) = true) : decide (a.id ≤ c.id) = true := by
    simp only [decide_eq_true_eq] at *
    omega
  have htotal (a b : Row α) : (decide (a.id ≤ b.id) || decide (b.id ≤ a.id)) = true := by
    simp only [Bool.or_eq_true, decide_eq_true_eq]
    omega
  have hsorted : (rows.mergeSort fun a b => a.id ≤ b.id).Pairwise fun a b => a.id ≤ b.id := by
    simpa using List.pairwise_mergeSort htrans htotal rows
  have hids : (rows.mergeSort fun a b => a.id ≤ b.id).Pairwise fun a b => a.id ≠ b.id :=
    List.pairwise_map.1 (((List.mergeSort_perm rows _).map Row.id).nodup_iff.2 h)
  exact hsorted.and hids |>.imp fun hlt => by omega

namespace Ascending

theorem nodup_ids (h : t.Ascending) : (t.rows.map Row.id).Nodup :=
  List.pairwise_map.2 (h.imp Int.ne_of_lt)

/-- Such a table has its rows in their order already. -/
theorem byId_eq (h : t.Ascending) : t.byId = t.rows := by
  refine List.mergeSort_of_pairwise (h.imp fun hlt => ?_)
  simpa using Int.le_of_lt hlt

theorem empty : ({} : Table α).Ascending := List.Pairwise.nil

theorem insert (h : t.Ascending) (a : α) : (t.insert a).Ascending := by
  refine List.pairwise_append.2 ⟨h, List.pairwise_singleton _ _, fun r hr x hx => ?_⟩
  rw [List.mem_singleton.1 hx]
  exact t.id_lt_nextId hr

theorem erase (h : t.Ascending) (p : Row α → Bool) : (t.erase p).Ascending :=
  h.sublist List.filter_sublist

/-- Rows that keep their ids keep their places. -/
theorem map (h : t.Ascending) {f : Row α → Row α} (hid : ∀ r, (f r).id = r.id) :
    (t.rows.map f).Pairwise fun a b => a.id < b.id :=
  List.pairwise_map.2 (h.imp fun hlt => by rwa [hid, hid])

theorem change (h : t.Ascending) {p : Row α → Bool} {f : Row α → Row α}
    (hid : ∀ r, (f r).id = r.id) : (t.change p f).Ascending := by
  refine h.map fun r => ?_
  split
  · exact hid r
  · rfl

/-- A row that gets an id of its own finds its place. -/
theorem replace (h : t.Ascending) {old x : Row α}
    (hfresh : ∀ o ∈ t.rows, o.id ≠ old.id → o.id ≠ x.id) : (t.replace old.id x).Ascending := by
  have hids := ids_replaced h.nodup_ids hfresh
  rw [Ascending]
  rw [Table.replace] at hids ⊢
  dsimp only at hids ⊢
  split
  · rename_i hsame
    refine h.map fun r => ?_
    split
    · rename_i hr
      exact (beq_iff_eq.1 hsame).trans (beq_iff_eq.1 hr).symm
    · rfl
  · rename_i hmoved
    rw [if_neg hmoved] at hids
    exact pairwise_mergeSort (((List.mergeSort_perm _ _).map Row.id).nodup_iff.1 hids)

end Ascending

end Table

/-! ## Ledgers -/

/-- A ledger whose tables have their rows in the order of their ids. -/
structure Ledger.Ascending (l : Ledger) : Prop where
  users : l.users.Ascending
  currencies : l.currencies.Ascending
  categories : l.categories.Ascending
  sources : l.sources.Ascending
  entries : l.entries.Ascending

/-- Relations whose table is in order along with its ledger. -/
class Sequenced (ρ : Type) [Relation ρ] : Prop where
  ascending_table {l : Ledger} (h : l.Ascending) : (Relation.table (ρ := ρ) l).Ascending
  ascending_withTable {l : Ledger} (h : l.Ascending) {t : Table ρ} (ht : t.Ascending) :
    (Relation.withTable l t).Ascending

instance : Sequenced User where
  ascending_table h := h.users
  ascending_withTable h _ ht := { h with users := ht }

instance : Sequenced Currency where
  ascending_table h := h.currencies
  ascending_withTable h _ ht := { h with currencies := ht }

instance : Sequenced Category where
  ascending_table h := h.categories
  ascending_withTable h _ ht := { h with categories := ht }

instance : Sequenced Source where
  ascending_table h := h.sources
  ascending_withTable h _ ht := { h with sources := ht }

instance : Sequenced StoredEntry where
  ascending_table h := h.entries
  ascending_withTable h _ ht := { h with entries := ht }

/-- Whatever is done to the rows of one kind leaves the rows in order. -/
theorem stays_ascending (ρ : Type) [Relation ρ] [Sequenced ρ] :
    StaysRenumbered Ledger.Ascending ρ where
  insert _ a h := Sequenced.ascending_withTable h ((Sequenced.ascending_table h).insert a)
  replace _ _ _ h _ hid := Sequenced.ascending_withTable h <|
    (Sequenced.ascending_table h).replace fun _ _ hne => hid ▸ hne
  erase _ p h := Sequenced.ascending_withTable h ((Sequenced.ascending_table h).erase p)
  change _ _ _ hid h := Sequenced.ascending_withTable h ((Sequenced.ascending_table h).change hid)
  renumber _ _ _ h _ hfresh :=
    Sequenced.ascending_withTable h ((Sequenced.ascending_table h).replace hfresh)

theorem everyKind_ascending : EveryKind (StaysRenumbered Ledger.Ascending) :=
  ⟨stays_ascending User, stays_ascending Currency, stays_ascending Category, stays_ascending Source,
    stays_ascending StoredEntry⟩

/-! ## Runs -/

open Service

/-- A database that calls of the ledger and calls on tables can lead to, in any order and in sessions
of any kind, whether they look after references or not. What a block may be undone to is such a
database, too. -/
inductive Database.Used : Database → Prop
  | migrated : Used .migrated
  | call {s : Session} (c : Call) (hd : Used s.database)
    (hb : ∀ before, s.standing = .inside before → Used before) : Used (c.run.exec s).2.database
  | tableCall {s : Session} (c : TableCall) (hd : Used s.database)
    (hb : ∀ before, s.standing = .inside before → Used before) : Used (c.run.exec s).2.database

/-- Every table has its rows in the order of their ids, after any mix of calls. -/
theorem Database.Used.ascending {db : Database} (h : db.Used) : db.ledger.Ascending := by
  induction h with
  | migrated => exact ⟨.empty, .empty, .empty, .empty, .empty⟩
  | call c _ _ ih ihb =>
    exact (c.upholds everyKind_ascending.stays.enduring.lasting ⟨ih, ihb⟩).now
  | @tableCall s c _ _ ih ihb =>
    exact ((orderly_tableCall (g := s.setting) c).upholds
      ⟨everyKind_ascending.stays.enduring, everyKind_ascending.renumbers⟩ rfl ⟨ih, ihb⟩).now

/-- Any calls of the ledger may be made one after the other. -/
theorem Database.Used.after {s : Session} (hd : s.database.Used) (ho : s.inBlock = false)
    (calls : List Call) : (s.after calls).database.Used := by
  induction calls generalizing s with
  | nil => exact hd
  | cons c rest ih =>
    exact ih (.call c hd fun _ hs => by rw [Session.inBlock_eq_false.1 ho] at hs; cases hs)
      (c.atomic s ho).1

end Bookkeeping.Store
