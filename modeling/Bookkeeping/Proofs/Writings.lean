import Bookkeeping.Proofs.Domains

/-! # Entries as they are written down

Calls write an entry down with the text of a moment as its date and with a target that was trimmed,
and nothing that is done later rewrites either of them. So every entry of a ledger can be read, and
what is read has the same parts as what is stored, but for the dates.
-/

namespace Bookkeeping.Store

open Service

/-! ## Writing other rows -/

/-- Whether all entries of a ledger are written down as calls write them. -/
def Ledger.AllWritten (l : Ledger) : Prop := ∀ r ∈ l.entries.rows, Written r.data

theorem Ledger.AllWritten.of_rows {l m : Ledger} (h : l.AllWritten)
    (hrows : ∀ r ∈ m.entries.rows, r ∈ l.entries.rows) : m.AllWritten :=
  fun r hr => h r (hrows r hr)

/-- Rows that are written without touching the entries. -/
class Aside (ρ : Type) [Relation ρ] : Prop where
  entries_withTable (l : Ledger) (t : Table ρ) : (Relation.withTable l t).entries = l.entries
  entries_remove {l m : Ledger} {p : Row ρ → Bool} (h : Relation.remove l p = .ok m) :
    ∀ r ∈ m.entries.rows, r ∈ l.entries.rows

theorem removeCurrencies_entries {l m : Ledger} {p : Row Currency → Bool}
    (h : l.removeCurrencies p = .ok m) : m.entries = l.entries := by
  obtain ⟨t, -, h⟩ := except_bind_ok_iff.1 h
  cases h
  rfl

instance : Aside User where
  entries_withTable _ _ := rfl
  entries_remove {l m p} h r hr := by
    unfold Relation.remove at h
    obtain ⟨l₂, h₂, hr₂⟩ := except_bind_ok_iff.1 h
    obtain ⟨l₃, h₃, hr₃⟩ := except_bind_ok_iff.1 hr₂
    obtain ⟨l₄, h₄, hr₄⟩ := except_bind_ok_iff.1 hr₃
    cases hr₄
    rw [removeCurrencies_entries h₄, removeCategories_ok h₃, removeSources_ok h₂] at hr
    exact (Table.mem_erase.1 hr).1

instance : Aside Currency where
  entries_withTable _ _ := rfl
  entries_remove h r hr := by rwa [removeCurrencies_entries h] at hr

instance : Aside Category where
  entries_withTable _ _ := rfl
  entries_remove h r hr := by rwa [removeCategories_ok h] at hr

instance : Aside Source where
  entries_withTable _ _ := rfl
  entries_remove h r hr := by rwa [removeSources_ok h] at hr

section

variable {g : Setting} {revises : List (String × Cell) → Prop}

theorem withstands_written (ρ : Type) [Relation ρ] [Aside ρ] {new : ρ → Prop} :
    Withstands g (fun db => db.ledger.AllWritten) ρ new revises where
  insert db a n l hi _ hl := by
    refine hi.of_rows ?_
    rw [(inserted_of_ok hl).ledger]
    exact fun r hr => (Aside.entries_withTable (ρ := ρ) db.ledger _).symm ▸ hr
  update db cells p n l hi _ hl := by
    rcases replaced_of_ok hl with rfl | ⟨old, x, -, hr⟩
    · exact hi
    · refine hi.of_rows ?_
      rw [hr.ledger]
      exact fun r hr => (Aside.entries_withTable (ρ := ρ) db.ledger _).symm ▸ hr
  delete db c n l hi hl := by
    rcases remove_ok hl with hl | rfl
    · exact hi.of_rows (Aside.entries_remove hl)
    · exact hi.of_rows fun r hr => (Aside.entries_withTable (ρ := ρ) db.ledger _).symm ▸ hr

theorem withstandsOwned_written (ρ : Type) [Owned ρ] [Aside ρ] {new : ρ → Prop} :
    WithstandsOwned g (fun db => db.ledger.AllWritten) ρ new revises where
  toWithstands := withstands_written ρ
  deleteByUser db c n l hi hl := by
    rcases remove_ok hl with hl | rfl
    · exact hi.of_rows (Aside.entries_remove hl)
    · exact hi.of_rows fun r hr => (Aside.entries_withTable (ρ := ρ) db.ledger _).symm ▸ hr

theorem written_entries :
    WithstandsOwned g (fun db => db.ledger.AllWritten) StoredEntry Written OnlyMarks where
  insert db a n l hi ha hl := by
    rw [(inserted_of_ok hl).ledger]
    intro r hr
    rcases Table.mem_insert.1 hr with hr | rfl
    · exact hi r hr
    · exact ha
  update db cells p n l hi hc hl := by
    rcases replaced_of_ok hl with rfl | ⟨old, x, hx, hr⟩
    · exact hi
    have hwritten : Written x.data :=
      assigned_induct (P := fun y => Written y.data) hx (hi old hr.mem)
        fun c hmem cell _ _ hcell ha hb =>
          (keeps_marked hc (columns_subset db.layout c hmem) hcell
            fun _ _ h => ⟨⟨h.amount, h.rate, h.rateToFixed⟩, h.dated, h.trimmed⟩).store ha hb
    rw [hr.ledger]
    intro y hy
    rcases Table.mem_replaced.1 hy with ⟨rfl, -⟩ | ⟨hy, -⟩
    · exact hwritten
    · exact hi y hy
  delete db c n l hi hl := by
    rcases remove_ok hl with hl | rfl
    · cases hl
      exact hi.of_rows fun r hr => (Table.mem_erase.1 hr).1
    · exact hi.of_rows fun r hr => (Table.mem_erase.1 hr).1
  deleteByUser db c n l hi hl := by
    rcases remove_ok hl with hl | rfl
    · cases hl
      exact hi.of_rows fun r hr => (Table.mem_erase.1 hr).1
    · exact hi.of_rows fun r hr => (Table.mem_erase.1 hr).1

/-- Entries stay as they are written down, whatever calls do. -/
theorem lasting_written : Lasting g fun db => db.ledger.AllWritten where
  users := withstands_written User
  currencies := withstandsOwned_written Currency
  categories := withstandsOwned_written Category
  sources := withstandsOwned_written Source
  entries := written_entries
  release _ _ _ _ hi := hi
  shift _ _ _ hi := hi

end

theorem Reachable.allWritten {db : Database} (h : Reachable db) : db.ledger.AllWritten := by
  induction h with
  | migrated => rintro r ⟨⟩
  | @call s c _ ho _ ih => exact c.keeps lasting_written ho ih

end Bookkeeping.Store
