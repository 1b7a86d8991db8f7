import Bookkeeping.Proofs.Balances
import Bookkeeping.Proofs.Removals

/-! # Calls on entries

Recording, marking and removing entries. Each of these changes the table of entries and shifts the
balances that the entry touches, in one transaction.
-/

namespace Bookkeeping

open Number

namespace Store

variable {s t : Session}

theorem effects_of_toEntry {l : Ledger} {r : Row StoredEntry} {a : Row Entry}
    (h : StoredEntry.toEntry .full r = .ok a) :
    l.effects r = (a.data.shifts ((l.sources.find? a.data.source).map Row.data)).mapError .misuse := by
  rw [Ledger.effects, h]
  rfl

/-- A source that is read is held in the currency of its row. -/
theorem currency_of_readSource {r a : Row Source} (ho : r.odd = [])
    (h : Persistent.decode (ρ := Source) .full r = .ok a) :
    a.id = r.id ∧ a.data.currency = r.data.currency := by
  obtain ⟨n, -, -, rfl⟩ := (reread_source ho).1 h
  exact ⟨rfl, rfl⟩

/-- The record of an entry has the flag of its row. -/
theorem archived_of_toEntry {r : Row StoredEntry} {a : Row Entry} (ho : r.odd = [])
    (h : StoredEntry.toEntry .full r = .ok a) : a.data.archived = r.data.archived := by
  obtain ⟨date, createdAt, -, -, -, -, -, rfl⟩ := (StoredEntry.toEntry_ok ho).1 h
  rfl

variable {gone : Row StoredEntry → Prop}

/-- A session is followed by another one whose ledger comes about by a change. -/
def Session.Changes (s : Session) (gone : Row StoredEntry → Prop) (t : Session) : Prop :=
  ∃ m, t.database = s.database.withLedger m ∧ Change gone s.database.ledger m

theorem Session.Settles.changes (h : s.Settles t) : s.Changes gone t := by
  obtain ⟨m, hm, hsettling⟩ := h
  exact ⟨m, hm, .settings hsettling⟩

theorem Session.Changes.refl (h : t.database = s.database) : s.Changes gone t :=
  (Session.Settles.refl h).changes

end Store

namespace Service

open Store

variable {s t : Session}

/-- The shifts of an entry are found with its source as it is in the ledger. -/
theorem shiftsOf_ok (h : s.Ready) (ht : s.database.ledger.sources.Tidy) {e : Entry}
    {shifts : List Shift} (hx : (shiftsOf e).exec s = (.ok shifts, t)) :
    t = s ∧ (e.shifts ((s.database.ledger.sources.find? e.source).map Row.data)).mapError
      Failure.misuse = .ok shifts := by
  obtain ⟨found, u, hf, hs⟩ := Op.bind_ok hx
  obtain ⟨rfl, hpick⟩ := find_ok Source h rfl hf
  obtain ⟨hshifts, rfl⟩ := Op.lift_ok hs
  refine ⟨rfl, ?_⟩
  rw [← hshifts, shifts_congr e]
  have hp : (fun r : Row Source => decide ((Value.int e.source).id? = some r.id))
      = fun r => r.id == e.source := by
    funext r
    simp [Value.id?, eq_comm, beq_eq_decide]
  rw [hp] at hpick
  cases hr : t.database.ledger.sources.find? e.source with
  | none =>
    rw [pick, show (Relation.table t.database.ledger).rows.find? _ = none from hr] at hpick
    cases hpick
    rfl
  | some r =>
    rw [pick, show (Relation.table t.database.ledger).rows.find? _ = some r from hr] at hpick
    cases hd : Persistent.decode (ρ := Source) .full r with
    | error e =>
      simp only [hd] at hpick
      cases hpick
    | ok a =>
      simp only [hd] at hpick
      cases hpick
      simp [currency_of_readSource (ht.proper r (List.mem_of_find?_eq_some hr)) hd]

/-! ## The life of an entry -/

/-- Setting the flag of an entry marks its row. -/
theorem setArchived_ok (h : s.Ready) (ht : s.database.ledger.entries.Tidy) {id : Value}
    {r : Row StoredEntry} {archived done : Bool} (hr : r ∈ s.database.ledger.entries.rows)
    (hid : id.id? = some r.id) (hisId : id.isId = true)
    (hx : (setArchived StoredEntry id (.bool archived)).exec s = (.ok done, t)) :
    t = s.put { s.database.ledger with
      entries := s.database.ledger.entries.replace r.id (markedAs archived r) } := by
  obtain ⟨flag, hflag, hup⟩ := Op.lift_bind_ok hx
  rcases update_ok h hisId (by simp) hup with ⟨-, hnone⟩ | ⟨cells, old, x, hc, hold, hoid, ha, -, rfl⟩
  · exact absurd hid (hnone r hr)
  · obtain rfl := ht.eq_of_id hold hr (Option.some.inj (hoid.symm.trans hid))
    cases hflag
    have hcells : cells = [("archived", Cell.ofBool archived)] := by
      cases archived <;> cases hc <;> rfl
    rw [hcells, assigned_single rfl] at ha
    have hx : x = markedAs archived old := by
      cases archived <;> cases ha <;>
        simp [markedAs, Row.put, Row.oddBut, ht.proper old hold]
    rw [hx]
    rfl

/-- An entry that is marked the other way has its shifts applied or undone. -/
theorem changes_markEntry (hs : s.Idle) (hi : Intact s.database.ledger)
    {gone : Row StoredEntry → Prop} {archived : Bool}
    {user id : Value} {out : Row Entry × Option (Option (Row Entry))} (hu : user.isId = true)
    (hid : id.isId = true) (hx : (markEntry archived user id).exec s = (.ok out, t)) :
    s.Changes gone t := by
  obtain ⟨v, hv, rfl⟩ := transaction_ok hs.not_inBlock hx
  have hr := hs.ready
  obtain ⟨e, x₁, hget, h₁⟩ := Op.bind_ok hv
  obtain ⟨rfl, r, hmem, hrid, -, hread, -⟩ := loadOwned_ok hr hi.entries hu hid hget
  have hodd := hi.entries.proper r hmem
  split at h₁
  · obtain ⟨-, rfl⟩ := Op.pure_ok h₁
    exact .refl rfl
  · rename_i hother
    obtain ⟨done, x₂, hset, h₂⟩ := Op.bind_ok h₁
    obtain rfl := setArchived_ok hr hi.entries hmem hrid hid hset
    obtain ⟨shifts, x₃, hshifts, h₃⟩ := Op.bind_ok h₂
    obtain ⟨rfl, heffects⟩ := shiftsOf_ok (hr.put _) (by exact hi.sources.tidy) hshifts
    obtain ⟨_, x₄, happly, h₄⟩ := Op.bind_ok h₃
    obtain ⟨hbears, rfl⟩ := applyShifts_ok (hr.put _) (by exact hi.sources.tidy) happly
    obtain ⟨after, x₅, hfind, hp⟩ := Op.bind_ok h₄
    obtain ⟨rfl, -⟩ := find_ok StoredEntry ((hr.put _).put _) hid hfind
    obtain ⟨-, rfl⟩ := Op.pure_ok hp
    refine ⟨_, ?_, .mark r archived shifts hmem ?_ ?_ (bears_withEntries _ |>.1 hbears)⟩
    · rw [← shiftAll_withEntries]
      rfl
    · rw [archived_of_toEntry hodd hread] at hother
      cases archived <;> simpa using hother
    · rw [effects_of_toEntry hread]
      exact heffects

theorem deleteRow_ok (h : s.Ready) {id : Value} {n : Int} {found : Bool} (hid : id.id? = some n)
    (hisId : id.isId = true) (hx : (delete StoredEntry id).exec s = (.ok found, t)) :
    t = s.put { s.database.ledger with
      entries := s.database.ledger.entries.erase fun e => e.id == n } := by
  obtain ⟨k, m, hrem, rfl⟩ := delete_ok h hisId hx
  have hp : (fun r : Row StoredEntry => decide (id.id? = some r.id)) = fun r => r.id == n := by
    funext r
    rw [hid, beq_eq_decide]
    simp [eq_comm]
  rw [hp] at hrem
  rw [remove_entries_ok hrem]

/-- An entry that is removed while it is active has its shifts undone. -/
theorem changes_deleteEntry (hs : s.Idle) (hi : Intact s.database.ledger) {user id : Value}
    {u : Unit} (hu : user.isId = true) (hid : id.isId = true)
    (hx : (deleteEntry user id).exec s = (.ok u, t)) :
    s.Changes (fun r => user.id? = some r.data.owner ∧ id.id? = some r.id) t := by
  obtain ⟨_, w, htx, he⟩ := Op.bind_ok (logged_ok hx)
  obtain ⟨v, hv, rfl⟩ := transaction_ok hs.not_inBlock htx
  have hr := hs.ready
  obtain ⟨e, x₁, hget, h₁⟩ := Op.bind_ok hv
  obtain ⟨rfl, r, hmem, hrid, howner, hread, -⟩ := loadOwned_ok hr hi.entries hu hid hget
  have harch := archived_of_toEntry (hi.entries.proper r hmem) hread
  split at h₁
  · rename_i hactive
    obtain ⟨shifts, x₂, hshifts, h₂⟩ := Op.bind_ok h₁
    obtain ⟨rfl, heffects⟩ := shiftsOf_ok hr (by exact hi.sources.tidy) hshifts
    obtain ⟨_, x₃, happly, h₃⟩ := Op.bind_ok h₂
    obtain ⟨hbears, rfl⟩ := applyShifts_ok hr (by exact hi.sources.tidy) happly
    obtain ⟨found, x₄, hdel, hp⟩ := Op.bind_ok h₃
    obtain ⟨-, rfl⟩ := Op.pure_ok hp
    obtain rfl := deleteRow_ok (hr.put _) hrid hid hdel
    refine ⟨_, ?_, .remove r _ hmem ⟨howner, hrid⟩ ?_ hbears⟩
    · rw [(emit_ok he).1, Session.ledger_put, entries_shiftAll]
      rfl
    · have hopen : r.data.archived = false := by simpa [harch] using hactive
      rw [hopen, if_neg (by simp)]
      exact ⟨shifts, by rw [effects_of_toEntry hread]; exact heffects, rfl⟩
  · rename_i hactive
    obtain ⟨found, x₂, hdel, hp⟩ := Op.bind_ok h₁
    obtain ⟨-, rfl⟩ := Op.pure_ok hp
    obtain rfl := deleteRow_ok hr hrid hid hdel
    refine ⟨_, ?_, .remove r [] hmem ⟨howner, hrid⟩ ?_ trivial⟩
    · rw [(emit_ok he).1]
      rfl
    · have hclosed : r.data.archived = true := by simpa [harch] using hactive
      rw [if_pos hclosed]

end Service

end Bookkeeping
