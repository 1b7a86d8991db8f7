import Bookkeeping.Proofs.Acceptance
import Bookkeeping.Proofs.Accounts

/-! # Entries as they were recorded

An entry is a snapshot: amounts and rates are stored with it when it is recorded, and no call changes
them afterwards, whatever becomes of its currency, its category and its sources. Only its flag is set
and cleared. A source may be renamed and archived, but stays with its user and in its currency. So the
shifts that are found for an entry at any later time are those that it was recorded with.
-/

namespace Bookkeeping.Store

open Service

/-! ## Runs -/

/-- The databases that further calls lead to. -/
inductive Database.LeadsTo (db : Database) : List Call → Database → Prop
  | refl : db.LeadsTo [] db
  | call {s : Session} {c : Call} {calls : List Call} (h : db.LeadsTo calls s.database)
      (ho : s.inBlock = false) (hc : c.Typed) :
      db.LeadsTo (calls ++ [c]) (c.run.exec s).2.database

variable {db db' : Database} {calls : List Call}

theorem Database.LeadsTo.reachable (h : db.LeadsTo calls db') (hd : Reachable db) :
    Reachable db' := by
  induction h with
  | refl => exact hd
  | call _ ho hc ih => exact ih.call ho hc

/-- Any calls at all may be made one after the other. -/
theorem Database.LeadsTo.after {s : Session} (h : db.LeadsTo calls s.database)
    (ho : s.inBlock = false) {more : List Call} (hc : ∀ c ∈ more, c.Typed) :
    db.LeadsTo (calls ++ more) (s.after more).database := by
  induction more generalizing s calls with
  | nil =>
    rw [List.append_nil]
    exact h
  | cons c rest ih =>
    rw [List.append_cons]
    exact ih (.call h ho (hc c List.mem_cons_self)) (c.atomic s ho).1
      fun c hc' => hc c (List.mem_cons_of_mem _ hc')

/-! ## What a run retains -/

theorem Call.retains {s : Session} (hd : Reachable s.database) (ho : s.inBlock = false)
    {c : Call} (hc : c.Typed) : Retains s.database.ledger (c.run.exec s).2.database.ledger :=
  ((hd.change ho hc).continues hd.intact.2).retains

theorem Database.LeadsTo.retains (h : db.LeadsTo calls db') (hd : Reachable db) :
    Retains db.ledger db'.ledger := by
  induction h with
  | refl => exact .refl hd.intact.2
  | call h ho hc ih => exact ih.trans (Call.retains (h.reachable hd) ho hc)

section

variable {gone : Row StoredEntry → Prop} {l m : Ledger} (h : Change gone l m) (hl : Intact l)
  {r : Row StoredEntry}

include h hl

/-- A change removes no other entries than those that are meant. -/
theorem Change.has_or_gone (hr : r ∈ l.entries.rows) : m.entries.Has r.id ∨ gone r := by
  cases h with
  | settings settling =>
    rw [(untouched_of_steps settling.steps hl).entries]
    exact .inl ⟨r, hr, rfl⟩
  | record e shifts room active filed effects bears placed =>
    exact .inl ⟨r, Table.mem_insert.2 (.inl hr), rfl⟩
  | mark x archived shifts mem other effects bears =>
    left
    by_cases hid : r.id = x.id
    · exact ⟨markedAs archived x, Table.mem_replace.2 (.inl ⟨rfl, x, mem, rfl⟩), hid.symm⟩
    · exact ⟨r, Table.mem_replace.2 (.inr ⟨hr, hid⟩), rfl⟩
  | remove x shifts mem meant undone bears =>
    by_cases hid : r.id = x.id
    · obtain rfl := hl.entries.eq_of_id hr mem hid
      exact .inr meant
    · exact .inl ⟨r, Table.mem_erase.2 ⟨hr, by simpa using hid⟩, rfl⟩
  | clear user meant =>
    by_cases howner : r.data.owner = user
    · exact .inr (meant r hr howner)
    · exact .inl ⟨r, Table.mem_erase.2 ⟨hr, by simpa using howner⟩, rfl⟩

/-- An entry that is new after a change was recorded by it, and its shifts were applied then. -/
theorem Change.recorded (hr : r ∈ m.entries.rows) (hnew : ¬ l.entries.Has r.id) :
    ∃ shifts, m.sources = (l.shiftAll shifts).sources ∧ m.effects r = .ok shifts := by
  cases h with
  | settings settling =>
    rw [(untouched_of_steps settling.steps hl).entries] at hr
    exact absurd ⟨r, hr, rfl⟩ hnew
  | record e shifts room active filed effects bears placed =>
    rcases Table.mem_insert.1 hr with hr | rfl
    · exact absurd ⟨r, hr, rfl⟩ hnew
    · exact ⟨shifts, rfl, (effects_shiftAll hl rfl bears rfl filed.source.has).trans effects⟩
  | mark x archived shifts mem other effects bears =>
    rcases Table.mem_replace.1 hr with ⟨rfl, -⟩ | ⟨hr, -⟩
    · exact absurd ⟨x, mem, rfl⟩ hnew
    · exact absurd ⟨r, hr, rfl⟩ hnew
  | remove x shifts mem meant undone bears =>
    exact absurd ⟨r, (Table.mem_erase.1 hr).1, rfl⟩ hnew
  | clear user meant => exact absurd ⟨r, (Table.mem_erase.1 hr).1, rfl⟩ hnew

end

/-- An entry stays stored until a call is meant to remove it. -/
theorem Database.LeadsTo.has_entry (h : db.LeadsTo calls db') (hd : Reachable db)
    {r : Row StoredEntry} (hr : r ∈ db.ledger.entries.rows) (hkept : ∀ c ∈ calls, ¬ c.Deletes r) :
    db'.ledger.entries.Has r.id := by
  induction h with
  | refl => exact ⟨r, hr, rfl⟩
  | @call s c calls h ho hc ih =>
    obtain ⟨e, he, hid⟩ := ih fun c hmem => hkept c (List.mem_append_left [_] hmem)
    have hs := h.reachable hd
    have hmarked := (h.retains hd).entry_eq hd.intact.2 hr he hid
    -- what a call is meant to remove is not a matter of the flag
    have hspared : ¬ c.Deletes e := by
      rw [hmarked]
      exact hkept c (List.mem_append_right calls List.mem_cons_self)
    exact hid ▸ ((hs.change ho hc).has_or_gone hs.intact.2 he).resolve_right hspared

variable {s : Session} {c : Call}

/-- From the call that records an entry on, whatever calls follow, the entry is stored as it was then
but for its flag, until it or its user is deleted, and its shifts are found to be those that were
applied when it was recorded. A source stays with its user and in its currency. -/
theorem Reachable.snapshots_stay (hd : Reachable s.database) (ho : s.inBlock = false)
    (hc : c.Typed) (h : (c.run.exec s).2.database.LeadsTo calls db) :
    (∀ r ∈ (c.run.exec s).2.database.ledger.entries.rows, ¬ s.database.ledger.entries.Has r.id →
      ∃ shifts, (c.run.exec s).2.database.ledger.sources
          = (s.database.ledger.shiftAll shifts).sources ∧
        ((∀ c' ∈ calls, ¬ c'.Deletes r) → db.ledger.entries.Has r.id) ∧
        ∀ e ∈ db.ledger.entries.rows, e.id = r.id →
          e = markedAs e.data.archived r ∧ db.ledger.effects e = .ok shifts) ∧
    ∀ x ∈ (c.run.exec s).2.database.ledger.sources.rows, ∀ y ∈ db.ledger.sources.rows,
      y.id = x.id → y.data.owner = x.data.owner ∧ y.data.currency = x.data.currency := by
  have hafter : Reachable (c.run.exec s).2.database := hd.call ho hc
  have hkept := h.retains hafter
  refine ⟨fun r hr hnew => ?_, fun x hx y hy => hkept.source_eq hafter.intact.2 hx hy⟩
  obtain ⟨shifts, hsources, heffects⟩ := (hd.change ho hc).recorded hd.intact.2 hr hnew
  refine ⟨shifts, hsources, h.has_entry hafter hr, fun e he hid => ?_⟩
  refine ⟨hkept.entry_eq hafter.intact.2 hr he hid, ?_⟩
  rw [hkept.effects_eq hafter.intact.2 (h.reachable hafter).intact.2 hr he hid, heffects]

/-- Bread stays as it was bought: its rate is that of the day, although the currency has another one
now, the source another name, and the entry is archived. -/
theorem bread_stays_as_bought :
    let s := newSession.after (firstSpending.take 3)
    let c := Call.createEntry (.int 1) (some bread) []
    let t := (c.run.exec s).2
    let later := [Call.updateCurrency (.int 1) (.int 1) (.text "Euro") (.float 2),
      .rename .source (.int 1) (.int 1) (.text "Wallet"), .archiveEntry (.int 1) (.int 1)]
    let db := (t.after later).database
    Reachable s.database ∧ s.inTransaction = false ∧ c.Typed ∧ t.database.LeadsTo later db ∧
      (db.ledger.currencies.rows.map fun r => r.data.rate) = [2] ∧
      ∃ r ∈ t.database.ledger.entries.rows, ∃ e ∈ db.ledger.entries.rows,
        e = markedAs true r ∧ e.data.rateToFixed = 1 ∧
        ∃ shifts, t.database.ledger.sources = (s.database.ledger.shiftAll shifts).sources ∧
          db.ledger.effects e = .ok shifts := by
  intro s c t later db
  have hd : Reachable s.database := reachable_firstSpending 3
  have ho : s.inTransaction = false := by decide +kernel
  have hlater : t.database.LeadsTo later db := Database.LeadsTo.after .refl (by decide +kernel) (by
    simp [Call.Typed, Call.ids, Value.isId, Value.isNull, Value.id?])
  have hrate : (db.ledger.currencies.rows.map fun r => r.data.rate) = [2] := by decide +kernel
  have hnone : s.database.ledger.entries.rows = [] := by decide +kernel
  have hbought : ∃ r ∈ t.database.ledger.entries.rows, r.data.rateToFixed = 1 := by decide +kernel
  have harchived : ∀ e ∈ db.ledger.entries.rows, e.data.archived = true := by decide +kernel
  obtain ⟨r, hr, hfixed⟩ := hbought
  have hnew : ¬ s.database.ledger.entries.Has r.id := by
    rintro ⟨x, hx, -⟩
    rw [hnone] at hx
    cases hx
  have hkept : ∀ c' ∈ later, ¬ c'.Deletes r := by simp [later, Call.Deletes]
  clear_value db s
  obtain ⟨shifts, hsources, hstored, hstays⟩ :=
    (Reachable.snapshots_stay hd (Session.not_inBlock ho) typed_bread hlater).1 r hr hnew
  obtain ⟨e, he, hid⟩ := hstored hkept
  obtain ⟨heq, heffects⟩ := hstays e he hid
  rw [harchived e he] at heq
  refine ⟨hd, ho, typed_bread, hlater, hrate, r, hr, e, he, heq, ?_, shifts, hsources, heffects⟩
  rw [heq]
  exact hfixed

end Bookkeeping.Store
