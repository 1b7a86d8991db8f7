import Bookkeeping.Proofs.Acceptance
import Bookkeeping.Proofs.EntryAgreement

/-! # Turns in the life of an entry

An entry is archived, restored and removed. Each of these turns looks the entry up, adds the shifts
that the entry stands for to the balances, in one direction or the other, and changes the table of
entries. A turn that finds the entry in the wanted state adds nothing. Here is what a turn comes to:
either all its shifts are added, or one of them overflows and nothing is changed.
-/

namespace Bookkeeping.Store

open Number

variable {l : Ledger}

/-! ## Shifts that do not fit -/

/-- Whether the source of a shift is there and would not be left with a finite balance. -/
def Ledger.Overflows (l : Ledger) (x : Shift) : Prop :=
  ∃ r ∈ l.sources.rows, x.source = some r.id ∧ isFinite (r.data.amount + x.delta) = false

/-- A shift does not matter for the balance of another source. -/
theorem overflows_of_shift {x y : Shift} (hne : x.source ≠ y.source)
    (h : (l.shift y).Overflows x) : l.Overflows x := by
  obtain ⟨r, hr, hid, hfull⟩ := h
  obtain ⟨o, ho, rfl⟩ := Table.mem_change.1 hr
  have hother : ¬ (y.source == some o.id) = true := by
    intro hy
    refine hne ?_
    rw [if_pos hy] at hid
    exact hid.trans (beq_iff_eq.1 hy).symm
  rw [if_neg hother] at hid hfull
  exact ⟨o, ho, hid, hfull⟩

end Bookkeeping.Store

namespace Bookkeeping.Service

open Store Number Op

variable {s t : Session} {user id : Value} {r : Row StoredEntry} {a : Row Entry}
  {shifts : List Shift}

/-- Shifts of different sources are borne if none of them overflows. -/
theorem bears_iff_overflows {l : Ledger} (hn : (shifts.map Shift.source).Nodup) :
    l.Bears shifts ↔ ∀ x ∈ shifts, ¬ l.Overflows x := by
  simp only [bears_iff hn, Ledger.Overflows, not_exists, not_and, Bool.not_eq_false]

/-- Of shifts of different sources that are not all borne, one overflows, and the call fails
with it. -/
theorem exec_applyShifts_overflow (h : s.Ready) (hi : Intact s.database.ledger) {direction : Int}
    (hsources : ∀ x ∈ shifts, ∃ id, x.source = some id ∧ s.database.ledger.sources.Has id)
    (hn : (shifts.map Shift.source).Nodup)
    (hfull : ¬ s.database.ledger.Bears (shifts.map (Shift.directed direction))) :
    ∃ x ∈ shifts.map (Shift.directed direction), s.database.ledger.Overflows x ∧
      ∃ t, (applyShifts direction shifts).exec s
        = (.error (.rejected (.overflow (Value.ofInt? x.source) (.float x.delta))), t) := by
  induction shifts generalizing s with
  | nil => exact absurd trivial hfull
  | cons x rest ih =>
    obtain ⟨hx, hrest⟩ := List.nodup_cons.1 hn
    obtain ⟨_, hid, r, hr, rfl⟩ := hsources x List.mem_cons_self
    cases hfinite : isFinite (r.data.amount + (x.directed direction).delta) with
    | false =>
      have hrun := exec_applyDelta_overflow (x := x.directed direction) h hi hr hid hfinite
      refine ⟨x.directed direction, List.mem_cons_self, ⟨r, hr, hid, hfinite⟩, s, ?_⟩
      rw [applyShifts]
      exact exec_bind_error hrun
    | true =>
      -- the first shift is applied, so one of the others overflows
      have hrun := exec_applyDelta (x := x.directed direction) h hi.sources.tidy hr hid hfinite
      have hone : ∀ y ∈ s.database.ledger.sources.rows, (x.directed direction).source = some y.id →
          isFinite (y.data.amount + (x.directed direction).delta) = true := fun y hy hyid => by
        rw [hi.sources.tidy.eq_of_id hy hr (Option.some.inj (hyid.symm.trans hid))]
        exact hfinite
      obtain ⟨y, hy, hover, t, ht⟩ := ih (h.put (s.database.ledger.shift (x.directed direction)))
        (hi.shift hone) (fun y hy => by
          obtain ⟨id, hyid, hhas⟩ := hsources y (List.mem_cons_of_mem x hy)
          exact ⟨id, hyid, hhas.change fun _ => rfl⟩) hrest fun hb => hfull ⟨hone, hb⟩
      have hne : y.source ≠ (x.directed direction).source := by
        obtain ⟨z, hz, rfl⟩ := List.mem_map.1 hy
        exact fun heq => hx (List.mem_map.2 ⟨z, hz, heq⟩)
      refine ⟨y, List.mem_cons_of_mem _ hy, overflows_of_shift hne hover, t, ?_⟩
      rw [applyShifts]
      exact (exec_bind_ok hrun).trans ht

/-- The sources of an entry's shifts differ. -/
theorem nodup_effects {l : Ledger} (hf : Filed l r) (ho : r.odd = [])
    (he : l.effects r = .ok shifts) : (shifts.map Shift.source).Nodup := by
  obtain ⟨a, ha⟩ := hf.readable
  rw [effects_of_toEntry ha] at he
  obtain ⟨date, createdAt, -, -, -, -, -, rfl⟩ := (StoredEntry.toEntry_ok ho).1 ha
  rcases shifts_cases he with ⟨d, rfl⟩ | ⟨hk, d, d', rfl⟩
  · exact List.nodup_singleton _
  · obtain ⟨n, hn, hne⟩ := hf.apart hk
    have hsources : some r.data.source ≠ r.data.secondary := fun h =>
      hne (Option.some.inj (h.trans hn)).symm
    simpa [StoredEntry.dated] using hsources

/-! ## Turns -/

/-- A turn in the life of an entry: it is archived or restored, or it is removed. -/
inductive Turn where
  | mark (archived : Bool)
  | remove

namespace Turn

/-- The call for a turn. -/
def call (user id : Value) : Turn → Call
  | mark true => .archiveEntry user id
  | mark false => .restoreEntry user id
  | remove => .deleteEntry user id

/-- The effect of an entry as a turn takes it: as it is to restore the entry, and else reversed. -/
def effect (shifts : List Shift) : Turn → List Shift
  | mark false => shifts
  | _ => shifts.map (Shift.directed (-1))

/-- Whether a turn finds an entry in the wanted state, so that balances stay as they are. An entry
is removed from balances once, so this is so for an archived entry that is removed. -/
def idle (r : Row StoredEntry) : Turn → Bool
  | mark archived => r.data.archived == archived
  | remove => r.data.archived

/-- The shifts that a turn adds to the balances. -/
def adds (turn : Turn) (r : Row StoredEntry) (shifts : List Shift) : List Shift :=
  if turn.idle r then [] else turn.effect shifts

/-- The entries after a turn of one of them. -/
def entries (t : Table StoredEntry) (r : Row StoredEntry) : Turn → Table StoredEntry
  | mark archived => if r.data.archived == archived then t else t.replace r.id (markedAs archived r)
  | remove => t.erase fun e => e.id == r.id

/-- The ledger after a turn. -/
def applied (turn : Turn) (l : Ledger) (r : Row StoredEntry) (shifts : List Shift) : Ledger :=
  { l.shiftAll (turn.adds r shifts) with entries := turn.entries l.entries r }

/-- What a turn answers: the entry as it is then, or nothing if it was removed. -/
def Answers (r : Row StoredEntry) : Turn → Answer → Prop
  | mark archived, x => ∃ b, StoredEntry.toEntry .full (markedAs archived r) = .ok b ∧
      x = .entry (some b)
  | remove, x => x = .nothing

end Turn

/-! ## Running a turn -/

section

variable (h : s.Ready) (hi : Intact s.database.ledger) (hr : r ∈ s.database.ledger.entries.rows)
  (hid : id.id? = some r.id)

include h hi hr hid

/-- An entry of a user is found. -/
theorem exec_getEntry (huid : user.id? = some r.data.owner)
    (ha : StoredEntry.toEntry .full r = .ok a) : (getEntry user id).exec s = (.ok a, s) :=
  exec_loadOwned (ρ := StoredEntry) h hi.entries "entry_id" hr hid huid
    ((hi.filed r hr).owner.fits hi.users) ha fun hactive => by cases hactive

/-- The row of an entry is marked. -/
theorem exec_setArchived (archived : Bool) :
    (setArchived StoredEntry id (.bool archived)).exec s = (.ok true, s.put
      { s.database.ledger with
        entries := s.database.ledger.entries.replace r.id (markedAs archived r) }) := by
  have hwhole : (Op.lift (whole (.bool archived))).exec s = (.ok (if archived then 1 else 0), s) :=
    rfl
  rw [setArchived, exec_bind_ok hwhole]
  exact exec_update (ρ := StoredEntry) h hi hr hid (by simp) rfl (paramFields_archived archived)
    (assign_marked archived (hi.entries.proper r hr)) (hi.markEntry hr archived)

/-- The row of an entry is removed. -/
theorem exec_deleteEntryRow : (Store.delete StoredEntry id).exec s = (.ok true, s.put
    { s.database.ledger with
      entries := s.database.ledger.entries.erase fun e => e.id == r.id }) :=
  exec_delete (ρ := StoredEntry) h hi hr hid (intact_eraseEntries hi _)

end

/-- The shifts of an entry are worked out and added in a direction: all of them, or one of them
overflows. -/
theorem exec_addShifts (h : s.Ready) (hi : Intact s.database.ledger)
    (hf : Filed s.database.ledger r) (ho : r.odd = []) (ha : StoredEntry.toEntry .full r = .ok a)
    (he : s.database.ledger.effects r = .ok shifts) (direction : Int) {α : Type} (f : Unit → Op α) :
    (s.database.ledger.Bears (shifts.map (Shift.directed direction)) ∧
      (do let shifts ← shiftsOf a.data; applyShifts direction shifts; f ()).exec s
        = (f ()).exec (s.put
            (s.database.ledger.shiftAll (shifts.map (Shift.directed direction))))) ∨
    ∃ x ∈ shifts.map (Shift.directed direction), s.database.ledger.Overflows x ∧ ∃ t,
      (do let shifts ← shiftsOf a.data; applyShifts direction shifts; f ()).exec s
        = (.error (.rejected (.overflow (Value.ofInt? x.source) (.float x.delta))), t) := by
  obtain ⟨found, hfound, hrun⟩ := exec_shiftsOf h hi hf ho ha
  obtain rfl : shifts = found := Except.ok.inj (he.symm.trans hfound)
  have hsources : ∀ x ∈ shifts, ∃ id, x.source = some id ∧ s.database.ledger.sources.Has id :=
    fun x hx => by
      obtain ⟨p, hp, hid, -⟩ := shifted_owner hf ho he x hx
      exact ⟨p.id, hid, p, hp, rfl⟩
  rw [exec_bind_ok hrun]
  by_cases hb : s.database.ledger.Bears (shifts.map (Shift.directed direction))
  · exact .inl ⟨hb, exec_bind_ok (exec_applyShifts h hi.sources.tidy hsources hb)⟩
  · obtain ⟨x, hx, hover, t, ht⟩ :=
      exec_applyShifts_overflow h hi hsources (nodup_effects hf ho he) hb
    exact .inr ⟨x, hx, hover, t, exec_bind_error ht⟩

/-- The row that an entry has after it was marked. -/
theorem mem_marked (archived : Bool) {t : Table StoredEntry} (hr : r ∈ t.rows) :
    markedAs archived r ∈ (t.replace r.id (markedAs archived r)).rows :=
  (Table.mem_replace (r := markedAs archived r)).2 (.inl ⟨rfl, r, hr, rfl⟩)

theorem markedAs_self {archived : Bool} (ho : r.odd = []) (h : r.data.archived = archived) :
    markedAs archived r = r := by
  obtain ⟨n, e, odd⟩ := r
  cases h
  cases ho
  rfl

/-! ### Within the transaction -/

/-- What is done to archive or restore an entry. -/
def turnOver (archived : Bool) (user id : Value) :
    Op (Row Entry × Option (Option (Row Entry))) := do
  let e ← getEntry user id
  if e.data.archived == archived then pure (e, none)
  else
    let _ ← setArchived StoredEntry id (.bool archived)
    let shifts ← shiftsOf e.data
    applyShifts (if archived then -1 else 1) shifts
    let after ← find StoredEntry id
    pure (e, some after)

/-- What is done to remove an entry. -/
def takeOut (user id : Value) : Op Unit := do
  let e ← getEntry user id
  if !e.data.archived then
    let shifts ← shiftsOf e.data
    applyShifts (-1) shifts
  let _ ← Store.delete StoredEntry id

theorem deleteEntry_eq (user id : Value) : deleteEntry user id = logged "delete_entry" (do
    transaction (takeOut user id)
    emit .info .entries "Entry deleted" [("user_id", user), ("entry_id", id)]) := rfl

section

variable (h : s.Ready) (hi : Intact s.database.ledger) (hr : r ∈ s.database.ledger.entries.rows)
  (hid : id.id? = some r.id) (huid : user.id? = some r.data.owner)
  (ha : StoredEntry.toEntry .full r = .ok a)

include h hi hr hid huid ha

/-- An entry that is in the wanted state already is given as it is. -/
theorem exec_turnOver_same {archived : Bool} (hsame : r.data.archived = archived) :
    (turnOver archived user id).exec s = (.ok (a, none), s) := by
  have hflag : (a.data.archived == archived) = true := by
    rw [archived_of_toEntry (hi.entries.proper r hr) ha, hsame, beq_self_eq_true]
  rw [turnOver, exec_bind_ok (exec_getEntry h hi hr hid huid ha), if_pos hflag, exec_pure]

/-- The row of an archived entry is removed. -/
theorem exec_takeOut_archived (harch : r.data.archived = true) :
    (takeOut user id).exec s = (.ok (), s.put { s.database.ledger with
      entries := s.database.ledger.entries.erase fun e => e.id == r.id }) := by
  have hflag := archived_of_toEntry (hi.entries.proper r hr) ha
  rw [takeOut, exec_bind_ok (exec_getEntry h hi hr hid huid ha), if_neg (by simp [hflag, harch]),
    exec_bind_ok (exec_deleteEntryRow h hi hr hid), exec_pure]

variable (he : s.database.ledger.effects r = .ok shifts)

include he

/-- An entry that is in the other state is marked and its shifts are added. -/
theorem exec_turnOver_other {archived : Bool} (hother : r.data.archived = !archived)
    {direction : Int} (hdirection : (if archived then -1 else 1) = direction) :
    (s.database.ledger.Bears (shifts.map (Shift.directed direction)) ∧
      ∃ b, StoredEntry.toEntry .full (markedAs archived r) = .ok b ∧
        (turnOver archived user id).exec s = (.ok (a, some (some b)), s.put
          { s.database.ledger.shiftAll (shifts.map (Shift.directed direction)) with
            entries := s.database.ledger.entries.replace r.id (markedAs archived r) })) ∨
    ∃ x ∈ shifts.map (Shift.directed direction), s.database.ledger.Overflows x ∧ ∃ t,
      (turnOver archived user id).exec s
        = (.error (.rejected (.overflow (Value.ofInt? x.source) (.float x.delta))), t) := by
  have hf := hi.filed r hr
  have ho := hi.entries.proper r hr
  have hflag : (a.data.archived == archived) = false := by
    rw [archived_of_toEntry ho ha, hother]
    cases archived <;> rfl
  let marked : Table StoredEntry := s.database.ledger.entries.replace r.id (markedAs archived r)
  have hmarked : Intact { s.database.ledger with entries := marked } := hi.markEntry hr archived
  rw [turnOver, exec_bind_ok (exec_getEntry h hi hr hid huid ha), if_neg (by simp [hflag]),
    exec_bind_ok (exec_setArchived h hi hr hid archived), hdirection]
  rcases exec_addShifts (s := s.put { s.database.ledger with entries := marked }) (h.put _) hmarked
    { hf with } ho ha he direction (fun _ => do
      let after ← find StoredEntry id
      pure (a, some after)) with ⟨hb, hrun⟩ | ⟨x, hx, ⟨p, hp, hover⟩, t, hrun⟩
  · have hb : s.database.ledger.Bears (shifts.map (Shift.directed direction)) :=
      (bears_withEntries marked).1 hb
    have hleft : Intact { s.database.ledger.shiftAll (shifts.map (Shift.directed direction)) with
        entries := marked } := by
      rw [← shiftAll_withEntries]
      exact hmarked.shiftAll ((bears_withEntries marked).2 hb)
    obtain ⟨b, hread⟩ := (hf.markedAs ho archived).readable
    have hfind : (find StoredEntry id).exec (s.put { s.database.ledger.shiftAll
          (shifts.map (Shift.directed direction)) with entries := marked })
        = (.ok (some b), s.put { s.database.ledger.shiftAll
            (shifts.map (Shift.directed direction)) with entries := marked }) := by
      have hdecode : Persistent.decode .full (markedAs archived r) = .ok b := hread
      rw [exec_find (ρ := StoredEntry) (r := markedAs archived r) (h.put _) hleft
        (mem_marked archived hr) hid, hdecode]
      rfl
    rw [Session.ledger_put, shiftAll_withEntries] at hrun
    exact .inl ⟨hb, b, hread, hrun.trans (exec_bind_ok hfind)⟩
  · exact .inr ⟨x, hx, ⟨p, hp, hover⟩, t, hrun⟩

/-- The shifts of an active entry are undone and its row is removed. -/
theorem exec_takeOut_active (hactive : r.data.archived = false) :
    (s.database.ledger.Bears (shifts.map (Shift.directed (-1))) ∧
      (takeOut user id).exec s = (.ok (), s.put
        { s.database.ledger.shiftAll (shifts.map (Shift.directed (-1))) with
          entries := s.database.ledger.entries.erase fun e => e.id == r.id })) ∨
    ∃ x ∈ shifts.map (Shift.directed (-1)), s.database.ledger.Overflows x ∧ ∃ t,
      (takeOut user id).exec s
        = (.error (.rejected (.overflow (Value.ofInt? x.source) (.float x.delta))), t) := by
  have hflag := archived_of_toEntry (hi.entries.proper r hr) ha
  rw [takeOut, exec_bind_ok (exec_getEntry h hi hr hid huid ha), if_pos (by simp [hflag, hactive])]
  rcases exec_addShifts h hi (hi.filed r hr) (hi.entries.proper r hr) ha he (-1) (fun _ => do
      let _ ← Store.delete StoredEntry id) with ⟨hb, hrun⟩ | ⟨x, hx, hover, t, hrun⟩
  · have hmem : r ∈ (s.database.ledger.shiftAll
        (shifts.map (Shift.directed (-1)))).entries.rows := by rwa [entries_shiftAll]
    have hrow := exec_deleteEntryRow (s := s.put (s.database.ledger.shiftAll
      (shifts.map (Shift.directed (-1))))) (h.put _) (hi.shiftAll hb) hmem hid
    rw [Session.ledger_put, entries_shiftAll] at hrow
    exact .inl ⟨hb, hrun.trans (exec_bind_ok hrow)⟩
  · exact .inr ⟨x, hx, hover, t, hrun⟩

end

/-! ### As a call -/

/-- A turn that is idle leaves the balances as they are. -/
theorem applied_of_idle {turn : Turn} (hidle : turn.idle r = true) (l : Ledger)
    (shifts : List Shift) :
    turn.applied l r shifts = { l with entries := turn.entries l.entries r } := by
  rw [Turn.applied, Turn.adds, if_pos hidle]
  rfl

theorem entries_of_marked {archived : Bool} (hsame : r.data.archived = archived)
    (t : Table StoredEntry) : (Turn.mark archived).entries t r = t := by
  rw [Turn.entries, hsame, beq_self_eq_true, if_pos rfl]

/-- Nothing becomes of an entry that is marked as it is. -/
theorem applied_of_marked {archived : Bool} (hsame : r.data.archived = archived) (l : Ledger)
    (shifts : List Shift) : (Turn.mark archived).applied l r shifts = l := by
  have hidle : (Turn.mark archived).idle r = true := by rw [Turn.idle, hsame, beq_self_eq_true]
  rw [applied_of_idle hidle, entries_of_marked hsame]

/-- What becomes of a turn: all its shifts are added and the entries are changed, or one of the
shifts overflows and nothing is changed. -/
def Turn.Comes (turn : Turn) (s : Session) (user id : Value) (r : Row StoredEntry)
    (shifts : List Shift) : Prop :=
  (s.database.ledger.Bears (turn.adds r shifts) ∧
    ∃ a t, (turn.call user id).run.exec s = (.ok a, t) ∧ turn.Answers r a ∧ t.Idle ∧
      t.database = s.database.withLedger (turn.applied s.database.ledger r shifts)) ∨
  ∃ x ∈ turn.adds r shifts, s.database.ledger.Overflows x ∧ ∃ t,
    (turn.call user id).run.exec s
      = (.error (.rejected (.overflow (Value.ofInt? x.source) (.float x.delta))), t) ∧
    t.database = s.database

/-- The call that archives or restores an entry. -/
theorem run_mark (archived : Bool) (user id : Value) : ∃ operation event,
    ((Turn.mark archived).call user id).run = Answer.entry <$> logged operation (do
      match ← transaction (turnOver archived user id) with
      | (e, none) => pure (some e)
      | (_, some after) =>
        emit .info .entries event [("user_id", user), ("entry_id", id)]
        pure after) := by
  cases archived
  · exact ⟨"restore_entry", "Entry restored", rfl⟩
  · exact ⟨"archive_entry", "Entry archived", rfl⟩

section

variable (hs : s.Idle)

include hs

/-- A turn that overflows leaves the database as it was, like every call that fails. -/
theorem Turn.database_of_error (turn : Turn) {e : Failure} {t : Session}
    (hx : (turn.call user id).run.exec s = (.error e, t)) : t.database = s.database := by
  have hd := ((turn.call user id).atomic s hs.not_inBlock).2 e (by rw [hx])
  rwa [hx] at hd

variable (hi : Intact s.database.ledger) (hr : r ∈ s.database.ledger.entries.rows)
  (hid : id.id? = some r.id) (huid : user.id? = some r.data.owner)
  (he : s.database.ledger.effects r = .ok shifts)

include hi hr hid huid he

theorem comes_mark (archived : Bool) : (Turn.mark archived).Comes s user id r shifts := by
  have ho := hi.entries.proper r hr
  obtain ⟨a, ha⟩ := (hi.filed r hr).readable
  obtain ⟨operation, event, hcall⟩ := run_mark archived user id
  rw [Turn.Comes, hcall]
  by_cases hsame : r.data.archived = archived
  · have hadds : (Turn.mark archived).adds r shifts = [] := by
      rw [Turn.adds, Turn.idle, hsame, beq_self_eq_true, if_pos rfl]
    have hbody := exec_turnOver_same (s := s.start) hs.ready hi hr hid huid ha hsame
    rw [hadds, applied_of_marked hsame, exec_map, exec_logged,
      exec_bind_ok (hs.exec_transaction (l := s.database.ledger) hbody)]
    exact .inl ⟨trivial, .entry (some a), _, rfl, ⟨a, (markedAs_self ho hsame).symm ▸ ha, rfl⟩,
      hs.ready.idle, rfl⟩
  · have hadds : (Turn.mark archived).adds r shifts
        = shifts.map (Shift.directed (if archived then -1 else 1)) := by
      rw [Turn.adds, Turn.idle, if_neg (by simpa using hsame)]
      cases archived
      · exact (map_directed_one shifts).symm
      · rfl
    have hentries (t : Table StoredEntry) :
        (Turn.mark archived).entries t r = t.replace r.id (markedAs archived r) := by
      rw [Turn.entries, if_neg (by simpa using hsame)]
    have hother : r.data.archived = !archived := by
      cases archived <;> simpa using hsame
    rw [Turn.applied, hentries, hadds]
    rcases exec_turnOver_other (s := s.start) hs.ready hi hr hid huid ha he hother rfl with
      ⟨hb, b, hread, hbody⟩ | ⟨x, hx, hover, t, hbody⟩
    · rw [exec_map, exec_logged, exec_bind_ok (hs.exec_transaction hbody)]
      exact .inl ⟨hb, .entry (some b), _, rfl, ⟨b, hread, rfl⟩, { (hs.ready.put _).idle with }, rfl⟩
    · obtain ⟨u, hrun⟩ : ∃ u, ((Turn.mark archived).call user id).run.exec s
          = (.error (.rejected (.overflow (Value.ofInt? x.source) (.float x.delta))), u) := by
        rw [hcall, exec_map, exec_logged,
          exec_bind_error (exec_transaction_error hs.not_inBlock hs.breaks hbody)]
        exact ⟨_, rfl⟩
      rw [← hcall]
      exact .inr ⟨x, hx, hover, u, hrun, Turn.database_of_error hs _ hrun⟩

theorem comes_remove : Turn.remove.Comes s user id r shifts := by
  obtain ⟨a, ha⟩ := (hi.filed r hr).readable
  have hcall : (Turn.remove.call user id).run
      = (fun _ => Answer.nothing) <$> deleteEntry user id := rfl
  rw [Turn.Comes, hcall, deleteEntry_eq, Turn.applied, Turn.entries]
  cases harch : r.data.archived with
  | true =>
    have hadds : Turn.remove.adds r shifts = [] := by rw [Turn.adds, Turn.idle, harch, if_pos rfl]
    have hbody := exec_takeOut_archived (s := s.start) hs.ready hi hr hid huid ha harch
    rw [hadds, exec_map, exec_logged, exec_bind_ok (hs.exec_transaction hbody)]
    exact .inl ⟨trivial, .nothing, _, rfl, rfl, { (hs.ready.put _).idle with }, rfl⟩
  | false =>
    have hadds : Turn.remove.adds r shifts = shifts.map (Shift.directed (-1)) := by
      rw [Turn.adds, Turn.idle, harch, if_neg (by simp)]
      rfl
    rw [hadds]
    rcases exec_takeOut_active (s := s.start) hs.ready hi hr hid huid ha he harch with
      ⟨hb, hbody⟩ | ⟨x, hx, hover, t, hbody⟩
    · rw [exec_map, exec_logged, exec_bind_ok (hs.exec_transaction hbody)]
      exact .inl ⟨hb, .nothing, _, rfl, rfl, { (hs.ready.put _).idle with }, rfl⟩
    · obtain ⟨u, hrun⟩ : ∃ u, (Turn.remove.call user id).run.exec s
          = (.error (.rejected (.overflow (Value.ofInt? x.source) (.float x.delta))), u) := by
        rw [hcall, deleteEntry_eq, exec_map, exec_logged,
          exec_bind_error (exec_transaction_error hs.not_inBlock hs.breaks hbody)]
        exact ⟨_, rfl⟩
      rw [← deleteEntry_eq, ← hcall]
      exact .inr ⟨x, hx, hover, u, hrun, Turn.database_of_error hs _ hrun⟩

/-- A turn comes to its shifts and its change of the entries, or fails with an overflow. -/
theorem comes (turn : Turn) : turn.Comes s user id r shifts := by
  cases turn with
  | mark archived => exact comes_mark hs hi hr hid huid he archived
  | remove => exact comes_remove hs hi hr hid huid he

end

end Bookkeeping.Service
