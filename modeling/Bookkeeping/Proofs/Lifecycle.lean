import Bookkeeping.Proofs.Departure
import Bookkeeping.Proofs.Refusals
import Bookkeeping.Proofs.Turns

/-! # The life of an entry

Archiving, restoring and removing an entry ask nothing of the rows that its shifts are worked out
from. That these rows are there follows from how entries are recorded and how rows are removed, so
the calls can fail in two ways only. And since an archived entry contributes nothing, an entry may
as well be archived before it is removed.
-/

namespace Bookkeeping.Store

variable {s t : Session} {l : Ledger}

/-! ## What an entry relies on -/

theorem tidy_shiftAll (ht : l.sources.Tidy) (shifts : List Shift) :
    (l.shiftAll shifts).sources.Tidy := by
  induction shifts generalizing l with
  | nil => exact ht
  | cons x rest ih => exact ih (tidy_shift ht x)

theorem has_shiftAll {id : Int} (h : l.sources.Has id) (shifts : List Shift) :
    (l.shiftAll shifts).sources.Has id := by
  induction shifts generalizing l with
  | nil => exact h
  | cons x rest ih => exact ih (h.change fun _ => rfl)

/-- What is behind an entry: its shifts can be worked out, its source is there, its rate and its
second source are where the shifts need them, and so is the source of every shift. -/
structure Ledger.Backs (l : Ledger) (r : Row StoredEntry) (shifts : List Shift) : Prop where
  effects : l.effects r = .ok shifts
  primary : l.sources.Owns r.data.owner r.data.source
  rate : r.data.kind.isTransfer = true ∨ l.currencyOf r.data.source ≠ some r.data.currency →
    r.data.rate.isSome = true
  second : r.data.kind.isTransfer = true →
    ∃ m, r.data.secondary = some m ∧ l.sources.Owns r.data.owner m
  found : ∀ x ∈ shifts, ∃ m, x.source = some m ∧ l.sources.Owns r.data.owner m

/-- A shift is not passed over where its source is there. -/
theorem applyDelta_found (h : s.Ready) (ht : s.database.ledger.sources.Tidy) {x : Shift} {id : Int}
    {moved : Bool} (hsource : x.source = some id) (hid : s.database.ledger.sources.Has id)
    (hx : (applyDelta (Value.ofInt? x.source) (.float x.delta)).exec s = (.ok moved, t)) :
    moved = true := by
  obtain ⟨r, hr, rfl⟩ := hid
  obtain ⟨hbears, -⟩ := applyDelta_ok h ht hx
  rw [exec_applyDelta h ht hr hsource (hbears r hr hsource)] at hx
  cases hx
  rfl

end Bookkeeping.Store

namespace Bookkeeping.Service

open Store Number Op

variable {s t : Session} {user id : Value} {r : Row StoredEntry} {shifts : List Shift}

/-! ## How a turn ends -/

/-- Everything that an entry relies on is there. -/
theorem backs_of_intact {l : Ledger} (hi : Intact l) (hr : r ∈ l.entries.rows) :
    ∃ shifts, l.Backs r shifts := by
  have hf := hi.filed r hr
  have ho := hi.entries.proper r hr
  obtain ⟨shifts, he⟩ := hf.effects
  refine ⟨shifts, he, hf.source, rate_of_effects ho he, fun hk => ?_, fun x hx => ?_⟩
  · obtain ⟨m, hm, -⟩ := hf.apart hk
    exact ⟨m, hm, hf.secondary m hm⟩
  · obtain ⟨p, hp, hid, hown⟩ := shifted_owner hf ho he x hx
    exact ⟨p.id, hid, p, hp, rfl, hown⟩

theorem sources_effect (turn : Turn) (shifts : List Shift) :
    (turn.effect shifts).map Shift.source = shifts.map Shift.source := by
  have hreversed : (shifts.map (Shift.directed (-1))).map Shift.source
      = shifts.map Shift.source := by
    rw [List.map_map]
    rfl
  rcases turn with (_ | _) | _
  · rfl
  · exact hreversed
  · exact hreversed

theorem mem_effect_of_mem_adds {turn : Turn} {x : Shift} (hx : x ∈ turn.adds r shifts) :
    turn.idle r = false ∧ x ∈ turn.effect shifts := by
  cases hidle : turn.idle r with
  | true =>
    rw [Turn.adds, if_pos hidle] at hx
    cases hx
  | false =>
    rw [Turn.adds, if_neg (by simp [hidle])] at hx
    exact ⟨rfl, hx⟩

/-- A shift that a turn adds is one of a source that is there. -/
theorem source_of_mem_adds {l : Ledger} (hb : l.Backs r shifts) {turn : Turn} {x : Shift}
    (hx : x ∈ turn.adds r shifts) : ∃ m, x.source = some m ∧ l.sources.Owns r.data.owner m := by
  have hsource : x.source ∈ shifts.map Shift.source := by
    rw [← sources_effect turn]
    exact List.mem_map_of_mem (mem_effect_of_mem_adds hx).2
  obtain ⟨y, hy, hyx⟩ := List.mem_map.1 hsource
  rw [← hyx]
  exact hb.found y hy

/-- Whether the effect of an entry, as a turn takes it, is too much for one of its sources. -/
def Turn.Strains (turn : Turn) (l : Ledger) (r : Row StoredEntry) : Prop :=
  ∃ shifts, l.effects r = .ok shifts ∧ ∃ x ∈ turn.effect shifts, l.Overflows x

/-- A turn that is not idle is borne if it does not strain a source. -/
theorem bears_adds_iff {l : Ledger} {turn : Turn} (hi : Intact l) (hr : r ∈ l.entries.rows)
    (he : l.effects r = .ok shifts) :
    l.Bears (turn.adds r shifts) ↔ ¬ (turn.idle r = false ∧ turn.Strains l r) := by
  have hstrains : turn.Strains l r ↔ ∃ x ∈ turn.effect shifts, l.Overflows x := by
    refine ⟨fun ⟨found, hfound, hx⟩ => ?_, fun hx => ⟨shifts, he, hx⟩⟩
    obtain rfl : shifts = found := Except.ok.inj (he.symm.trans hfound)
    exact hx
  cases hidle : turn.idle r with
  | true => simp [Turn.adds, hidle, Ledger.Bears]
  | false =>
    have hn : ((turn.effect shifts).map Shift.source).Nodup := by
      rw [sources_effect]
      exact nodup_effects (hi.filed r hr) (hi.entries.proper r hr) he
    have hadds : turn.adds r shifts = turn.effect shifts := if_neg (by simp [hidle])
    simp [hadds, bears_iff_overflows hn, hstrains]

/-- A turn succeeds if its shifts are borne. -/
theorem exec_turn {turn : Turn} (hc : turn.Comes s user id r shifts) (hi : Intact s.database.ledger)
    (hr : r ∈ s.database.ledger.entries.rows) (he : s.database.ledger.effects r = .ok shifts)
    (hb : s.database.ledger.Bears (turn.adds r shifts)) :
    ∃ a t, (turn.call user id).run.exec s = (.ok a, t) ∧ turn.Answers r a ∧ t.Idle ∧
      t.database = s.database.withLedger (turn.applied s.database.ledger r shifts) := by
  rcases hc with ⟨-, hdone⟩ | ⟨x, hx, hover, -⟩
  · exact hdone
  · obtain ⟨hidle, heffect⟩ := mem_effect_of_mem_adds hx
    exact absurd ⟨hidle, shifts, he, x, heffect, hover⟩ ((bears_adds_iff hi hr he).1 hb)

/-- A turn that is idle succeeds. -/
theorem exec_turn_idle {turn : Turn} (hs : s.Idle) (hi : Intact s.database.ledger)
    (hr : r ∈ s.database.ledger.entries.rows) (hid : id.id? = some r.id)
    (huid : user.id? = some r.data.owner) (hidle : turn.idle r = true) :
    ∃ a t, (turn.call user id).run.exec s = (.ok a, t) ∧ turn.Answers r a ∧
      t.database = s.database.withLedger
        { s.database.ledger with entries := turn.entries s.database.ledger.entries r } := by
  obtain ⟨shifts, he⟩ := (hi.filed r hr).effects
  have hb : s.database.ledger.Bears (turn.adds r shifts) := by
    rw [Turn.adds, if_pos hidle]
    trivial
  obtain ⟨a, t, hrun, ha, -, ht⟩ := exec_turn (comes hs hi hr hid huid he turn) hi hr he hb
  exact ⟨a, t, hrun, ha, by rw [ht, applied_of_idle hidle]⟩

/-- A turn succeeds only if its shifts are borne. -/
theorem isOk_turn_iff {turn : Turn} (hc : turn.Comes s user id r shifts)
    (hi : Intact s.database.ledger) (hr : r ∈ s.database.ledger.entries.rows)
    (he : s.database.ledger.effects r = .ok shifts) :
    ((turn.call user id).run.exec s).1.isOk = true ↔
      s.database.ledger.Bears (turn.adds r shifts) := by
  refine ⟨fun hok => ?_, fun hb => ?_⟩
  · rcases hc with ⟨hb, -⟩ | ⟨x, -, -, t, hrun, -⟩
    · exact hb
    · rw [hrun] at hok
      cases hok
  · obtain ⟨a, t, hrun, -⟩ := exec_turn hc hi hr he hb
    rw [hrun]
    rfl

/-- What a turn fails with if the user has no such entry. -/
def absent (user id : Value) : Failure := .rejected (.notFound "entry_id" user id)

/-- What a turn fails with if a shift overflows. -/
def excess (x : Shift) : Failure := .rejected (.overflow (Value.ofInt? x.source) (.float x.delta))

theorem excess_ne_absent (x : Shift) (user id : Value) : excess x ≠ absent user id := by
  intro h
  have hkind : RejectionKind.check = .notFound :=
    congrArg Rejection.kind (Failure.rejected.inj h)
  cases hkind

/-- A turn starts by looking up the entry. -/
theorem fails_turn (hs : s.Idle) {e : Failure}
    (h : (Service.getEntry user id).Fails s.start e) (turn : Turn) :
    (turn.call user id).run.Fails s e := by
  cases turn with
  | mark archived =>
    obtain ⟨operation, event, hcall⟩ := run_mark archived user id
    rw [hcall]
    exact .map (.logged (.bind (.transaction hs.not_inBlock hs.breaks (h.bind _)) _) _) _
  | remove => exact .map (.logged (.bind (.transaction hs.not_inBlock hs.breaks (h.bind _)) _) _) _

/-- A turn of an entry that is not there, or not the user's. -/
theorem exec_turn_absent (hs : s.Idle) (hi : Intact s.database.ledger) {u n : Int}
    (huid : user.id? = some u) (hid : id.id? = some n) (hu : fitsInteger u = true)
    (hn : fitsInteger n = true) (hnone : ¬ s.database.ledger.entries.Owns u n) (turn : Turn) :
    ∃ t, (turn.call user id).run.exec s = (.error (absent user id), t) ∧
      t.database = s.database := by
  have hget := fails_loadOwned (ρ := StoredEntry) (s := s.start) hs.ready.breaks hs.layout
    hi.entries huid hu hid hnone "entry_id" false
  rw [unresolved, if_pos hn] at hget
  obtain ⟨t, ht, hd, -⟩ := fails_turn hs hget turn
  exact ⟨t, ht, hd⟩

/-- Archiving, restoring and removing an entry succeed, or fail for one of two reasons and then
change nothing. Either the entry is not there or not the user's; or it is in the other state than
the wanted one, and its effect, reversed unless it is restored, is too much for one of its sources.
What an entry relies on is always there, and when a shift is applied its source is found. -/
theorem Call.turn_closed (hd : Reachable s.database) (ho : s.inTransaction = false)
    (hfuse : s.fuse = none) (hbreaks : s.breaks = none) {u n : Int} (huid : user.id? = some u)
    (hid : id.id? = some n) (hu : fitsInteger u = true) (hn : fitsInteger n = true) (turn : Turn) :
    ∃ outcome t, (turn.call user id).run.exec s = (outcome, t) ∧
      ((∃ a, outcome = .ok a) ∨ t.database = s.database ∧
        (outcome = .error (absent user id) ∨
          ∃ x, s.database.ledger.Overflows x ∧ outcome = .error (excess x))) ∧
      (outcome = .error (absent user id) ↔ ¬ s.database.ledger.entries.Owns u n) ∧
      ((∃ x, outcome = .error (excess x)) ↔ ∃ r ∈ s.database.ledger.entries.rows, r.id = n ∧
        r.data.owner = u ∧ turn.idle r = false ∧ turn.Strains s.database.ledger r) ∧
      ∀ r ∈ s.database.ledger.entries.rows, r.id = n → r.data.owner = u →
        ∃ shifts, s.database.ledger.Backs r shifts ∧
          ∀ before x after, turn.adds r shifts = before ++ x :: after →
            ∀ v w moved, v.Ready →
              v.database.ledger.sources = (s.database.ledger.shiftAll before).sources →
              (applyDelta (Value.ofInt? x.source) (.float x.delta)).exec v = (.ok moved, w) →
              moved = true := by
  obtain ⟨hlayout, hi⟩ := hd.intact
  have hs : s.Idle := ⟨ho, hlayout, hfuse, hbreaks⟩
  have hbacked : ∀ r ∈ s.database.ledger.entries.rows, r.id = n → r.data.owner = u →
      ∃ shifts, s.database.ledger.Backs r shifts ∧
        ∀ before x after, turn.adds r shifts = before ++ x :: after →
          ∀ v w moved, v.Ready →
            v.database.ledger.sources = (s.database.ledger.shiftAll before).sources →
            (applyDelta (Value.ofInt? x.source) (.float x.delta)).exec v = (.ok moved, w) →
            moved = true := by
    intro r hr _ _
    obtain ⟨shifts, hb⟩ := backs_of_intact hi hr
    refine ⟨shifts, hb, fun before x after hadds v w moved hv hsources hx => ?_⟩
    have hmem : x ∈ turn.adds r shifts := by simp [hadds]
    obtain ⟨m, hm, howns⟩ := source_of_mem_adds hb hmem
    exact applyDelta_found hv (hsources ▸ tidy_shiftAll hi.sources.tidy before) hm
      (hsources ▸ has_shiftAll howns.has before) hx
  by_cases howns : s.database.ledger.entries.Owns u n
  · have hthere := howns
    obtain ⟨r, hr, rfl, rfl⟩ := howns
    obtain ⟨shifts, he⟩ := (hi.filed r hr).effects
    -- the entry is the only one of its id
    have hstrains : (∃ x ∈ s.database.ledger.entries.rows, x.id = r.id ∧
        x.data.owner = r.data.owner ∧ turn.idle x = false ∧ turn.Strains s.database.ledger x) ↔
          ¬ s.database.ledger.Bears (turn.adds r shifts) := by
      rw [bears_adds_iff hi hr he, not_not]
      refine ⟨fun ⟨x, hx, hxr, _, hidle, hstrains⟩ => ?_,
        fun ⟨hidle, hstrains⟩ => ⟨r, hr, rfl, rfl, hidle, hstrains⟩⟩
      obtain rfl := hi.entries.eq_of_id hx hr hxr
      exact ⟨hidle, hstrains⟩
    rcases comes hs hi hr hid huid he turn with
      ⟨hb, a, t, hrun, -, -, -⟩ | ⟨x, hx, hover, t, hrun, ht⟩
    · exact ⟨_, t, hrun, .inl ⟨a, rfl⟩, by simp [hthere],
        Iff.trans (by simp [hb]) hstrains.symm, hbacked⟩
    · have hfull : ¬ s.database.ledger.Bears (turn.adds r shifts) := by
        obtain ⟨hidle, heffect⟩ := mem_effect_of_mem_adds hx
        rw [bears_adds_iff hi hr he, not_not]
        exact ⟨hidle, shifts, he, x, heffect, hover⟩
      have hother : (.error (excess x) : Except Failure Answer) ≠ .error (absent user id) :=
        fun h => excess_ne_absent x user id (Except.error.inj h)
      exact ⟨_, t, hrun, .inr ⟨ht, .inr ⟨x, hover, rfl⟩⟩, iff_of_false hother (not_not.2 hthere),
        (iff_of_true ⟨x, rfl⟩ hfull).trans hstrains.symm, hbacked⟩
  · obtain ⟨t, hrun, ht⟩ := exec_turn_absent hs hi huid hid hu hn howns turn
    refine ⟨_, t, hrun, .inr ⟨ht, .inl rfl⟩, by simp [howns], ?_, hbacked⟩
    refine ⟨fun ⟨x, hx⟩ => absurd (Except.error.inj hx).symm (excess_ne_absent x user id),
      fun ⟨r, hr, hrid, hown, _⟩ => absurd ⟨r, hr, hrid, hown⟩ howns⟩

/-- An income that is nearly as much as a balance can be. -/
def fortune : Call :=
  .createEntry (.int 1) (some { bread with kind := .text "income", amount := .float 1e308 }) []

/-- The calls up to a source that holds nearly as much as it can. -/
def fullPurse : List Call :=
  [registration, .createCategory (.int 1) (.text "Salary"),
    .createSource (.int 1) (.text "Cash") (.int 1) (.float 0), fortune]

/-- The same once the entry was archived and another one has taken its place. -/
def refilledPurse : List Call := fullPurse ++ [.archiveEntry (.int 1) (.int 1), fortune]

theorem typed_refilledPurse : ∀ c ∈ refilledPurse, c.Typed := by
  simp [refilledPurse, fullPurse, fortune, registration, bread, Call.Typed, Call.ids,
    EntryRequest.ids, Value.isId, Value.isNull, Value.id?]

/-- An archived income cannot be restored once another one has taken its place. -/
theorem restoreEntry_on_refilledPurse :
    let s := newSession.after refilledPurse
    ∃ x t, (Call.restoreEntry (.int 1) (.int 1)).run.exec s = (.error (excess x), t) ∧
      s.database.ledger.Overflows x ∧ t.database = s.database := by
  intro s
  have hd : Reachable s.database :=
    Reachable.after (s := newSession) .migrated rfl typed_refilledPurse
  obtain ⟨hfails, howns, hstill⟩ :
      ((Call.restoreEntry (.int 1) (.int 1)).run.exec s).1.isOk = false ∧
      (∃ r ∈ s.database.ledger.entries.rows, r.id = 1 ∧ r.data.owner = 1) ∧
      s.inTransaction = false ∧ s.fuse = none ∧ s.breaks = none := by decide +kernel
  clear_value s
  have hone : (Value.int 1).id? = some 1 := rfl
  obtain ⟨outcome, t, hrun, hends, habsent, -⟩ := Call.turn_closed hd hstill.1 hstill.2.1 hstill.2.2
    hone hone rfl rfl (.mark false)
  have hrun : (Call.restoreEntry (.int 1) (.int 1)).run.exec s = (outcome, t) := hrun
  rcases hends with ⟨a, rfl⟩ | ⟨ht, hmissing | ⟨x, hover, rfl⟩⟩
  · rw [hrun] at hfails
    cases hfails
  · exact absurd howns (habsent.1 hmissing)
  · exact ⟨x, t, hrun, hover, ht⟩

/-- An active entry is not added again by restoring it, though its effect would be too much for its
source. -/
theorem restoreEntry_active_on_fullPurse :
    let s := newSession.after fullPurse
    Reachable s.database ∧ s.inTransaction = false ∧
      (∃ r ∈ s.database.ledger.entries.rows, r.id = 1 ∧ r.data.owner = 1 ∧
        (Turn.mark false).Strains s.database.ledger r) ∧
      ((Call.restoreEntry (.int 1) (.int 1)).run.exec s).1.isOk = true := by
  intro s
  have htyped : ∀ c ∈ fullPurse, c.Typed := fun c hc =>
    typed_refilledPurse c (List.mem_append_left _ hc)
  refine ⟨Reachable.after (s := newSession) .migrated rfl htyped, by decide +kernel, ?_,
    by decide +kernel⟩
  obtain ⟨r, hr, hid, hown, heffects⟩ : ∃ r ∈ s.database.ledger.entries.rows, r.id = 1 ∧
      r.data.owner = 1 ∧
      (s.database.ledger.effects r).toOption = some [⟨some 1, 1e308⟩] := by decide +kernel
  have hover : ∃ p ∈ s.database.ledger.sources.rows, (some 1 : Option Int) = some p.id ∧
      isFinite (p.data.amount + 1e308) = false := by decide +kernel
  refine ⟨r, hr, hid, hown, [⟨some 1, 1e308⟩], ?_, ⟨some 1, 1e308⟩, List.mem_singleton.2 rfl, hover⟩
  cases he : s.database.ledger.effects r with
  | error e => simp [he, Except.toOption] at heffects
  | ok shifts =>
    rw [he] at heffects
    exact congrArg _ (Option.some.inj heffects)

/-! ## Removing an entry that was archived -/

/-- An active entry is archived and removed with the same shifts. -/
theorem adds_archive_eq (hactive : r.data.archived = false) (shifts : List Shift) :
    (Turn.mark true).adds r shifts = Turn.remove.adds r shifts := by
  simp [Turn.adds, Turn.idle, Turn.effect, hactive]

/-- The entries that are left once an entry was archived and then removed are those that are left if
it is removed at once. -/
theorem entries_remove_archived (t : Table StoredEntry) (hactive : r.data.archived = false) :
    Turn.remove.entries ((Turn.mark true).entries t r) (markedAs true r)
      = Turn.remove.entries t r := by
  rw [Turn.entries, Turn.entries, if_neg (by simp [hactive])]
  exact Table.erase_replace t (markedAs true r)

theorem typed_turn {u n : Int} (huid : user.id? = some u) (hid : id.id? = some n) (turn : Turn) :
    (turn.call user id).Typed := by
  have hids : ∀ v ∈ [user, id], v.isId = true := by
    simp [Value.isId, huid, hid]
  rcases turn with (_ | _) | _ <;> exact hids

/-- Removing an active entry succeeds if and only if archiving it does, and then it leaves the same
database as archiving the entry and removing it after that. Archiving an entry once more, or
restoring one that is active, gives the entry as it is and changes nothing. -/
theorem Call.deleteEntry_archives (hd : Reachable s.database) (ho : s.inTransaction = false)
    (hfuse : s.fuse = none) (hbreaks : s.breaks = none)
    (hr : r ∈ s.database.ledger.entries.rows) (hid : id.id? = some r.id)
    (huid : user.id? = some r.data.owner) (hactive : r.data.archived = false) :
    (((Call.deleteEntry user id).run.exec s).1.isOk = true ↔
        ((Call.archiveEntry user id).run.exec s).1.isOk = true) ∧
      (((Call.archiveEntry user id).run.exec s).1.isOk = true → ∃ a t,
        (Call.archiveEntry user id).run.exec s = (.ok (.entry (some a)), t) ∧
        (∃ v w, (Call.deleteEntry user id).run.exec s = (.ok .nothing, v) ∧
          (Call.deleteEntry user id).run.exec t = (.ok .nothing, w) ∧ v.database = w.database) ∧
        ∃ w, (Call.archiveEntry user id).run.exec t = (.ok (.entry (some a)), w) ∧
          w.database = t.database) ∧
      ∃ a w, StoredEntry.toEntry .full r = .ok a ∧
        (Call.restoreEntry user id).run.exec s = (.ok (.entry (some a)), w) ∧
        w.database = s.database := by
  obtain ⟨hlayout, hi⟩ := hd.intact
  have hs : s.Idle := ⟨ho, hlayout, hfuse, hbreaks⟩
  obtain ⟨shifts, he⟩ := (hi.filed r hr).effects
  have hcomes (turn : Turn) : turn.Comes s user id r shifts := comes hs hi hr hid huid he turn
  have harchive : ((Call.archiveEntry user id).run.exec s).1.isOk = true ↔ _ :=
    isOk_turn_iff (hcomes (.mark true)) hi hr he
  have hdelete : ((Call.deleteEntry user id).run.exec s).1.isOk = true ↔ _ :=
    isOk_turn_iff (hcomes .remove) hi hr he
  refine ⟨by rw [hdelete, harchive, adds_archive_eq hactive], fun hok => ?_, ?_⟩
  · have hb := harchive.1 hok
    obtain ⟨_, t, hrun, ⟨a, ha, rfl⟩, ht, htdb⟩ := exec_turn (hcomes (.mark true)) hi hr he hb
    obtain ⟨_, v, hrunv, rfl, -, hvdb⟩ :=
      exec_turn (hcomes .remove) hi hr he (adds_archive_eq hactive shifts ▸ hb)
    -- the entry is still there once it was archived, so the turns that follow are idle
    have hdt : Reachable t.database := by
      have hcall := Reachable.call hd hs.not_inBlock (typed_turn huid hid (.mark true))
      rwa [hrun] at hcall
    obtain ⟨-, hit⟩ := hdt.intact
    have hm : markedAs true r ∈ t.database.ledger.entries.rows := by
      rw [htdb]
      show markedAs true r ∈ ((Turn.mark true).entries s.database.ledger.entries r).rows
      rw [Turn.entries, if_neg (by simp [hactive])]
      exact mem_marked true hr
    obtain ⟨_, w, hrunw, rfl, hwdb⟩ :=
      exec_turn_idle ht hit hm hid huid (show Turn.remove.idle (markedAs true r) = true from rfl)
    obtain ⟨_, z, hrunz, ⟨b, hbread, rfl⟩, hzdb⟩ :=
      exec_turn_idle ht hit hm hid huid (show (Turn.mark true).idle (markedAs true r) = true from rfl)
    obtain rfl : a = b := Except.ok.inj (ha.symm.trans hbread)
    refine ⟨a, t, hrun, ⟨v, w, hrunv, hrunw, ?_⟩, z, hrunz, hzdb⟩
    rw [hvdb, hwdb, htdb, Turn.applied, ← entries_remove_archived _ hactive,
      ← adds_archive_eq hactive]
    rfl
  · have hidle : (Turn.mark false).idle r = true := by simp [Turn.idle, hactive]
    obtain ⟨_, w, hrun, ⟨a, ha, rfl⟩, hwdb⟩ := exec_turn_idle hs hi hr hid huid hidle
    rw [markedAs_self (hi.entries.proper r hr) hactive] at ha
    rw [entries_of_marked hactive] at hwdb
    exact ⟨a, w, ha, hrun, hwdb⟩

/-- Money that was moved into a second source is moved back at once or step by step. -/
theorem deleteEntry_archives_after_firstExchange :
    let s := newSession.after firstExchange
    let archive := Call.archiveEntry (.int 1) (.int 2)
    let delete := Call.deleteEntry (.int 1) (.int 2)
    (delete.run.exec s).1.isOk = true ∧ ∃ a t, archive.run.exec s = (.ok (.entry (some a)), t) ∧
      ∃ v w, delete.run.exec s = (.ok .nothing, v) ∧ delete.run.exec t = (.ok .nothing, w) ∧
        v.database = w.database := by
  intro s archive delete
  have hd : Reachable s.database :=
    Reachable.after (s := newSession) .migrated rfl typed_firstExchange
  obtain ⟨⟨r, hr, hid, hown, hactive⟩, hok, hstill⟩ :
      (∃ r ∈ s.database.ledger.entries.rows, r.id = 2 ∧ r.data.owner = 1 ∧
        r.data.archived = false) ∧
      (archive.run.exec s).1.isOk = true ∧
      s.inTransaction = false ∧ s.fuse = none ∧ s.breaks = none := by decide +kernel
  clear_value s
  have htwo : (Value.int 2).id? = some r.id := congrArg some hid.symm
  have hone : (Value.int 1).id? = some r.data.owner := congrArg some hown.symm
  obtain ⟨hiff, hsame, -⟩ :=
    Call.deleteEntry_archives hd hstill.1 hstill.2.1 hstill.2.2 hr htwo hone hactive
  obtain ⟨a, t, hrun, hdeleted, -⟩ := hsame hok
  exact ⟨hiff.2 hok, a, t, hrun, hdeleted⟩

end Bookkeeping.Service
