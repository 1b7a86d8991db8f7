import Bookkeeping.Proofs.Recording
import Bookkeeping.Proofs.UserCalls

/-! # Ownership over whole runs

A call changes a ledger in one of a few ways or not at all, so the ledger of every database that
calls can lead to is intact: whatever refers to a row refers to one of the same user, and names are
not used twice.
-/

namespace Bookkeeping.Service

open Store

variable {s t : Session} {gone : Row StoredEntry → Prop}

/-! ## Calls are changes -/

/-- What is found out leaves the ledger as it is. -/
theorem changes_of_quiet {α : Type} {op : Op α} {Q : α → Prop} {a : α}
    (h : op.Orderly (.calls s.setting) .quiet Q) (hx : op.exec s = (.ok a, t)) :
    s.Changes gone t :=
  .refl (h.database_eq rfl rfl hx)

theorem changes_marked (hs : s.Idle) (hi : Intact s.database.ledger) {archived : Bool}
    {operation event : String} {user id : Value} {found : Option (Row Entry)}
    (hu : user.isId = true) (hid : id.isId = true)
    (hx : (logged operation (do
      match ← markEntry archived user id with
      | (e, none) => pure (some e)
      | (_, some after) =>
        emit .info .entries event [("user_id", user), ("entry_id", id)]
        pure after)).exec s = (.ok found, t)) : s.Changes gone t := by
  obtain ⟨⟨e, after⟩, u, hm, h₁⟩ := Op.bind_ok (logged_ok hx)
  have hd : t.database = u.database := by
    cases after with
    | none => rw [(Op.pure_ok h₁).2]
    | some after =>
      obtain ⟨_, v, he, hp⟩ := Op.bind_ok h₁
      obtain ⟨-, rfl⟩ := Op.pure_ok hp
      exact (emit_ok he).1
  obtain ⟨m, hm, hc⟩ := changes_markEntry hs hi hu hid hm
  exact ⟨m, hd.trans hm, hc⟩

/-- Whether a call is meant to remove an entry: the entry itself or its user. -/
def Call.Deletes (c : Call) (r : Row StoredEntry) : Prop :=
  match c with
  | .deleteEntry user id => user.id? = some r.data.owner ∧ id.id? = some r.id
  | .deleteUser user => user.id? = some r.data.owner
  | _ => False

/-- A call that succeeds makes one change. -/
theorem Call.changes (c : Call) (hc : c.Typed) (hs : s.Idle) (hi : Intact s.database.ledger)
    {a : Answer} (hx : c.run.exec s = (.ok a, t)) : s.Changes c.Deletes t := by
  have hids (v : Value) (hv : v ∈ c.ids) : v.isId = true := hc v hv
  cases c with
  | createUser username password =>
    obtain ⟨r, hr, -⟩ := Op.map_ok hx
    exact (settles_createUser hs hi hr).changes
  | registerUser username password currency =>
    obtain ⟨r, hr, -⟩ := Op.map_ok hx
    exact (settles_registerUser hs hi hr).changes
  | getUser user => exact changes_of_quiet ((orderly_selectOne User _ _).map _) hx
  | getUserByUsername username => exact changes_of_quiet ((orderly_findByUsername username).map _) hx
  | verifyCredentials username password =>
    exact changes_of_quiet ((orderly_verifyCredentials trivial username password).map _) hx
  | changePassword user old new =>
    obtain ⟨r, hr, -⟩ := Op.map_ok hx
    exact (settles_changePassword hs hi (hids user (by simp [Call.ids])) hr).changes
  | setEnabled user enabled =>
    obtain ⟨r, hr, -⟩ := Op.map_ok hx
    exact (settles_enableUser hs hi (hids user (by simp [Call.ids])) hr).changes
  | setFixedCurrency user currency =>
    obtain ⟨r, hr, -⟩ := Op.map_ok hx
    exact (settles_chooseFixedCurrency hs hi (hids user (by simp [Call.ids]))
      (hids currency (by simp [Call.ids])) hr).changes
  | deleteUser user =>
    obtain ⟨r, hr, -⟩ := Op.map_ok hx
    obtain ⟨id, hid, ht⟩ := clears_deleteUser hs hi (hids user (by simp [Call.ids])) hr
    exact ⟨_, ht, .clear id fun r _ howner => hid.trans (congrArg some howner.symm)⟩
  | createCurrency user name rate =>
    obtain ⟨r, hr, -⟩ := Op.map_ok hx
    exact (settles_createCurrency hs hi (hids user (by simp [Call.ids])) hr).changes
  | updateCurrency user id name rate =>
    obtain ⟨r, hr, -⟩ := Op.map_ok hx
    exact (settles_updateCurrency hs hi (hids user (by simp [Call.ids]))
      (hids id (by simp [Call.ids])) hr).changes
  | createCategory user name =>
    obtain ⟨r, hr, -⟩ := Op.map_ok hx
    exact (settles_createCategory hs hi (hids user (by simp [Call.ids])) hr).changes
  | createSource user name currency amount =>
    obtain ⟨r, hr, -⟩ := Op.map_ok hx
    exact (settles_createSource hs hi (hids user (by simp [Call.ids]))
      (hids currency (by simp [Call.ids])) hr).changes
  | rename kind user id name =>
    have hu := hids user (by simp [Call.ids])
    have hid := hids id (by simp [Call.ids])
    cases kind <;> obtain ⟨r, hr, -⟩ := Op.map_ok hx <;> exact (settles_rename hs hi hu hid hr).changes
  | archive kind user id =>
    have hu := hids user (by simp [Call.ids])
    have hid := hids id (by simp [Call.ids])
    cases kind <;> obtain ⟨r, hr, -⟩ := Op.map_ok hx <;>
      exact (settles_mark hs hi hu hid (logged_ok hr)).changes
  | restore kind user id =>
    have hu := hids user (by simp [Call.ids])
    have hid := hids id (by simp [Call.ids])
    cases kind <;> obtain ⟨r, hr, -⟩ := Op.map_ok hx <;>
      exact (settles_mark hs hi hu hid (logged_ok hr)).changes
  | delete kind user id =>
    have hu := hids user (by simp [Call.ids])
    have hid := hids id (by simp [Call.ids])
    cases kind with
    | currency =>
      obtain ⟨r, hr, -⟩ := Op.map_ok hx
      exact (settles_removeCurrency hs hi hu hid hr).changes
    | category =>
      obtain ⟨r, hr, -⟩ := Op.map_ok hx
      exact (settles_removeCategory hs hi hu hid hr).changes
    | source =>
      obtain ⟨r, hr, -⟩ := Op.map_ok hx
      exact (settles_removeSource hs hi hu hid hr).changes
  | get kind user id =>
    cases kind <;> exact changes_of_quiet ((orderly_loadOwned _ user id _).map _) hx
  | getByName kind user name =>
    cases kind <;> exact changes_of_quiet ((orderly_findByName _ user name).map _) hx
  | list kind user includeArchived =>
    cases kind <;> exact changes_of_quiet ((orderly_selectAll _ _ _).map _) hx
  | createEntry user data fields =>
    obtain ⟨r, hr, -⟩ := Op.map_ok hx
    exact changes_createEntry hs hi hc hr
  | getEntry user id =>
    exact changes_of_quiet ((orderly_loadOwned StoredEntry user id _).map _) hx
  | listEntries user filter => exact changes_of_quiet ((orderly_listEntries user filter).map _) hx
  | archiveEntry user id =>
    obtain ⟨r, hr, -⟩ := Op.map_ok hx
    exact changes_marked hs hi (hids user (by simp [Call.ids])) (hids id (by simp [Call.ids])) hr
  | restoreEntry user id =>
    obtain ⟨r, hr, -⟩ := Op.map_ok hx
    exact changes_marked hs hi (hids user (by simp [Call.ids])) (hids id (by simp [Call.ids])) hr
  | deleteEntry user id =>
    obtain ⟨r, hr, -⟩ := Op.map_ok hx
    exact changes_deleteEntry hs hi (hids user (by simp [Call.ids])) (hids id (by simp [Call.ids])) hr

/-- Whatever comes of a call, all that it changes is the ledger, by a change. -/
theorem Call.changes_ledger (c : Call) (hc : c.Typed) (ho : s.inBlock = false)
    (hl : s.database.layout = .full) (hi : Intact s.database.ledger) :
    ∃ m, (c.run.exec s).2.database = s.database.withLedger m ∧
      Change c.Deletes s.database.ledger m := by
  rcases c.unchanged_or_calm ho with h | ⟨a, t, hx, ht⟩
  · exact ⟨s.database.ledger, h, .settings (.refl _)⟩
  · obtain ⟨m, hm, hchange⟩ := c.changes hc (s := s.calm)
        ⟨Session.inTransaction_of_breaks rfl ho, hl, rfl, rfl⟩ hi hx
    exact ⟨m, ht.symm.trans hm, hchange⟩

end Bookkeeping.Service

namespace Bookkeeping.Store

open Service

variable {db : Database}

/-! ## What calls lead to -/

/-- Databases that calls lead to have the full layout and an intact ledger. -/
theorem Reachable.intact (h : Reachable db) : db.layout = .full ∧ Intact db.ledger := by
  induction h with
  | migrated => exact ⟨rfl, intact_empty⟩
  | @call s c hd ho hc ih =>
    obtain ⟨m, hm, hchange⟩ := c.changes_ledger hc ho ih.1 ih.2
    rw [hm]
    exact ⟨ih.1, hchange.intact ih.2⟩

/-- Whatever comes of a call, the ledger after it comes about by a change. -/
theorem Reachable.change {s : Session} {c : Call} (hd : Reachable s.database)
    (ho : s.inBlock = false) (hc : c.Typed) :
    Change c.Deletes s.database.ledger (c.run.exec s).2.database.ledger := by
  obtain ⟨hlayout, hi⟩ := hd.intact
  obtain ⟨m, hm, hchange⟩ := c.changes_ledger hc ho hlayout hi
  rw [hm]
  exact hchange

/-- Any calls at all may be made one after the other. -/
theorem Reachable.after {s : Session} (hd : Reachable s.database) (ho : s.inBlock = false)
    {calls : List Call} (hc : ∀ c ∈ calls, c.Typed) : Reachable (s.after calls).database := by
  induction calls generalizing s with
  | nil => exact hd
  | cons c rest ih =>
    exact ih (.call hd ho (hc c List.mem_cons_self)) (c.atomic s ho).1
      fun c hc' => hc c (List.mem_cons_of_mem _ hc')

theorem typed_firstSpending : ∀ c ∈ firstSpending, c.Typed := by
  simp [firstSpending, registration, Call.Typed, Call.ids, EntryRequest.ids, Value.isId, Value.isNull,
    Value.id?]

theorem reachable_firstSpending (n : Nat) :
    Reachable (newSession.after (firstSpending.take n)).database :=
  Reachable.after (s := newSession) .migrated rfl fun c hc =>
    typed_firstSpending c (List.mem_of_mem_take hc)

/-- A ledger without stray references and without names used twice: every reference leads to a row,
which belongs to the user of the row that refers to it, and no cell is of another type than that of
its column. -/
structure Ledger.WellOwned (l : Ledger) : Prop where
  proper : (∀ r ∈ l.users.rows, r.odd = []) ∧ (∀ r ∈ l.currencies.rows, r.odd = []) ∧
    (∀ r ∈ l.categories.rows, r.odd = []) ∧ (∀ r ∈ l.sources.rows, r.odd = []) ∧
    ∀ r ∈ l.entries.rows, r.odd = []
  reporting : ∀ u ∈ l.users.rows, ∀ id ∈ u.data.fixedCurrency,
    ∃ c ∈ l.currencies.rows, c.id = id ∧ c.data.owner = u.id
  currency_owner : ∀ c ∈ l.currencies.rows, ∃ u ∈ l.users.rows, u.id = c.data.owner
  category_owner : ∀ c ∈ l.categories.rows, ∃ u ∈ l.users.rows, u.id = c.data.owner
  source_owner : ∀ s ∈ l.sources.rows, ∃ u ∈ l.users.rows, u.id = s.data.owner
  source_currency : ∀ s ∈ l.sources.rows,
    ∃ c ∈ l.currencies.rows, c.id = s.data.currency ∧ c.data.owner = s.data.owner
  entry_owner : ∀ e ∈ l.entries.rows, ∃ u ∈ l.users.rows, u.id = e.data.owner
  entry_category : ∀ e ∈ l.entries.rows,
    ∃ c ∈ l.categories.rows, c.id = e.data.category ∧ c.data.owner = e.data.owner
  entry_currency : ∀ e ∈ l.entries.rows,
    ∃ c ∈ l.currencies.rows, c.id = e.data.currency ∧ c.data.owner = e.data.owner
  entry_source : ∀ e ∈ l.entries.rows,
    ∃ s ∈ l.sources.rows, s.id = e.data.source ∧ s.data.owner = e.data.owner
  entry_secondary : ∀ e ∈ l.entries.rows, ∀ id ∈ e.data.secondary,
    ∃ s ∈ l.sources.rows, s.id = id ∧ s.data.owner = e.data.owner
  usernames : (l.users.rows.map fun u => u.data.username).Nodup
  currency_names : (l.currencies.rows.map fun c => (c.data.owner, c.data.name)).Nodup
  category_names : (l.categories.rows.map fun c => (c.data.owner, c.data.name)).Nodup
  source_names : (l.sources.rows.map fun s => (s.data.owner, s.data.name)).Nodup

/-- What tells the rows of a tidy table apart by their ids tells them apart in the list. -/
theorem Table.Tidy.nodup_map {α β : Type} {t : Table α} (h : t.Tidy) {f : Row α → β}
    (hf : ∀ a ∈ t.rows, ∀ b ∈ t.rows, f a = f b → a.id = b.id) : (t.rows.map f).Nodup :=
  h.nodup.of_map _ |>.map_on fun a ha b hb hab => h.eq_of_id ha hb (hf a ha b hb hab)

theorem Table.Kept.nodup_names {ρ : Type} [NamedRecord ρ] {t : Table ρ} {users : Int → Prop}
    (h : t.Kept users) : (t.rows.map fun r => (Owned.owner r.data, Named.rowName r.data)).Nodup :=
  h.tidy.nodup_map fun a ha b hb hab =>
    h.distinct a ha b hb (Prod.mk.inj hab).1 (Prod.mk.inj hab).2

/-- In every database that calls lead to, every reference leads to a row of the same user, and no
name is used twice. -/
theorem Reachable.wellOwned (h : Reachable db) : db.ledger.WellOwned where
  proper := by
    obtain ⟨-, hi⟩ := h.intact
    exact ⟨hi.users.proper, hi.currencies.tidy.proper, hi.categories.tidy.proper,
      hi.sources.tidy.proper, hi.entries.proper⟩
  reporting := h.intact.2.reporting
  currency_owner := h.intact.2.currencies.owned
  category_owner := h.intact.2.categories.owned
  source_owner := h.intact.2.sources.owned
  source_currency := h.intact.2.funded
  entry_owner e he := (h.intact.2.filed e he).owner
  entry_category e he := (h.intact.2.filed e he).category
  entry_currency e he := (h.intact.2.filed e he).currency
  entry_source e he := (h.intact.2.filed e he).source
  entry_secondary e he := (h.intact.2.filed e he).secondary
  usernames := h.intact.2.users.nodup_map h.intact.2.usernames
  currency_names := h.intact.2.currencies.nodup_names
  category_names := h.intact.2.categories.nodup_names
  source_names := h.intact.2.sources.nodup_names

/-- After a first entry there is something to refer to, and every reference is to the user's own. -/
theorem wellOwned_after_firstSpending :
    Reachable (newSession.after firstSpending).database ∧
      (newSession.after firstSpending).database.ledger.entries.rows.length = 1 ∧
      (newSession.after firstSpending).database.ledger.WellOwned :=
  have h := Reachable.after (s := newSession) .migrated rfl typed_firstSpending
  ⟨h, by decide +kernel, h.wellOwned⟩

end Bookkeeping.Store
