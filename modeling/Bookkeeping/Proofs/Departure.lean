import Bookkeeping.Proofs.Domains
import Bookkeeping.Proofs.UserAgreement

/-! # Removing an account

A user goes with everything the user owns, table by table. The order matters, since what is still
referred to is not removed; and it is enough, since nobody refers to the rows of somebody else.
-/

namespace Bookkeeping.Store

/-! ## What is removed and what is left -/

/-- The number of rows of every table that are a user's. -/
def Ledger.holdings (l : Ledger) (user : Int) : List (String × Nat) :=
  [("entries", l.entries.count fun e => e.data.owner == user),
    ("sources", l.sources.count fun s => s.data.owner == user),
    ("categories", l.categories.count fun c => c.data.owner == user),
    ("currencies", l.currencies.count fun c => c.data.owner == user),
    ("users", l.users.count fun u => u.id == user)]

/-- A ledger that has lost a user with everything the user owned, and nothing else. -/
structure Ledger.LostUser (l m : Ledger) (user : Int) : Prop where
  users : m.users.rows = l.users.rows.filter fun u => u.id != user
  currencies : m.currencies.rows = l.currencies.rows.filter fun c => c.data.owner != user
  categories : m.categories.rows = l.categories.rows.filter fun c => c.data.owner != user
  sources : m.sources.rows = l.sources.rows.filter fun s => s.data.owner != user
  entries : m.entries.rows = l.entries.rows.filter fun e => e.data.owner != user
  /-- No row refers to one that is gone. -/
  references : ∀ table id, l.Has table id → ¬ m.Has table id → ¬ m.Needs table id

theorem Table.Tidy.count_id {α : Type} {t : Table α} {r : Row α} (h : t.Tidy) (hr : r ∈ t.rows) :
    (t.count fun x => x.id == r.id) = 1 := by
  have hids := List.count_eq_one_of_mem h.nodup (List.mem_map_of_mem (f := Row.id) hr)
  rwa [List.count, List.countP_map, List.countP_eq_length_filter] at hids

/-- In an intact ledger no row refers to nothing. -/
theorem Intact.resolve {l : Ledger} (h : Intact l) {table : TableName} {id : Int}
    (hn : l.Needs table id) : l.Has table id := by
  rcases hn with ⟨r, hr, href⟩ | ⟨r, hr, href⟩ | ⟨r, hr, href⟩ | ⟨r, hr, href⟩ | ⟨r, hr, href⟩
  · exact LawfulSchema.resolves l r.data (Governed.resolves (ρ := User) h hr) table id href
  · exact LawfulSchema.resolves l r.data (Governed.resolves (ρ := Currency) h hr) table id href
  · exact LawfulSchema.resolves l r.data (Governed.resolves (ρ := Category) h hr) table id href
  · exact LawfulSchema.resolves l r.data (Governed.resolves (ρ := Source) h hr) table id href
  · exact LawfulSchema.resolves l r.data (Governed.resolves (ρ := StoredEntry) h hr) table id href

theorem Intact.lostUser {l : Ledger} (h : Intact l) (user : Int) :
    l.LostUser (l.without user) user where
  users := rfl
  currencies := rfl
  categories := rfl
  sources := rfl
  entries := rfl
  references _ _ _ hgone hn := hgone ((h.without user).resolve hn)

end Bookkeeping.Store

namespace Bookkeeping.Service

open Store Op

variable {s : Session} {user : Value} {r : Row User}

theorem exec_requireUser (h : s.Ready) (hi : Intact s.database.ledger) {a : Row User}
    (hr : r ∈ s.database.ledger.users.rows) (hid : user.id? = some r.id) (ha : reread r = .ok a) :
    (requireUser user).exec s = (.ok a, s) := by
  have hfind : (find User user).exec s = (.ok (some a), s) := by
    rw [exec_find (ρ := User) h hi hr hid, show Persistent.decode .full r = _ from ha]
    rfl
  rw [requireUser, exec_bind_ok hfind]
  rfl

theorem intact_reportingIn {l : Ledger} (hi : Intact l) (hr : r ∈ l.users.rows) :
    Intact { l with users := l.users.replace r.id (reportingIn none r) } :=
  hi.reviseUser (u := { r.data with fixedCurrency := none }) hr rfl (by simp)

/-- The account of a user who reports in nothing any more. -/
theorem exec_unsetFixedCurrency (h : s.Ready) (hi : Intact s.database.ledger)
    (hr : r ∈ s.database.ledger.users.rows) (hid : user.id? = some r.id) :
    (Store.setFixedCurrency user .null).exec s = (.ok true, s.put { s.database.ledger with
      users := s.database.ledger.users.replace r.id (reportingIn none r) }) :=
  exec_update (ρ := User) h hi hr hid (by simp) rfl rfl
    (assign_fixedCurrency none (hi.users.proper r hr)) (intact_reportingIn hi hr)

/-- A user is removed table by table, and every statement finds what it removes free to go. -/
theorem exec_removeAccount (h : s.Ready) (hi : Intact s.database.ledger) {a : Row User}
    (hr : r ∈ s.database.ledger.users.rows) (hid : user.id? = some r.id) (ha : reread r = .ok a) :
    (do
      let _ ← requireUser user
      let entries ← deleteByUser StoredEntry user
      let sources ← deleteByUser Source user
      let categories ← deleteByUser Category user
      let _ ← Store.setFixedCurrency user .null
      let currencies ← deleteByUser Currency user
      let gone ← delete User user
      pure [("entries", entries), ("sources", sources), ("categories", categories),
        ("currencies", currencies), ("users", if gone then 1 else 0)]).exec s
      = (.ok (s.database.ledger.holdings r.id), s.put (s.database.ledger.without r.id)) := by
  have hfit := hi.users.fits r hr
  -- what refers goes before what is referred to, so every statement leaves an intact ledger
  let l := s.database.ledger
  let l₁ : Ledger := { l with entries := l.entries.erase fun e => e.data.owner == r.id }
  have hi₁ : Intact l₁ := intact_eraseEntries hi _
  have run₁ : (deleteByUser StoredEntry user).exec s
      = (.ok (l.entries.count fun e => e.data.owner == r.id), s.put l₁) :=
    exec_deleteByUser (ρ := StoredEntry) h hi hid hfit hi₁
  let l₂ : Ledger := { l₁ with sources := l.sources.erase fun x => x.data.owner == r.id }
  have hi₂ : Intact l₂ := intact_eraseSources hi₁ (owner_erased _ r.id)
  have run₂ : (deleteByUser Source user).exec (s.put l₁)
      = (.ok (l.sources.count fun x => x.data.owner == r.id), s.put l₂) :=
    exec_deleteByUser (ρ := Source) (h.put l₁) hi₁ hid hfit hi₂
  let l₃ : Ledger := { l₂ with categories := l.categories.erase fun c => c.data.owner == r.id }
  have hi₃ : Intact l₃ := intact_eraseCategories hi₂ (owner_erased _ r.id)
  have run₃ : (deleteByUser Category user).exec (s.put l₂)
      = (.ok (l.categories.count fun c => c.data.owner == r.id), s.put l₃) :=
    exec_deleteByUser (ρ := Category) (h.put l₂) hi₂ hid hfit hi₃
  let l₄ : Ledger := { l₃ with users := l.users.replace r.id (reportingIn none r) }
  have hi₄ : Intact l₄ := intact_reportingIn hi₃ hr
  have run₄ : (Store.setFixedCurrency user .null).exec (s.put l₃) = (.ok true, s.put l₄) :=
    exec_unsetFixedCurrency (h.put l₃) hi₃ hr hid
  let l₅ : Ledger := { l₄ with currencies := l.currencies.erase fun c => c.data.owner == r.id }
  have hi₅ : Intact l₅ :=
    intact_eraseCurrencies hi₄ (owner_erased _ r.id) (owner_erased _ r.id) unset_reportingIn
  have run₅ : (deleteByUser Currency user).exec (s.put l₄)
      = (.ok (l.currencies.count fun c => c.data.owner == r.id), s.put l₅) :=
    exec_deleteByUser (ρ := Currency) (h.put l₄) hi₄ hid hfit hi₅
  have hrow : reportingIn none r ∈ l₅.users.rows :=
    Table.mem_replace (r := reportingIn none r) |>.2 (.inl ⟨rfl, r, hr, rfl⟩)
  have hlast : { l₅ with users := l₅.users.erase fun u => u.id == r.id } = l.without r.id := by
    rw [show l₅.users.erase _ = _ from erase_reportingIn l.users r]
    rfl
  have hleft : Intact { l₅ with users := l₅.users.erase fun u => u.id == r.id } := by
    rw [hlast]
    exact hi.without r.id
  have run₆ : (delete User user).exec (s.put l₅) = (.ok true, s.put (l.without r.id)) := by
    rw [← hlast]
    exact exec_delete (ρ := User) (r := reportingIn none r) (h.put l₅) hi₅ hrow hid hleft
  rw [exec_bind_ok (exec_requireUser h hi hr hid ha), exec_bind_ok run₁, exec_bind_ok run₂,
    exec_bind_ok run₃, exec_bind_ok run₄, exec_bind_ok run₅, exec_bind_ok run₆, exec_pure,
    Ledger.holdings, hi.users.count_id hr]
  rfl

/-- Removing an account succeeds for every user there is, whether references must resolve or not. It
gives the number of rows of every table that were the user's, and these are gone; the rows of others
are as they were, and no row refers to one that is gone. The call is not broken off from outside. -/
theorem Call.deleteUser_total (hd : Serviceable s.database) (ho : s.inTransaction = false)
    (hfuse : s.fuse = none) (hbreaks : s.breaks = none) (hr : r ∈ s.database.ledger.users.rows)
    (hid : user.id? = some r.id) :
    ∃ t, (Call.deleteUser user).run.exec s = (.ok (.tally (s.database.ledger.holdings r.id)), t) ∧
      s.database.ledger.LostUser t.database.ledger r.id ∧
      (s.database.ledger.users.count fun u => u.id == r.id) = 1 := by
  obtain ⟨hlayout, hi⟩ := hd.reachable.intact
  obtain ⟨a, ha⟩ := (hd.vetted.users r hr).readable (hi.users.proper r hr)
  have hidle : s.Idle := ⟨ho, hlayout, hfuse, hbreaks⟩
  have hrun := hidle.exec_transaction (exec_removeAccount hidle.ready hi hr hid ha)
  have hcall : ∃ t, (Call.deleteUser user).run.exec s
      = (.ok (.tally (s.database.ledger.holdings r.id)), t) ∧
      t.database = s.database.withLedger (s.database.ledger.without r.id) := by
    rw [Call.run, exec_map, Service.deleteUser, exec_logged, exec_bind, hrun]
    exact ⟨_, rfl, rfl⟩
  obtain ⟨t, ht, hdb⟩ := hcall
  refine ⟨t, ht, ?_, hi.users.count_id hr⟩
  rw [hdb]
  exact hi.lostUser r.id

/-- A user with two entries, and another user. -/
def firstCompany : List Call :=
  firstExchange ++ [.registerUser (.text "bob") (.text "secret") (.text "USD")]

theorem typed_firstCompany : ∀ c ∈ firstCompany, c.Typed := by
  simp [firstCompany, firstExchange, firstSpending, registration, Call.Typed, Call.ids,
    EntryRequest.ids, Value.isId, Value.isNull, Value.id?]

/-- The user with the entries is removed, and the other one stays. -/
theorem deleteUser_after_firstCompany :
    let s := newSession.after firstCompany
    ∃ t, (Call.deleteUser (.int 1)).run.exec s = (.ok (.tally [("entries", 2), ("sources", 2),
        ("categories", 1), ("currencies", 2), ("users", 1)]), t) ∧
      s.database.ledger.LostUser t.database.ledger 1 ∧
      t.database.ledger.users.rows.map (·.data.username) = ["bob"] := by
  intro s
  have hd : Serviceable s.database :=
    Serviceable.after (s := newSession) .migrated rfl compact_newSession typed_firstCompany
  obtain ⟨hrows, hcounts, hnames, hstill⟩ : s.database.ledger.users.rows.map Row.id = [1, 2] ∧
      s.database.ledger.holdings 1 = [("entries", 2), ("sources", 2), ("categories", 1),
        ("currencies", 2), ("users", 1)] ∧
      (s.database.ledger.users.rows.filter fun u => u.id != 1).map (·.data.username) = ["bob"] ∧
      s.inTransaction = false ∧ s.fuse = none ∧ s.breaks = none := by decide +kernel
  clear_value s
  obtain ⟨r, hr, hid⟩ : ∃ r ∈ s.database.ledger.users.rows, r.id = 1 :=
    List.mem_map.1 (hrows ▸ List.mem_cons_self)
  obtain ⟨t, run, lost, -⟩ := Call.deleteUser_total hd hstill.1 hstill.2.1
    hstill.2.2 hr (show (Value.int 1).id? = some r.id from congrArg some hid.symm)
  rw [hid] at run lost
  rw [hcounts] at run
  exact ⟨t, run, lost, by rw [lost.users, hnames]⟩

end Bookkeeping.Service
