import Bookkeeping.Proofs.TableUpkeep

/-! # Ids are given once

A table keeps the largest id that it ever gave, also when the row of that id is gone. So of any two
rows the one that was made later has the larger id, whatever is removed in between, and an id whose
row is gone never leads to a row again. A call that is undone gives its ids back, but then nobody
holds them.
-/

namespace Bookkeeping.Store

/-! ## Counters -/

/-- A table and what has become of it: the counter has not gone back and covers every row, and an id
that is new was never given before. -/
structure Table.Later {α : Type} (t u : Table α) : Prop where
  counter : t.lastId ≤ u.lastId
  covers : ∀ id, u.Has id → id ≤ u.lastId
  fresh : ∀ id, u.Has id → t.Has id ∨ t.lastId < id

namespace Table.Later

variable {α : Type} {t u v : Table α}

/-- A table that has become of another one is a start of its own. -/
theorem refl_right (h : t.Later u) : u.Later u where
  counter := Int.le_refl _
  covers := h.covers
  fresh _ hu := .inl hu

/-- Rows may change and go as long as no id comes in. -/
theorem of_rows (h : t.Later u) (hlast : v.lastId = u.lastId) (hrows : ∀ id, v.Has id → u.Has id) :
    t.Later v where
  counter := hlast ▸ h.counter
  covers id hv := hlast ▸ h.covers id (hrows id hv)
  fresh id hv := h.fresh id (hrows id hv)

theorem insert (h : t.Later u) (a : α) : t.Later (u.insert a) where
  counter := Int.le_trans h.counter (Int.le_of_lt u.lastId_lt_nextId)
  covers := by
    rintro _ ⟨r, hr, rfl⟩
    rw [lastId_insert]
    rcases mem_insert.1 hr with hr | rfl
    · exact Int.le_of_lt (Int.lt_of_le_of_lt (h.covers r.id ⟨r, hr, rfl⟩) u.lastId_lt_nextId)
    · exact Int.le_refl _
  fresh := by
    rintro _ ⟨r, hr, rfl⟩
    rcases mem_insert.1 hr with hr | rfl
    · exact h.fresh r.id ⟨r, hr, rfl⟩
    · exact .inr (Int.lt_of_le_of_lt h.counter u.lastId_lt_nextId)

theorem erase (h : t.Later u) (p : Row α → Bool) : t.Later (u.erase p) := by
  refine h.of_rows rfl ?_
  rintro _ ⟨r, hr, rfl⟩
  exact ⟨r, (mem_erase.1 hr).1, rfl⟩

theorem change (h : t.Later u) {p : Row α → Bool} {f : Row α → Row α} (hid : ∀ r, (f r).id = r.id) :
    t.Later (u.change p f) := by
  refine h.of_rows rfl ?_
  rintro _ ⟨r, hr, rfl⟩
  obtain ⟨o, ho, rfl⟩ := mem_change.1 hr
  split
  · exact ⟨o, ho, (hid o).symm⟩
  · exact ⟨o, ho, rfl⟩

theorem replace (h : t.Later u) {old x : Row α} (hold : old ∈ u.rows) (hid : x.id = old.id) :
    t.Later (u.replace old.id x) := by
  refine h.of_rows rfl ?_
  rintro _ ⟨r, hr, rfl⟩
  rcases mem_replaced.1 hr with ⟨rfl, -⟩ | ⟨hr, -⟩
  · exact ⟨old, hold, hid.symm⟩
  · exact ⟨r, hr, rfl⟩

end Table.Later

/-- A ledger and what has become of it. -/
structure Ledger.Later (l m : Ledger) : Prop where
  users : l.users.Later m.users
  currencies : l.currencies.Later m.currencies
  categories : l.categories.Later m.categories
  sources : l.sources.Later m.sources
  entries : l.entries.Later m.entries

instance {α : Type} (t : Table α) (id : Int) : Decidable (t.Has id) :=
  inferInstanceAs (Decidable (∃ r ∈ t.rows, r.id = id))

instance (l : Ledger) (table : TableName) (id : Int) : Decidable (l.Has table id) :=
  match table with
  | .users => inferInstanceAs (Decidable (l.users.Has id))
  | .currencies => inferInstanceAs (Decidable (l.currencies.Has id))
  | .categories => inferInstanceAs (Decidable (l.categories.Has id))
  | .sources => inferInstanceAs (Decidable (l.sources.Has id))
  | .entries => inferInstanceAs (Decidable (l.entries.Has id))

/-- The largest id that a table of a ledger has given. -/
def Ledger.lastId (l : Ledger) : TableName → Int
  | .users => l.users.lastId
  | .currencies => l.currencies.lastId
  | .categories => l.categories.lastId
  | .sources => l.sources.lastId
  | .entries => l.entries.lastId

namespace Ledger.Later

variable {l m : Ledger} {table : TableName} {id : Int}

theorem refl_empty : ({} : Ledger).Later {} := by
  have htable {α : Type} : ({} : Table α).Later {} := by
    constructor
    case counter => exact Int.le_refl _
    case covers => rintro _ ⟨r, hr, -⟩; cases hr
    case fresh => rintro _ ⟨r, hr, -⟩; cases hr
  exact ⟨htable, htable, htable, htable, htable⟩

theorem refl_right (h : l.Later m) : m.Later m where
  users := h.users.refl_right
  currencies := h.currencies.refl_right
  categories := h.categories.refl_right
  sources := h.sources.refl_right
  entries := h.entries.refl_right

theorem counter (h : l.Later m) (table : TableName) : l.lastId table ≤ m.lastId table := by
  cases table with
  | users => exact h.users.counter
  | currencies => exact h.currencies.counter
  | categories => exact h.categories.counter
  | sources => exact h.sources.counter
  | entries => exact h.entries.counter

theorem covers (h : l.Later m) (hm : m.Has table id) : id ≤ m.lastId table := by
  cases table with
  | users => exact h.users.covers id hm
  | currencies => exact h.currencies.covers id hm
  | categories => exact h.categories.covers id hm
  | sources => exact h.sources.covers id hm
  | entries => exact h.entries.covers id hm

theorem fresh (h : l.Later m) (hm : m.Has table id) : l.Has table id ∨ l.lastId table < id := by
  cases table with
  | users => exact h.users.fresh id hm
  | currencies => exact h.currencies.fresh id hm
  | categories => exact h.categories.fresh id hm
  | sources => exact h.sources.fresh id hm
  | entries => exact h.entries.fresh id hm

end Ledger.Later

/-! ## Writing to a ledger -/

/-- Relations of which ledgers keep count. -/
class Counted (ρ : Type) [Relation ρ] : Prop where
  later_table {l m : Ledger} (h : l.Later m) :
    (Relation.table (ρ := ρ) l).Later (Relation.table (ρ := ρ) m)
  later_withTable {l m : Ledger} (h : l.Later m) {t : Table ρ}
    (ht : (Relation.table (ρ := ρ) l).Later t) : l.Later (Relation.withTable m t)

instance : Counted User where
  later_table h := h.users
  later_withTable h _ ht := { h with users := ht }

instance : Counted Currency where
  later_table h := h.currencies
  later_withTable h _ ht := { h with currencies := ht }

instance : Counted Category where
  later_table h := h.categories
  later_withTable h _ ht := { h with categories := ht }

instance : Counted Source where
  later_table h := h.sources
  later_withTable h _ ht := { h with sources := ht }

instance : Counted StoredEntry where
  later_table h := h.entries
  later_withTable h _ ht := { h with entries := ht }

section

variable {g : Setting} {l : Ledger}

/-- Whatever is done to the rows of one kind, the ledger that it leads to is a later one. -/
theorem stays_later (ρ : Type) [Relation ρ] [Counted ρ] : Stays (fun m => l.Later m) ρ where
  insert _ a h := Counted.later_withTable h ((Counted.later_table h).insert a)
  replace _ _ _ h hold hid := Counted.later_withTable h ((Counted.later_table h).replace hold hid)
  erase _ p h := Counted.later_withTable h ((Counted.later_table h).erase p)
  change _ _ _ hid h := Counted.later_withTable h ((Counted.later_table h).change hid)

theorem lasting_later : Lasting g fun db => l.Later db.ledger :=
  have hstays : EveryKind (Stays fun m => l.Later m) :=
    ⟨stays_later User, stays_later Currency, stays_later Category, stays_later Source,
      stays_later StoredEntry⟩
  hstays.enduring.lasting

end

/-! ## Runs -/

open Service

/-- A run: calls of any kind, each within a block or outside of one and however it ends, blocks that
begin and are committed or left without a transaction, and transactions that are undone with whatever
was done in them, be that at the end of their block or by the engine. Between two steps the time may
pass and the session may be set up anew. -/
inductive Session.Course (s : Session) : Session → Prop
  | start : s.Course s
  | call {t : Session} (h : s.Course t) (c : Call)
    (hin : (c.run.exec t).2.standing = t.standing) : s.Course (c.run.exec t).2
  | begun {t : Session} (h : s.Course t) (ho : t.inBlock = false) : s.Course t.start
  | committed {t : Session} (h : s.Course t) (hin : t.inBlock = true) : s.Course t.commit
  | left {t : Session} (h : s.Course t) (hin : t.inBlock = true) : s.Course t.leave
  | undone {t u : Session} (h : s.Course t) (ho : t.inBlock = false)
    (hu : u.standing = .inside t.database) : s.Course u.rollBack
  | abandoned {t u : Session} (h : s.Course t) (ho : t.inBlock = false)
    (hu : u.standing = .inside t.database) : s.Course u.abandon
  | resumed {t u : Session} (h : s.Course t) (hdb : u.database = t.database)
    (hin : u.standing = t.standing) : s.Course u

/-- Whether a table of the database of a session has a row of an id. -/
def Session.Has (s : Session) : TableName → Int → Prop := s.database.ledger.Has

instance (s : Session) (table : TableName) (id : Int) : Decidable (s.Has table id) :=
  inferInstanceAs (Decidable (s.database.ledger.Has table id))

theorem Session.Course.later {l : Ledger} {s t : Session} (h : s.Course t)
    (hs : l.Later s.database.ledger) : l.Later t.database.ledger := by
  induction h with
  | start => exact hs
  | call _ c hin ih => exact c.retains lasting_later hin ih
  | begun _ _ ih => exact ih
  | committed _ _ ih => exact ih
  | left _ _ ih => exact ih
  | undone _ _ hu ih => simpa [Session.rollBack, hu] using ih
  | abandoned _ _ hu ih => simpa [Session.abandon, hu] using ih
  | resumed _ hdb _ ih => exact hdb ▸ ih

/-- From the database of a step of a run, the database of a later step is a later one. -/
theorem Session.Course.later_from {s t u : Session} (hs : s.database = .migrated) (ht : s.Course t)
    (hu : t.Course u) : t.database.ledger.Later u.database.ledger := by
  have hempty : ({} : Ledger).Later s.database.ledger := hs ▸ Ledger.Later.refl_empty
  exact hu.later (ht.later hempty).refl_right

theorem Session.Course.append {s t u : Session} (ht : s.Course t) (hu : t.Course u) : s.Course u := by
  induction hu with
  | start => exact ht
  | call _ c hin ih => exact ih.call c hin
  | begun _ ho ih => exact ih.begun ho
  | committed _ hin ih => exact ih.committed hin
  | left _ hin ih => exact ih.left hin
  | undone _ ho hu ih => exact ih.undone ho hu
  | abandoned _ ho hu ih => exact ih.abandoned ho hu
  | resumed _ hdb hin ih => exact ih.resumed hdb hin

/-- Of two rows of a table the one that was made later has the larger id, whatever happened in
between and whatever was removed; and an id whose row is gone never leads to a row again. A call makes
no row if the engine undoes the transaction of the block that it is made in. -/
theorem Session.Course.ids_grow {s a : Session} (hs : s.database = .migrated) (ha : s.Course a)
    (table : TableName) :
    (∀ (c d : Call) (b : Session) (i j : Int), (c.run.exec a).2.standing = a.standing →
      (d.run.exec b).2.standing = b.standing → (c.run.exec a).2.Course b →
      ¬ a.Has table i → (c.run.exec a).2.Has table i →
      ¬ b.Has table j → (d.run.exec b).2.Has table j → i < j) ∧
    ∀ (t u : Session) (i : Int), a.Course t → t.Course u →
      a.Has table i → ¬ t.Has table i → ¬ u.Has table i := by
  constructor
  case left =>
    intro c d b i j hc hd hb _ hi hj hj'
    have hgiven : i ≤ b.database.ledger.lastId table :=
      Int.le_trans ((ha.later_from hs (Course.start.call c hc)).covers hi)
        (((ha.call c hc).later_from hs hb).counter table)
    have hnext := ((ha.call c hc).append hb).later_from hs (Course.start.call d hd)
    rcases hnext.fresh hj' with hold | hnew
    · exact absurd hold hj
    · exact Int.lt_of_le_of_lt hgiven hnew
  case right =>
    intro t u i ht hu hi hgone hback
    have hgiven : i ≤ t.database.ledger.lastId table :=
      Int.le_trans ((ha.later_from hs .start).covers hi) ((ha.later_from hs ht).counter table)
    rcases ((ha.append ht).later_from hs hu).fresh hback with hold | hnew
    · exact hgone hold
    · omega

theorem Session.Course.after {s t : Session} (h : s.Course t) (ho : t.inBlock = false)
    (calls : List Call) : s.Course (t.after calls) := by
  induction calls generalizing t with
  | nil => exact h
  | cons c calls ih => exact ih (h.call c (c.standing_run ho)) (c.atomic t ho).1

/-- A session with a category. -/
def withFood : Session :=
  ((Call.createCategory (.int 1) (.text "Food")).run.exec (newSession.after [registration])).2

/-- A second category is made in vain, another one is refused, and the user goes with all that the
user has; then a user comes anew. -/
def withoutFood : Session :=
  (withFood.start.after [.createCategory (.int 1) (.text "Rent")]).rollBack.after
    [.createCategory (.int 1) (.text "Food"), .deleteUser (.int 1), registration]

/-- The next category gets the id 2, which was given back, and not the id 1, which was used. -/
theorem ids_grow_withoutFood :
    let last := ((Call.createCategory (.int 2) (.text "Rent")).run.exec withoutFood).2
    (¬ (newSession.after [registration]).Has .categories 1 ∧ withFood.Has .categories 1 ∧
      ¬ withoutFood.Has .categories 1) ∧
      (¬ withoutFood.Has .categories 2 ∧ last.Has .categories 2) ∧
      (1 : Int) < 2 ∧ ¬ last.Has .categories 1 := by
  let rent := Call.createCategory (.int 1) (.text "Rent")
  have ha : newSession.Course (newSession.after [registration]) := .after .start rfl _
  have hregistered : (newSession.after [registration]).inBlock = false := by decide +kernel
  have hfood : withFood.inBlock = false := by decide +kernel
  have hwithout : withoutFood.inBlock = false := by decide +kernel
  have hin : (rent.run.exec withFood.start).2.standing = .inside withFood.database :=
    rent.standing_ok (by decide +kernel)
  have hb : withFood.Course withoutFood :=
    Session.Course.after (.undone .start hfood hin) (by decide +kernel) _
  have hfirst : ¬ (newSession.after [registration]).Has .categories 1 ∧
      withFood.Has .categories 1 ∧ ¬ withoutFood.Has .categories 1 := by decide +kernel
  have hlast : ¬ withoutFood.Has .categories 2 ∧
      ((Call.createCategory (.int 2) (.text "Rent")).run.exec withoutFood).2.Has
        .categories 2 := by decide +kernel
  refine ⟨hfirst, hlast, ?_, ?_⟩
  · exact (Session.Course.ids_grow rfl ha .categories).1 _ _ _ 1 2 (Call.standing_run _ hregistered)
      (Call.standing_run _ hwithout) hb hfirst.1 hfirst.2.1 hlast.1 hlast.2
  · exact (Session.Course.ids_grow rfl (ha.call _ (Call.standing_run _ hregistered))
      .categories).2 _ _ 1
      hb (Session.Course.start.call _ (Call.standing_run _ hwithout)) hfirst.2.1 hfirst.2.2

end Bookkeeping.Store
