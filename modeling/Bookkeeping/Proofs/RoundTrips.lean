import Bookkeeping.Proofs.Chronology
import Bookkeeping.Proofs.Layers

/-! # What is stored comes back

A record that is stored as a new row is given back as the row is read, and is read the same for as
long as the row stays as it is. What comes back is the record: the signs of zeros are lost, and a time
of creation is added if there was none. The moments of an entry come back if their offsets are zero or
at least a second, or if they have none.
-/

namespace Bookkeeping

open Calendar Store

/-- An entry that comes back for another: all is the same but the signs of zeros, and so is the time
of creation unless there was none. -/
structure Entry.Alike (e e' : Entry) : Prop where
  parts : e' = { e with amount := unsigned e.amount, rate := e.rate.map unsigned
                        rateToFixed := unsigned e.rateToFixed, createdAt := e'.createdAt }
  createdAt : e.createdAt.isSome = true → e'.createdAt = e.createdAt

/-- The moments of an entry are kept by their texts, and the time of its storing is a moment if it
becomes that of its creation. -/
structure Entry.Timed (now : String) (e : Entry) : Prop where
  date : e.date.kept = e.date
  createdAt : ∀ c, e.createdAt = some c → c.kept = c
  stored : e.createdAt = none → ∃ c : Moment, now = c.toText

end Bookkeeping

namespace Bookkeeping.Store

open Service Calendar Op

/-! ## Storing a row that can be read -/

/-- The table of a relation is there with all of its columns. -/
structure Layout.Has (ρ : Type) [Relation ρ] (layout : Layout) : Prop where
  tables : layout.tables = true
  columns : layout.columns (ρ := ρ) = Relation.columns

theorem Layout.has_full (ρ : Type) [Relation ρ] : Layout.full.Has ρ :=
  ⟨rfl, by simp [Layout.columns]⟩

/-- A row is taken as a new one: its table is there, its references fit into 64 bits, an id is left,
and no constraint is broken. It gets the id, and the ledger becomes `l`. -/
structure Session.Takes {ρ : Type} [Relation ρ] [SchemaOf ρ] (s : Session) (row : ρ) (id : Int)
    (l : Ledger) : Prop where
  layout : s.database.layout.Has ρ
  fits : (Relation.references row).all fitsInteger = true
  room : (Relation.table (ρ := ρ) s.database.ledger).isFull = false
  inserted : s.database.ledger.insert s.enforce row = .ok (id, l)

section

variable (ρ : Type) {α β : Type} [Persistent ρ α] {s : Session}

omit [Persistent ρ α] in
/-- A transaction that is not broken off leaves the ledger that its body makes within it. -/
theorem exec_transaction_unbroken {body : Op β} {b : β} {l : Ledger} (hb : s.breaks = none)
    (h : ∀ v : Session, v.inBlock = true → v.breaks = none → v.setting = s.setting →
      v.database = s.database → body.exec v = (.ok b, v.put l)) :
    ∃ t, (transaction body).exec s = (.ok b, t) ∧ t.database = s.database.withLedger l ∧
      t.TakesOver s := by
  cases hin : s.inBlock with
  | true =>
    exact ⟨_, (exec_transaction_inside body hin).trans (h s hin hb rfl rfl), rfl, rfl, rfl, hb⟩
  | false =>
    have hfree := (Session.closes_start hb).breaks
    have hbegun : (s.start.put l).TakesOver s.start := ⟨rfl, rfl, hfree⟩
    exact ⟨_, exec_transaction_ok hin hb (h s.start rfl hfree rfl rfl) ⟨rfl, hfree⟩, rfl,
      hbegun.commit hin⟩

/-- A statement that changes rows and is not broken off leaves the ledger that it makes. -/
theorem exec_write_unbroken (hb : s.breaks = none) (ht : s.database.layout.tables = true)
    (deleting : Bool) (run : Session → Ledger → Except Failure (Stored (β × Ledger))) {b : β}
    {l : Ledger}
    (hrun : ∀ v : Session, v.setting = s.setting → v.database = s.database →
      run v s.database.ledger = .ok (.ok (b, l))) :
    ∃ t, (write ρ deleting run).exec s = (.ok b, t) ∧ t.database = s.database.withLedger l ∧
      t.TakesOver s := by
  refine exec_transaction_unbroken hb fun v hin hv hset hd => ?_
  rw [← exec_transaction_inside _ hin, ← change, ← write,
    exec_write_inside ρ hin hv (by rw [hd, ht]), hd, hrun v hset hd]

variable {ρ} [SchemaOf ρ]

theorem Session.Takes.fitsInteger_id {row : ρ} {id : Int} {l : Ledger} (h : s.Takes row id l) :
    fitsInteger id = true := by
  rw [(inserted_of_ok h.inserted).id]
  simpa [Table.isFull] using h.room

variable [LawfulSchema ρ]

/-- A record whose row is taken is stored, and given back as its row is read. -/
theorem exec_insert_unbroken (hb : s.breaks = none) {a : α} {id : Int} {l : Ledger} {x : Row α}
    (h : s.Takes (Persistent.encode (ρ := ρ) s.now a) id l)
    (hx : Persistent.decode s.database.layout (⟨id, Persistent.encode s.now a, []⟩ : Row ρ)
      = .ok x) :
    ∃ t, (Store.insert ρ a).exec s = (.ok x, t) ∧ t.database = s.database.withLedger l := by
  have hrun (v : Session) (hset : v.setting = s.setting) (hv : v.database = s.database) :
      insertion ρ a v s.database.ledger = .ok (.ok (id, l)) := by
    have hnow : v.now = s.now := congrArg Setting.now hset
    have henforce : v.enforce = s.enforce := congrArg Setting.enforce hset
    simp only [insertion, hv, h.layout.columns, hnow, henforce, storable, h.fits, h.room, h.inserted,
      bne_self_eq_false, Bool.false_eq_true, if_false, if_true]
    rfl
  have hwrite (v : Session) (hin : v.inBlock = true) (hv : v.breaks = none)
      (hset : v.setting = s.setting) (hd : v.database = s.database) :
      (abandoning (write ρ false (insertion ρ a))).exec v = (.ok id, v.put l) := by
    rw [abandoning_ok, exec_write_inside ρ hin hv (by rw [hd, h.layout.tables]), hd, hrun v hset hd]
  obtain ⟨t, ht, hdb, htakes⟩ := exec_transaction_unbroken hb hwrite
  obtain ⟨u, hu⟩ := exec_find_unbroken ρ htakes.breaks (by rw [hdb]; exact h.layout.tables)
    (r := ⟨id, Persistent.encode s.now a, []⟩) h.fitsInteger_id
    (by rw [hdb]; exact find?_inserted ρ h.inserted) (by rw [hdb]; exact hx)
  refine ⟨u, by rw [insert_eq, exec_bind_ok ht, exec_bind_ok hu]; rfl, ?_⟩
  exact ((orderly_find (T := .calls t.setting) ρ _).database_eq rfl rfl hu).trans hdb

end

/-! ## Reading what was stored -/

theorem moment_kept (m : Moment) : StoredEntry.moment m.toText = .ok m.kept := by
  rw [StoredEntry.moment, Moment.ofIso_toText]
  rfl

theorem created_kept (m : Moment) : StoredEntry.created m.toText = .ok (some m.kept) := by
  have hne : m.toText ≠ "" := by
    intro h
    have hlen := congrArg String.length h
    rw [Moment.toText, String.length_append, String.length_append, String.length_append,
      Date.length_toText] at hlen
    simp at hlen
  rw [StoredEntry.created, if_neg (by simpa using hne), moment_kept]
  rfl

/-- A layout with the column of the other party is as good as the full one. -/
theorem StoredEntry.toEntry_of_target {layout : Layout} (h : layout.target = true)
    (r : Row StoredEntry) : toEntry layout r = toEntry .full r := by
  rw [toEntry, toEntry, h, Layout.full_target]

theorem Layout.Has.target {layout : Layout} (h : layout.Has StoredEntry) : layout.target = true := by
  have hnamed : (Relation.columns (ρ := StoredEntry)).any (fun c => c.name == "target") = true := rfl
  obtain ⟨c, hc, hname⟩ := List.any_eq_true.1 hnamed
  have hkept := List.filter_eq_self.1 h.columns c hc
  simpa [beq_iff_eq.1 hname] using hkept

/-- An entry that was read from fields is read alike once it is stored. -/
theorem toEntry_readEntry {fields : List (String × Value)} {item : Item Entry}
    (h : Entry.read fields = .ok item) {now : String} (ht : item.data.Timed now) :
    ∃ e, item.data.Alike e ∧ ∀ (id : Int) (layout : Layout), layout.Has StoredEntry →
      StoredEntry.toEntry layout ⟨id, StoredEntry.ofEntry now item.data, []⟩ = .ok ⟨id, e, []⟩ := by
  obtain ⟨⟨hamount, hrate, hfixed⟩, hdescription, htarget⟩ := parts_of_readEntry h
  obtain ⟨created, hcreated, hsame⟩ : ∃ created,
      StoredEntry.created ((item.data.createdAt.map Moment.toText).getD now) = .ok created ∧
        (item.data.createdAt.isSome = true → created = item.data.createdAt) := by
    cases hc : item.data.createdAt with
    | none =>
      obtain ⟨c, rfl⟩ := ht.stored hc
      exact ⟨_, created_kept c, fun h => by cases h⟩
    | some c => exact ⟨_, created_kept c, fun _ => congrArg some (ht.createdAt c hc)⟩
  have hrates : ∀ x ∈ item.data.rate.map unsigned, Number.isFinite x = true := by
    intro x hx
    obtain ⟨y, hy, rfl⟩ := Option.map_eq_some_iff.1 hx
    exact isFinite_unsigned (hrate y hy)
  let stored := StoredEntry.ofEntry now item.data
  refine ⟨{ stored.dated item.data.date.kept created with
      description := Text.trim stored.description
      target := stored.target.map Text.trim }, ⟨?_, hsame⟩, fun id layout hlayout => ?_⟩
  · simp only [stored, StoredEntry.dated, StoredEntry.ofEntry, ht.date, hdescription, htarget]
  · rw [StoredEntry.toEntry_of_target hlayout.target]
    exact (StoredEntry.toEntry_ok rfl).2 ⟨_, created, moment_kept _, hcreated,
      isFinite_unsigned hamount, hrates, isFinite_unsigned hfixed, rfl⟩

/-! ## Storing and finding -/

/-- Whether a record that is stored comes back as one of some records. If its row is taken, it is
stored and given back so; and whoever looks for its id while the row is as it was stored finds just
that. -/
def ComesBack (ρ : Type) {α : Type} [Persistent ρ α] [SchemaOf ρ] (s : Session) (a : α)
    (same : α → Prop) : Prop :=
  ∀ (id : Int) (l : Ledger), s.Takes (Persistent.encode (ρ := ρ) s.now a) id l →
    ∃ b t, (Store.insert ρ a).exec s = (.ok ⟨id, b, []⟩, t) ∧ same b ∧
      t.database = s.database.withLedger l ∧
      ∀ v : Session, v.breaks = none → v.database.layout.Has ρ →
        (Relation.table (ρ := ρ) v.database.ledger).find? id
          = (Relation.table (ρ := ρ) t.database.ledger).find? id →
        ∃ u, (find ρ (.int id)).exec v = (.ok (some ⟨id, b, []⟩), u)

theorem comesBack_of_decode {ρ : Type} {α : Type} [Persistent ρ α] [SchemaOf ρ] [LawfulSchema ρ]
    {s : Session} (hb : s.breaks = none) {a b : α} {same : α → Prop} (hsame : same b)
    (hdecode : ∀ (id : Int) (layout : Layout), layout.Has ρ →
      Persistent.decode layout (⟨id, Persistent.encode (ρ := ρ) s.now a, []⟩ : Row ρ)
        = .ok ⟨id, b, []⟩) :
    ComesBack ρ s a same := by
  intro id l htakes
  obtain ⟨t, ht, hdb⟩ := exec_insert_unbroken hb htakes (hdecode id _ htakes.layout)
  refine ⟨b, t, ht, hsame, hdb, fun v hv hlayout hstill => ?_⟩
  have hfound : (Relation.table (ρ := ρ) v.database.ledger).find? id
      = some ⟨id, Persistent.encode s.now a, []⟩ := by
    rw [hstill, hdb]
    exact find?_inserted ρ htakes.inserted
  exact exec_find_unbroken ρ hv hlayout.tables (r := ⟨id, Persistent.encode s.now a, []⟩)
    htakes.fitsInteger_id hfound (hdecode id _ hlayout)

/-- What was read from fields and is stored in any of the tables comes back: accounts, currencies and
categories as they were, sources but for the sign of a zero, and entries alike if their times are kept
by their texts. -/
theorem records_come_back {s : Session} (hb : s.breaks = none) (fields : List (String × Value)) :
    (∀ item, User.read fields = .ok item → ComesBack User s item.data fun u => u = item.data) ∧
    (∀ item, Currency.read fields = .ok item →
      ComesBack Currency s item.data fun c => c = item.data) ∧
    (∀ item, Category.read fields = .ok item →
      ComesBack Category s item.data fun c => c = item.data) ∧
    (∀ item, Source.read fields = .ok item →
      ComesBack Source s item.data fun x =>
        x = { item.data with amount := unsigned item.data.amount }) ∧
    ∀ item, Entry.read fields = .ok item → item.data.Timed s.now →
      ComesBack StoredEntry s item.data item.data.Alike := by
  refine ⟨fun _ h => ?_, fun _ h => ?_, fun _ h => ?_, fun _ h => ?_, fun _ h ht => ?_⟩
  · exact comesBack_of_decode hb rfl fun id _ _ => reread_newUser h id
  · exact comesBack_of_decode hb rfl fun id _ _ => reread_newCurrency h id
  · exact comesBack_of_decode hb rfl fun id _ _ => reread_newCategory h id
  · exact comesBack_of_decode hb rfl fun id _ _ => reread_newSource h id
  · obtain ⟨e, halike, hdecode⟩ := toEntry_readEntry h ht
    exact comesBack_of_decode hb halike hdecode

/-- Tea that was had at a moment, for nothing. -/
def teaHad (date : Moment) : Entry where
  owner := 1
  description := "Tea"
  target := some ""
  category := 1
  amount := -0.0
  date := date
  currency := 1
  kind := .spend
  source := 1
  rate := some (1 / 3)
  rateToFixed := 1

theorem read_teaHad (date : Moment) : ∃ item : Item Entry,
    Entry.read (Record.fields (α := Entry) ⟨some 1, teaHad date⟩) = .ok item ∧
      item.data = teaHad date := by
  have hzero : Number.isFinite (-0.0) = true := by decide +kernel
  have hone : Number.isFinite 1 = true := by decide +kernel
  have hthird : Number.isFinite (1 / 3) = true := by decide +kernel
  have hread := (reread_entry (r := ⟨1, teaHad date, []⟩) rfl).2
    ⟨hzero, fun x hx => Option.some.inj hx ▸ hthird, hone, rfl⟩
  obtain ⟨item, hitem, hdata⟩ := (reread_ok rfl).1 hread
  refine ⟨item, hitem, ?_⟩
  have htrimmed : teaHad date = { teaHad date with
      description := Text.trim "Tea", target := (some "").map Text.trim } := by
    rw [show Text.trim "Tea" = "Tea" by decide +kernel,
      show Option.map Text.trim (some "") = some "" by decide +kernel]
    rfl
  rw [htrimmed]
  exact (congrArg Row.data hdata).symm

/-- Tea that was had behind universal time, to the microsecond, comes back after a first entry. -/
theorem tea_comes_back :
    let s := newSession.after firstSpending
    ∃ date : Moment, date.toText = "2024-01-25T09:30:00.000250-03:30" ∧
      ∃ e t, (Store.insert StoredEntry (teaHad date)).exec s = (.ok ⟨2, e, []⟩, t) ∧
        (teaHad date).Alike e ∧
        ∃ u, (find StoredEntry (.int 2)).exec { newSession with database := t.database }
          = (.ok (some ⟨2, e, []⟩), u) := by
  intro s
  let tea := teaHad ⟨⟨2024, 1, 25, by decide⟩,
    { hour := 9, minute := 30, second := 0, micro := 250 }, some ⟨-12600000000, by decide⟩⟩
  have htimed : tea.Timed s.now :=
    { date := by decide
      createdAt := fun c hc => absurd hc (Option.some_ne_none c).symm
      stored := fun _ => ⟨⟨⟨2024, 1, 25, by decide⟩,
        { hour := 9, minute := 30, second := 0, micro := 0 }, none⟩, by decide +kernel⟩ }
  have hlayout : s.database.layout = .full := by decide +kernel
  have hbreaks : s.breaks = none := by decide +kernel
  have hfits : (Relation.references (Persistent.encode (ρ := StoredEntry) s.now tea)).all fitsInteger
      = true := by decide +kernel
  have hroom : (Relation.table (ρ := StoredEntry) s.database.ledger).isFull = false := by
    decide +kernel
  have hins : ((s.database.ledger.insert s.enforce
      (Persistent.encode (ρ := StoredEntry) s.now tea)).toOption.map Prod.fst) = some 2 := by
    decide +kernel
  obtain ⟨item, hread, hitem⟩ := read_teaHad tea.date
  clear_value s
  cases hinsert : s.database.ledger.insert s.enforce
      (Persistent.encode (ρ := StoredEntry) s.now tea) with
  | error b => simp [hinsert, Except.toOption] at hins
  | ok stored =>
    obtain ⟨id, l⟩ := stored
    obtain rfl : id = 2 := by simpa [hinsert, Except.toOption] using hins
    have hdata : item.data = tea := hitem
    obtain ⟨e, t, ht, halike, hdb, hfind⟩ := (records_come_back hbreaks _).2.2.2.2 item hread
      (hdata ▸ htimed) 2 l (hdata ▸ ⟨hlayout ▸ Layout.has_full _, hfits, hroom, hinsert⟩)
    rw [hdata] at ht halike
    refine ⟨tea.date, by decide +kernel, e, t, ht, halike,
      hfind { newSession with database := t.database } rfl ?_ rfl⟩
    show t.database.layout.Has StoredEntry
    rw [hdb]
    exact hlayout ▸ Layout.has_full _

/-- An offset of five microseconds is stored but not read. -/
theorem short_offset_is_lost :
    let s := newSession.after firstSpending
    let tea := teaHad ⟨⟨2024, 1, 25, by decide⟩, .midnight, some ⟨5, by decide⟩⟩
    (∃ item : Item Entry, Entry.read (Record.fields (α := Entry) ⟨some 1, tea⟩) = .ok item ∧
      item.data = tea) ∧
    ∃ a t, (Store.insert StoredEntry tea).exec s = (.ok a, t) ∧
      a.data.date.offset = some .utc ∧ tea.date.offset ≠ some .utc := by
  intro s tea
  refine ⟨read_teaHad _, ?_⟩
  have hlost : (match ((Store.insert StoredEntry tea).exec s).1 with
      | .ok a => a.data.date.offset == some .utc
      | .error _ => false) = true := by decide +kernel
  cases h : (Store.insert StoredEntry tea).exec s with
  | mk r t =>
    rw [h] at hlost
    cases r with
    | error e => cases hlost
    | ok a => exact ⟨a, t, rfl, beq_iff_eq.1 hlost, by decide⟩

end Bookkeeping.Store
