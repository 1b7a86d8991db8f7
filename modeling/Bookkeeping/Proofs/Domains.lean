import Bookkeeping.Proofs.Hashes
import Bookkeeping.Proofs.Ownership
import Bookkeeping.Proofs.SchemaUpkeep

/-! # Domains of values

What calls store has passed their checks, and nothing that is done to a row later takes a value out
of its domain: names stay names, rates stay above zero, balances stay finite, and an entry keeps the
rate that it needs for the source it is about. So every row can be read at any time.
-/

namespace Bookkeeping.Store

/-! ## Columns -/

namespace Column

variable {α : Type} {table : TableName} {name : String} {P : α → Prop}

/-- Whether a property of data outlives a cell that is put into a column. -/
def Keeps (c : Column α) (P : α → Prop) (cell : Cell) : Prop :=
  ∀ a b, P a → c.put cell a = .ok (some b) → P b

theorem keeps_integer {get : α → Int} {put : Int → α → α} (h : ∀ n a, P a → P (put n a))
    (cell : Cell) : (integer table name get put).Keeps P cell := by
  intro a b ha hb
  cases cell <;> cases hb
  exact h _ a ha

theorem keeps_optionalInteger {get : α → Option Int} {put : Option Int → α → α}
    (h : ∀ n a, P a → P (put n a)) (cell : Cell) :
    (optionalInteger name get put).Keeps P cell := by
  intro a b ha hb
  cases cell <;> cases hb <;> exact h _ a ha

theorem keeps_flag {get : α → Bool} {put : Bool → α → α} (h : ∀ n a, P a → P (put n a))
    (cell : Cell) : (flag table name get put).Keeps P cell := by
  intro a b ha hb
  simp only [flag] at hb
  split at hb <;> cases hb <;> exact h _ a ha

theorem keeps_real {get : α → Float} {put : Float → α → α} (h : ∀ x a, P a → P (put x a))
    (cell : Cell) : (real table name get put).Keeps P cell := by
  intro a b ha hb
  cases cell <;> cases hb
  exact h _ a ha

theorem keeps_text {get : α → String} {put : String → α → α} {cell : Cell}
    (h : ∀ s, cell = .text s → ∀ a, P a → P (put s a)) : (text table name get put).Keeps P cell := by
  intro a b ha hb
  cases cell <;> cases hb
  exact h _ rfl a ha

/-- Storing a cell in a row changes its data as far as the column has room for the cell. -/
theorem Keeps.store {c : Column α} {cell : Cell} {r x : Row α}
    (h : c.Keeps P (cell.convert c.type)) (hr : P r.data) (hx : c.store cell r = .ok x) :
    P x.data := by
  obtain ⟨stored, hput, hx⟩ := Service.except_bind_ok_iff.1 hx
  cases stored with
  | some a =>
    cases hx
    exact h _ _ hr hput
  | none =>
    cases hx
    exact hr

end Column

/-! ## Ledgers whose values were checked -/

/-- A ledger with proper names and readable hashes, in which entries have amounts and rates above
zero. -/
structure Vetted (l : Ledger) : Prop where
  users : ∀ r ∈ l.users.rows, Account r.data
  currencies : ∀ r ∈ l.currencies.rows, ProperName r.data.name
  categories : ∀ r ∈ l.categories.rows, ProperName r.data.name
  sources : ∀ r ∈ l.sources.rows, ProperName r.data.name
  entries : ∀ r ∈ l.entries.rows, Priced r.data

theorem vetted_empty : Vetted {} :=
  ⟨by simp, by simp, by simp, by simp, by simp⟩

/-- What is asked of the rows of one table in a vetted ledger. -/
class Vettable (ρ : Type) [Relation ρ] where
  Passes : ρ → Prop
  passes {l : Ledger} (h : Vetted l) : ∀ r ∈ (Relation.table (ρ := ρ) l).rows, Passes r.data
  withTable {l : Ledger} (h : Vetted l) (t : Table ρ) (ht : ∀ r ∈ t.rows, Passes r.data) :
    Vetted (Relation.withTable l t)

instance : Vettable User where
  Passes := Account
  passes h := h.users
  withTable h _ ht := { h with users := ht }

instance : Vettable Currency where
  Passes c := ProperName c.name
  passes h := h.currencies
  withTable h _ ht := { h with currencies := ht }

instance : Vettable Category where
  Passes c := ProperName c.name
  passes h := h.categories
  withTable h _ ht := { h with categories := ht }

instance : Vettable Source where
  Passes s := ProperName s.name
  passes h := h.sources
  withTable h _ ht := { h with sources := ht }

instance : Vettable StoredEntry where
  Passes := Priced
  passes h := h.entries
  withTable h _ ht := { h with entries := ht }

section

variable {ρ : Type} [Relation ρ] [Vettable ρ] {l m : Ledger} {enforce : Bool}

theorem Vetted.insert (h : Vetted l) {a : ρ} {n : Int} (ha : Vettable.Passes a)
    (hi : l.insert enforce a = .ok (n, m)) : Vetted m := by
  rw [(inserted_of_ok hi).ledger]
  refine Vettable.withTable h _ fun x hx => ?_
  rcases Table.mem_insert.1 hx with hx | rfl
  · exact Vettable.passes h x hx
  · exact ha

theorem Vetted.update (h : Vetted l) {p : Row ρ → Bool} {n : Nat} {columns : List (Column ρ)}
    {cells : List (String × Cell)} (hcells : ∀ c ∈ columns, ∀ cell,
      cells.lookup c.name = some cell → c.Keeps Vettable.Passes (cell.convert c.type))
    (hu : l.update enforce p (Ledger.assigned columns cells) = .ok (n, m)) : Vetted m := by
  rcases replaced_of_ok hu with rfl | ⟨old, x, hx, hr⟩
  · exact h
  have hpasses : Vettable.Passes x.data :=
    assigned_induct (P := fun y => Vettable.Passes y.data) hx (Vettable.passes h old hr.mem)
      fun c hc cell _ _ hcell ha hb => (hcells c hc cell hcell).store ha hb
  rw [hr.ledger]
  refine Vettable.withTable h _ fun y hy => ?_
  rcases Table.mem_replaced.1 hy with ⟨rfl, -⟩ | ⟨hy, -⟩
  · exact hpasses
  · exact Vettable.passes h y hy

theorem Vetted.erase (h : Vetted l) (p : Row ρ → Bool) :
    Vetted (Relation.withTable l ((Relation.table (ρ := ρ) l).erase p)) :=
  Vettable.withTable h _ fun r hr => Vettable.passes h r (Table.mem_erase.1 hr).1

/-- Rows may change as long as they keep what is asked of them. -/
theorem Vetted.change (h : Vetted l) {p : Row ρ → Bool} {f : Row ρ → Row ρ}
    (hf : ∀ r, Vettable.Passes r.data → Vettable.Passes (f r).data) :
    Vetted (Relation.withTable l ((Relation.table (ρ := ρ) l).change p f)) := by
  refine Vettable.withTable h _ fun x hx => ?_
  obtain ⟨o, ho, rfl⟩ := Table.mem_change.1 hx
  split
  · exact hf o (Vettable.passes h o ho)
  · exact Vettable.passes h o ho

end

/-! ### Removing rows -/

section

variable {l m : Ledger}

theorem Vetted.removeCurrencies (h : Vetted l) {p : Row Currency → Bool}
    (hr : l.removeCurrencies p = .ok m) : Vetted m := by
  obtain ⟨t, ht, hr⟩ := Service.except_bind_ok_iff.1 hr
  cases hr
  obtain rfl := removeUnused_ok ht
  exact (h.erase (ρ := Currency) p).change (ρ := User)
    (f := fun r => { r with data := { r.data with fixedCurrency := none } })
    fun _ hr => ⟨hr.name, hr.hash⟩

theorem Vetted.removeUsers (h : Vetted l) {p : Row User → Bool} (hr : l.removeUsers p = .ok m) :
    Vetted m := by
  unfold Ledger.removeUsers at hr
  obtain ⟨l₂, h₂, hr₂⟩ := Service.except_bind_ok_iff.1 hr
  obtain ⟨l₃, h₃, hr₃⟩ := Service.except_bind_ok_iff.1 hr₂
  obtain ⟨l₄, h₄, hr₄⟩ := Service.except_bind_ok_iff.1 hr₃
  cases hr₄
  obtain rfl := removeSources_ok h₂
  obtain rfl := removeCategories_ok h₃
  let gone (id : Int) : Bool := l.users.rows.any fun u => p u && u.id == id
  have howned := ((h.erase (ρ := StoredEntry) fun r => gone r.data.owner).erase (ρ := Source)
    fun r => gone r.data.owner).erase (ρ := Category) fun r => gone r.data.owner
  exact (howned.removeCurrencies h₄).erase (ρ := User) p

end

/-! ### Calls -/

section

variable (ρ : Type) {g : Setting} {revises : List (String × Cell) → Prop}

theorem withstands_vetted [Relation ρ] [Vettable ρ]
    (hcells : ∀ cells, revises cells → ∀ c ∈ Relation.columns (ρ := ρ), ∀ cell,
      cells.lookup c.name = some cell → c.Keeps Vettable.Passes (cell.convert c.type))
    (hremove : ∀ l m (p : Row ρ → Bool), Vetted l → Relation.remove l p = .ok m → Vetted m) :
    Withstands g (fun db => Vetted db.ledger) ρ Vettable.Passes revises where
  insert db a n l hi ha hl := Vetted.insert hi ha hl
  update db cells p n l hi hc hl :=
    Vetted.update hi (fun c hmem => hcells cells hc c (columns_subset db.layout c hmem)) hl
  delete db c n l hi hl := by
    rcases remove_ok hl with hl | rfl
    · exact hremove _ _ _ hi hl
    · exact Vetted.erase hi _

theorem withstandsOwned_vetted [Owned ρ] [Vettable ρ]
    (hcells : ∀ cells, revises cells → ∀ c ∈ Relation.columns (ρ := ρ), ∀ cell,
      cells.lookup c.name = some cell → c.Keeps Vettable.Passes (cell.convert c.type))
    (hremove : ∀ l m (p : Row ρ → Bool), Vetted l → Relation.remove l p = .ok m → Vetted m) :
    WithstandsOwned g (fun db => Vetted db.ledger) ρ Vettable.Passes revises where
  toWithstands := withstands_vetted ρ hcells hremove
  deleteByUser db c n l hi hl := by
    rcases remove_ok hl with hl | rfl
    · exact hremove _ _ _ hi hl
    · exact Vetted.erase hi _

end

/-- The column that holds the names of rows. -/
structure Column.Names {ρ : Type} [Named ρ] (c : Column ρ) : Prop where
  name : c.name = "name"
  type : c.type = .text
  spells : ∀ cell a b, c.put cell a = .ok (some b) → cell = .text (Named.rowName b)

theorem Column.names_text {ρ : Type} [Named ρ] {table : TableName} {get : ρ → String}
    {put : String → ρ → ρ} (h : ∀ s a, Named.rowName (put s a) = s) :
    (Column.text table "name" get put).Names where
  name := rfl
  type := rfl
  spells cell a b hb := by
    cases cell <;> cases hb
    rw [h]

/-- Names stay proper in a table whose columns either hold the names or leave them as they are. -/
theorem vetted_named (ρ : Type) [Named ρ] [Vettable ρ] {g : Setting}
    (hpasses : (Vettable.Passes : ρ → Prop) = fun a => ProperName (Named.rowName a))
    (hcolumns : ∀ c ∈ Relation.columns (ρ := ρ),
      c.Names ∨ ∀ n cell, c.Keeps (Named.rowName · = n) cell)
    (hremove : ∀ l m (p : Row ρ → Bool), Vetted l → Relation.remove l p = .ok m → Vetted m) :
    WithstandsNamed g (fun db => Vetted db.ledger) ρ := by
  rw [WithstandsNamed, ← hpasses]
  refine withstandsOwned_vetted ρ (fun cells hc c hmem cell hcell => ?_) hremove
  rw [hpasses]
  intro a b ha hb
  rcases hcolumns c hmem with hnames | hkeeps
  · rw [hnames.name] at hcell
    obtain ⟨n, rfl, hn⟩ := hc cell hcell
    rw [hnames.type] at hb
    cases hnames.spells _ a b hb
    exact hn
  · exact (congrArg ProperName (hkeeps _ _ a b rfl hb)).mpr ha

section

variable {g : Setting}

theorem vetted_users (hg : g.scheme.Compact) :
    Withstands g (fun db => Vetted db.ledger) User Account (RevisesAccount g) := by
  refine withstands_vetted User (fun cells hc => ?_) fun _ _ _ h hr => h.removeUsers hr
  simp only [Relation.columns, List.forall_mem_cons, List.not_mem_nil, false_imp_iff, implies_true,
    and_true]
  refine ⟨fun cell hcell => ?_, fun cell hcell => ?_, fun _ _ => ?_, fun _ _ => ?_⟩
  · cases hc.name.symm.trans hcell
  · obtain ⟨hash, rfl, n, v, password, hp, rfl⟩ := hc.hash cell hcell
    refine Column.keeps_text fun s hs a ha => ?_
    cases hs
    exact ⟨ha.name, hg.read hp⟩
  · exact Column.keeps_optionalInteger (fun _ _ ha => ⟨ha.name, ha.hash⟩) _
  · exact Column.keeps_flag (fun _ _ ha => ⟨ha.name, ha.hash⟩) _

theorem vetted_currencies : WithstandsNamed g (fun db => Vetted db.ledger) Currency := by
  refine vetted_named Currency rfl ?_ fun _ _ _ h hr => h.removeCurrencies hr
  simp only [Relation.columns, List.forall_mem_cons, List.not_mem_nil, false_imp_iff, implies_true,
    and_true]
  exact ⟨.inr fun _ => Column.keeps_integer fun _ _ => id, .inl (Column.names_text fun _ _ => rfl),
    .inr fun _ => Column.keeps_real fun _ _ => id, .inr fun _ => Column.keeps_flag fun _ _ => id⟩

theorem vetted_categories : WithstandsNamed g (fun db => Vetted db.ledger) Category := by
  refine vetted_named Category rfl ?_ fun _ _ p h hr => removeCategories_ok hr ▸ h.erase p
  simp only [Relation.columns, List.forall_mem_cons, List.not_mem_nil, false_imp_iff, implies_true,
    and_true]
  exact ⟨.inr fun _ => Column.keeps_integer fun _ _ => id, .inl (Column.names_text fun _ _ => rfl),
    .inr fun _ => Column.keeps_flag fun _ _ => id⟩

theorem vetted_sources : WithstandsNamed g (fun db => Vetted db.ledger) Source := by
  refine vetted_named Source rfl ?_ fun _ _ p h hr => removeSources_ok hr ▸ h.erase p
  simp only [Relation.columns, List.forall_mem_cons, List.not_mem_nil, false_imp_iff, implies_true,
    and_true]
  exact ⟨.inr fun _ => Column.keeps_integer fun _ _ => id, .inl (Column.names_text fun _ _ => rfl),
    .inr fun _ => Column.keeps_integer fun _ _ => id,
    .inr fun _ => Column.keeps_real fun _ _ => id, .inr fun _ => Column.keeps_flag fun _ _ => id⟩

/-- Cells that only mark an entry change nothing but its flag. -/
theorem keeps_marked {P : StoredEntry → Prop} {cells : List (String × Cell)} {cell : Cell}
    {c : Column StoredEntry} (hc : OnlyMarks cells) (hmem : c ∈ Relation.columns)
    (hcell : cells.lookup c.name = some cell)
    (h : ∀ archived e, P e → P { e with archived }) : c.Keeps P (cell.convert c.type) := by
  have hname : c.name = "archived" := by
    by_contra hne
    rw [hc c.name hne] at hcell
    cases hcell
  simp only [Relation.columns, List.mem_cons, List.not_mem_nil, or_false] at hmem
  rcases hmem with rfl | rfl | rfl | rfl | rfl | rfl | rfl | rfl | rfl | rfl | rfl | rfl | rfl | rfl
  all_goals first
    | exact Column.keeps_flag h _
    | exact absurd hname (by decide)

theorem vetted_entries :
    WithstandsOwned g (fun db => Vetted db.ledger) StoredEntry Priced OnlyMarks := by
  refine withstandsOwned_vetted StoredEntry (fun cells hc c hmem cell hcell => ?_) fun _ _ p h hr => ?_
  · exact keeps_marked hc hmem hcell fun _ _ ha => ⟨ha.amount, ha.rate, ha.rateToFixed⟩
  · cases hr
    exact h.erase p

/-- What calls look over before they store it is still in order after any call. -/
theorem lasting_vetted (hg : g.scheme.Compact) : Lasting g fun db => Vetted db.ledger where
  users := vetted_users hg
  currencies := vetted_currencies
  categories := vetted_categories
  sources := vetted_sources
  entries := vetted_entries.mono (fun _ h => h.toPriced) fun _ h => h
  release db p f hf hi := Vetted.change (ρ := User) hi fun r hr => by
    rw [hf]
    exact ⟨hr.name, hr.hash⟩
  shift db p d hi := Vetted.change (ρ := Source) hi fun _ hr => hr

end

/-! ## What calls lead to -/

open Service

/-- A database that calls can lead to in sessions that keep passwords as short texts. -/
inductive Serviceable : Database → Prop
  | migrated : Serviceable .migrated
  | call {s : Session} {c : Call} (hd : Serviceable s.database) (ho : s.inBlock = false)
      (hc : c.Typed) (hs : s.scheme.Compact) : Serviceable (c.run.exec s).2.database

namespace Serviceable

variable {db : Database}

theorem reachable (h : Serviceable db) : Reachable db := by
  induction h with
  | migrated => exact .migrated
  | call _ ho hc _ ih => exact .call ih ho hc

theorem vetted (h : Serviceable db) : Vetted db.ledger := by
  induction h with
  | migrated => exact vetted_empty
  | @call s c _ ho _ hs ih => exact c.keeps (lasting_vetted hs) ho ih

/-- Any calls at all may be made one after the other. -/
theorem after {s : Session} (hd : Serviceable s.database) (ho : s.inBlock = false)
    (hs : s.scheme.Compact) {calls : List Call} (hc : ∀ c ∈ calls, c.Typed) :
    Serviceable (s.after calls).database := by
  induction calls generalizing s with
  | nil => exact hd
  | cons c rest ih =>
    exact ih (.call hd ho (hc c List.mem_cons_self) hs) (c.atomic s ho).1
      (by rwa [c.scheme_run]) fun c hc' => hc c (List.mem_cons_of_mem _ hc')

end Serviceable

/-- The domains of the values in a ledger, with those that depend on other rows. -/
structure Ledger.InDomain (l : Ledger) : Prop where
  /-- Every cell is of the type of its column. -/
  proper : (∀ r ∈ l.users.rows, r.odd = []) ∧ (∀ r ∈ l.currencies.rows, r.odd = []) ∧
    (∀ r ∈ l.categories.rows, r.odd = []) ∧ (∀ r ∈ l.sources.rows, r.odd = []) ∧
    ∀ r ∈ l.entries.rows, r.odd = []
  usernames : ∀ r ∈ l.users.rows, ProperName r.data.username
  names : (∀ r ∈ l.currencies.rows, ProperName r.data.name) ∧
    (∀ r ∈ l.categories.rows, ProperName r.data.name) ∧
    ∀ r ∈ l.sources.rows, ProperName r.data.name
  rates : ∀ r ∈ l.currencies.rows, IsPositive r.data.rate
  balances : ∀ r ∈ l.sources.rows, Number.isFinite r.data.amount = true
  prices : ∀ e ∈ l.entries.rows, Priced e.data
  /-- A transfer is between two sources, has a rate, and is in the currency of the first one. -/
  transfers : ∀ e ∈ l.entries.rows, e.data.kind.isTransfer = true →
    (∃ id, e.data.secondary = some id ∧ id ≠ e.data.source) ∧ e.data.rate.isSome = true ∧
      ∃ s ∈ l.sources.rows, s.id = e.data.source ∧ s.data.currency = e.data.currency
  /-- Any other entry has a rate if it is not in the currency of its source. -/
  conversions : ∀ e ∈ l.entries.rows, e.data.kind.isTransfer = false →
    ∃ s ∈ l.sources.rows, s.id = e.data.source ∧
      (s.data.currency ≠ e.data.currency → e.data.rate.isSome = true)

/-- Whether every row of every table can be read. -/
structure Database.Legible (db : Database) : Prop where
  users : ∀ r ∈ db.ledger.users.rows, ∃ a, Persistent.decode (ρ := User) db.layout r = .ok a
  currencies : ∀ r ∈ db.ledger.currencies.rows,
    ∃ a, Persistent.decode (ρ := Currency) db.layout r = .ok a
  categories : ∀ r ∈ db.ledger.categories.rows,
    ∃ a, Persistent.decode (ρ := Category) db.layout r = .ok a
  sources : ∀ r ∈ db.ledger.sources.rows, ∃ a, Persistent.decode (ρ := Source) db.layout r = .ok a
  entries : ∀ r ∈ db.ledger.entries.rows,
    ∃ a, Persistent.decode (ρ := StoredEntry) db.layout r = .ok a

theorem Account.readable {r : Row User} (h : Account r.data) (ho : r.odd = []) :
    ∃ a, reread r = .ok a := by
  obtain ⟨k, hk⟩ := h.hash
  exact ⟨_, (reread_user ho).2 ⟨_, k, h.name.read, hk, rfl⟩⟩

/-- The shifts of an entry are known only if it has the rate that they take. -/
theorem rate_of_shifts {e : Entry} {p : Option Source} {shifts : List Shift}
    (h : (e.shifts p).mapError Failure.misuse = .ok shifts)
    (hneeds : e.kind.isTransfer = true ∨ ∀ s ∈ p, s.currency ≠ e.currency) :
    e.rate.isSome = true := by
  cases hr : e.rate with
  | some x => rfl
  | none =>
    unfold Entry.shifts at h
    rw [hr] at h
    cases hk : e.kind.isTransfer with
    | true => simp [hk, Entry.converted, bind, Except.bind, Except.mapError] at h
    | false =>
      rw [hk, Bool.false_eq_true, false_or] at hneeds
      cases p with
      | none => simp [hk, Except.mapError] at h
      | some s =>
        have hne : (e.currency == s.currency) = false := by simpa using (hneeds s rfl).symm
        simp [hk, hne, Entry.converted, bind, Except.bind, Except.mapError] at h

theorem rate_of_effects {l : Ledger} {e : Row StoredEntry} (ho : e.odd = []) {shifts : List Shift}
    (h : l.effects e = .ok shifts)
    (hneeds : e.data.kind.isTransfer = true ∨ l.currencyOf e.data.source ≠ some e.data.currency) :
    e.data.rate.isSome = true := by
  cases ha : StoredEntry.toEntry .full e with
  | error f =>
    rw [Ledger.effects, ha] at h
    cases h
  | ok a =>
    rw [effects_of_toEntry ha] at h
    have hsame : a.data.kind = e.data.kind ∧ a.data.currency = e.data.currency ∧
        a.data.source = e.data.source ∧ a.data.rate = e.data.rate := by
      obtain ⟨date, createdAt, -, -, -, -, -, rfl⟩ := (StoredEntry.toEntry_ok ho).1 ha
      exact ⟨rfl, rfl, rfl, rfl⟩
    obtain ⟨hkind, hcurrency, hsource, hrate⟩ := hsame
    rw [← hrate]
    refine rate_of_shifts h ?_
    rw [hkind, hcurrency, hsource]
    refine hneeds.imp_right fun hne s hs hsame => hne ?_
    obtain ⟨r, hr, rfl⟩ := Option.map_eq_some_iff.1 hs
    rw [Ledger.currencyOf, hr, ← hsame]
    rfl

/-- The ledger of a reachable database keeps to the domains of its values, and every row of it can be
read. -/
theorem Serviceable.inDomain {db : Database} (h : Serviceable db) :
    db.ledger.InDomain ∧ db.Legible := by
  obtain ⟨hlayout, hi⟩ := h.reachable.intact
  have hv := h.vetted
  have hsource {e : Row StoredEntry} (he : e ∈ db.ledger.entries.rows) :
      ∃ s ∈ db.ledger.sources.rows, s.id = e.data.source ∧
        db.ledger.currencyOf e.data.source = some s.data.currency := by
    obtain ⟨s, hs, hid, -⟩ := (hi.filed e he).source
    exact ⟨s, hs, hid, hid ▸ currencyOf_of_mem hi.sources.tidy hs⟩
  refine ⟨?_, ?_⟩
  · exact
      { proper := ⟨hi.users.proper, hi.currencies.tidy.proper, hi.categories.tidy.proper,
          hi.sources.tidy.proper, hi.entries.proper⟩
        usernames := fun r hr => (hv.users r hr).name
        names := ⟨hv.currencies, hv.categories, hv.sources⟩
        rates := fun r hr => by
          obtain ⟨a, ha⟩ := hi.currencies.readable r hr
          obtain ⟨n, -, hfinite, hpos, -⟩ := (reread_currency (hi.currencies.tidy.proper r hr)).1 ha
          exact ⟨hfinite, hpos⟩
        balances := fun r hr => by
          obtain ⟨a, ha⟩ := hi.sources.readable r hr
          obtain ⟨n, -, hfinite, -⟩ := (reread_source (hi.sources.tidy.proper r hr)).1 ha
          exact hfinite
        prices := hv.entries
        -- an entry whose shifts are known has the rate that they are computed with
        transfers := fun e he hk => by
          obtain ⟨shifts, hshifts⟩ := (hi.filed e he).effects
          obtain ⟨s, hs, hid, hcurrency⟩ := hsource he
          rw [(hi.filed e he).held hk, Option.some.injEq] at hcurrency
          exact ⟨(hi.filed e he).apart hk, rate_of_effects (hi.entries.proper e he) hshifts (.inl hk),
            s, hs, hid, hcurrency.symm⟩
        conversions := fun e he _ => by
          obtain ⟨shifts, hshifts⟩ := (hi.filed e he).effects
          obtain ⟨s, hs, hid, hcurrency⟩ := hsource he
          refine ⟨s, hs, hid, fun hne => ?_⟩
          refine rate_of_effects (hi.entries.proper e he) hshifts (.inr fun hsame => hne ?_)
          exact Option.some.inj (hcurrency.symm.trans hsame) }
  · constructor <;> rw [hlayout]
    · exact fun r hr => (hv.users r hr).readable (hi.users.proper r hr)
    · exact hi.currencies.readable
    · exact hi.categories.readable
    · exact hi.sources.readable
    · exact fun e he => (hi.filed e he).readable

/-- A first entry, and one that moves money into a source that is held in another currency. -/
def firstExchange : List Call :=
  firstSpending ++ [.createCurrency (.int 1) (.text "USD") (.float 0.5),
    .createSource (.int 1) (.text "Bank") (.int 2) (.float 0),
    .createEntry (.int 1)
      (some { description := .text "Dollars", category := .int 1, amount := .float 5,
              date := .text "2024-01-25", currency := .int 1, kind := .text "convert",
              source := .int 1, secondary := .int 2, rate := .float 2 }) []]

theorem typed_firstExchange : ∀ c ∈ firstExchange, c.Typed := by
  simp [firstExchange, firstSpending, registration, Call.Typed, Call.ids, EntryRequest.ids,
    Value.isId, Value.isNull, Value.id?]

/-- A scheme that keeps passwords as they are keeps them short. -/
theorem compact_newSession : newSession.scheme.Compact :=
  fun _ password h => (Text.length_le_bytes password).trans (h.trans (by decide))

/-- After money was spent and moved, every value is in its domain, and the entries can be read. -/
theorem inDomain_after_firstExchange :
    (newSession.after firstExchange).database.ledger.InDomain ∧
      (newSession.after firstExchange).database.Legible ∧
      (newSession.after firstExchange).database.ledger.entries.rows.map (·.data.kind)
        = [.spend, .convert] := by
  obtain ⟨hdomain, hlegible⟩ := Serviceable.inDomain
    (Serviceable.after (s := newSession) .migrated rfl compact_newSession typed_firstExchange)
  exact ⟨hdomain, hlegible, by decide +kernel⟩

/-- Over a request that was read, the second source of a conversion is given as a text, which is not
seen to stand for the first source. The conversion that is stored leaves the domain. -/
theorem override_leaves_domain :
    let s := newSession.after (firstSpending.take 3)
    let exchange : EntryRequest :=
      { description := .text "Dollars", category := .int 1, amount := .float 5,
        date := .date ⟨2024, 1, 25, by decide⟩, currency := .int 1, kind := .text "convert",
        source := .int 1, rate := .float 2 }
    let c := Call.createEntry (.int 1) (some exchange) [("secondary_source_id", .text "1")]
    Serviceable s.database ∧ s.inTransaction = false ∧ s.scheme.Compact ∧
      EntryRequest.read exchange.parts = .ok { data := exchange } ∧
      (c.run.exec s).1.isOk = true ∧ ¬ (c.run.exec s).2.database.ledger.InDomain := by
  intro s exchange c
  have hs : Serviceable s.database :=
    Serviceable.after (s := newSession) .migrated rfl compact_newSession fun c hc =>
      typed_firstExchange c (List.mem_append_left _ (List.mem_of_mem_take hc))
  have hcompact : s.scheme.Compact := (scheme_after newSession _).symm ▸ compact_newSession
  have hstored : ∃ e ∈ (c.run.exec s).2.database.ledger.entries.rows,
      e.data.kind.isTransfer = true ∧ e.data.secondary = some e.data.source := by decide +kernel
  refine ⟨hs, by decide +kernel, hcompact, rfl, by decide +kernel, fun h => ?_⟩
  obtain ⟨e, he, hk, hsame⟩ := hstored
  obtain ⟨⟨id, hid, hne⟩, -⟩ := h.transfers e he hk
  exact hne (Option.some.inj (hid.symm.trans hsame))

end Bookkeeping.Store
