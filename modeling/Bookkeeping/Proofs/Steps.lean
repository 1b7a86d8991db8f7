import Mathlib.Logic.Relation
import Bookkeeping.Proofs.References

/-! # Changes of a ledger

Everything that a successful call does to a ledger is one of a few kinds of changes. Settings are
made, revised and dropped row by row; an entry is recorded, marked or removed together with shifts
of balances; a user goes with everything the user owns. A change carries what was checked before it
was made, and that is what keeps a ledger intact.
-/

namespace Bookkeeping.Store

/-! ## Steps -/

/-- A new named row: an id is left for it, its owner exists, its name is new and it can be read. -/
structure Table.Admits {ρ : Type} [NamedRecord ρ] (users : Int → Prop) (t : Table ρ) (a : ρ) :
    Prop where
  room : t.isFull = false
  owner : users (Owned.owner a)
  name : NewName t.rows a
  readable : ∃ x, Persistent.decode .full (⟨t.nextId, a, []⟩ : Row ρ) = .ok x

/-- A named row with other data: it keeps its owner, its name is not that of another row and it can
be read. -/
structure Table.Revises {ρ : Type} [NamedRecord ρ] (t : Table ρ) (r : Row ρ) (a : ρ) : Prop where
  mem : r ∈ t.rows
  owner : Owned.owner a = Owned.owner r.data
  name : NewName (t.rows.filter fun x => x.id != r.id) a
  readable : ∃ x, Persistent.decode .full (⟨r.id, a, []⟩ : Row ρ) = .ok x

/-- A user who reports in no currency any more. -/
def released (r : Row User) : Row User :=
  r.put "fixed_currency_id" { r.data with fixedCurrency := none }

/-- A change of one table that touches neither entries nor balances. -/
inductive Step (l : Ledger) : Ledger → Prop
  | addUser (u : User) (room : l.users.isFull = false)
      (name : ∀ r ∈ l.users.rows, r.data.username ≠ u.username) (unset : u.fixedCurrency = none) :
      Step l { l with users := l.users.insert u }
  | addCurrency (c : Currency) (new : l.currencies.Admits l.users.Has c) :
      Step l { l with currencies := l.currencies.insert c }
  | addCategory (c : Category) (new : l.categories.Admits l.users.Has c) :
      Step l { l with categories := l.categories.insert c }
  | addSource (s : Source) (new : l.sources.Admits l.users.Has s)
      (funded : l.currencies.OwnsActive s.owner s.currency) :
      Step l { l with sources := l.sources.insert s }
  | reviseUser (r : Row User) (u : User) (mem : r ∈ l.users.rows)
      (name : u.username = r.data.username)
      (reporting : ∀ c ∈ u.fixedCurrency, r.data.fixedCurrency = some c ∨
        l.currencies.OwnsActive r.id c) :
      Step l { l with users := l.users.replace r.id ⟨r.id, u, []⟩ }
  | reviseCurrency (r : Row Currency) (c : Currency) (revised : l.currencies.Revises r c) :
      Step l { l with currencies := l.currencies.replace r.id ⟨r.id, c, []⟩ }
  | reviseCategory (r : Row Category) (c : Category) (revised : l.categories.Revises r c) :
      Step l { l with categories := l.categories.replace r.id ⟨r.id, c, []⟩ }
  | reviseSource (r : Row Source) (s : Source) (revised : l.sources.Revises r s)
      (currency : s.currency = r.data.currency) (amount : s.amount = r.data.amount) :
      Step l { l with sources := l.sources.replace r.id ⟨r.id, s, []⟩ }
  | release (p : Row User → Bool) : Step l { l with users := l.users.change p released }
  | dropCurrency (p : Row Currency → Bool)
      (unset : ∀ r ∈ l.currencies.rows, p r = true → ∀ u ∈ l.users.rows,
        u.data.fixedCurrency ≠ some r.id)
      (unheld : ∀ r ∈ l.currencies.rows, p r = true → ∀ s ∈ l.sources.rows, s.data.currency ≠ r.id)
      (unused : ∀ r ∈ l.currencies.rows, p r = true → ∀ e ∈ l.entries.rows, e.data.currency ≠ r.id) :
      Step l { l with currencies := l.currencies.erase p }
  | dropCategory (p : Row Category → Bool)
      (unused : ∀ r ∈ l.categories.rows, p r = true → ∀ e ∈ l.entries.rows, e.data.category ≠ r.id) :
      Step l { l with categories := l.categories.erase p }
  | dropSource (p : Row Source → Bool)
      (unused : ∀ r ∈ l.sources.rows, p r = true → ∀ e ∈ l.entries.rows,
        e.data.source ≠ r.id ∧ e.data.secondary ≠ some r.id) :
      Step l { l with sources := l.sources.erase p }

/-! ## Steps keep a ledger intact -/

theorem currencyOf_of_mem {l : Ledger} {r : Row Source} (ht : l.sources.Tidy)
    (hr : r ∈ l.sources.rows) : l.currencyOf r.id = some r.data.currency := by
  rw [Ledger.currencyOf, Table.find?, ht.find?_eq hr fun x _ => by simp]
  rfl

/-- Sources that stay and keep their currencies are held as before. -/
theorem held_of_rows {l m : Ledger} (hl : l.sources.Tidy) (hm : m.sources.Tidy) {id : Int}
    (hid : l.sources.Has id)
    (h : ∀ r ∈ l.sources.rows, r.id = id →
      ∃ x ∈ m.sources.rows, x.id = r.id ∧ x.data.currency = r.data.currency) :
    m.currencyOf id = l.currencyOf id := by
  obtain ⟨r, hr, rfl⟩ := hid
  obtain ⟨x, hx, hxid, hxc⟩ := h r hr rfl
  rw [currencyOf_of_mem hl hr, ← hxid, currencyOf_of_mem hm hx, hxc]

theorem Table.Has.insert {α : Type} {t : Table α} {id : Int} (h : t.Has id) (a : α) :
    (t.insert a).Has id := by
  obtain ⟨r, hr, hid⟩ := h
  exact ⟨r, mem_insert.2 (.inl hr), hid⟩

theorem Table.Has.change {α : Type} {t : Table α} {id : Int} (h : t.Has id) {p : Row α → Bool}
    {f : Row α → Row α} (hid : ∀ r, (f r).id = r.id) : (t.change p f).Has id := by
  obtain ⟨r, hr, rfl⟩ := h
  refine ⟨_, mem_change.2 ⟨r, hr, rfl⟩, ?_⟩
  split
  · exact hid r
  · rfl

theorem Table.Has.replace {α : Type} {t : Table α} {id : Int} (h : t.Has id) (r : Row α) :
    (t.replace r.id r).Has id := by
  obtain ⟨x, hx, rfl⟩ := h
  by_cases hxr : x.id = r.id
  · exact ⟨r, mem_replace.2 (.inl ⟨rfl, x, hx, hxr⟩), hxr.symm⟩
  · exact ⟨x, mem_replace.2 (.inr ⟨hx, hxr⟩), rfl⟩

/-- After a step that keeps what is there to refer to, entries are still filed. -/
theorem Intact.filed_of_keeps {l m : Ledger} (h : Intact l) (hk : Keeps l m)
    (he : m.entries = l.entries) : ∀ e ∈ m.entries.rows, Filed m e := by
  rw [he]
  exact fun e hr => (h.filed e hr).mono (h.entries.proper e hr) hk

section

variable {l : Ledger} (h : Intact l)

include h

theorem Intact.addUser {u : User} (room : l.users.isFull = false)
    (name : ∀ r ∈ l.users.rows, r.data.username ≠ u.username) (unset : u.fixedCurrency = none) :
    Intact { l with users := l.users.insert u } where
  users := h.users.insert room u
  usernames := by
    intro a ha b hb hab
    rcases Table.mem_insert.1 ha with ha | rfl
    · rcases Table.mem_insert.1 hb with hb | rfl
      · exact h.usernames a ha b hb hab
      · exact absurd hab (name a ha)
    · rcases Table.mem_insert.1 hb with hb | rfl
      · exact absurd hab.symm (name b hb)
      · rfl
  reporting := by
    intro r hr c hc
    rcases Table.mem_insert.1 hr with hr | rfl
    · exact h.reporting r hr c hc
    · simp [unset] at hc
  currencies := h.currencies.of_users fun r hr => (h.currencies.owned r hr).insert u
  categories := h.categories.of_users fun r hr => (h.categories.owned r hr).insert u
  sources := h.sources.of_users fun r hr => (h.sources.owned r hr).insert u
  funded := h.funded
  entries := h.entries
  filed := h.filed_of_keeps { Keeps.refl l with users := fun _ hu => hu.insert u } rfl

/-- Users may change as long as they keep their ids and names and report in currencies of their
own. -/
theorem Intact.withUsers {users : Table User} (tidy : users.Tidy)
    (rows : ∀ x ∈ users.rows, ∃ r ∈ l.users.rows, x.id = r.id ∧ x.data.username = r.data.username)
    (kept : ∀ id, l.users.Has id → users.Has id)
    (reporting : ∀ x ∈ users.rows, ∀ c ∈ x.data.fixedCurrency, l.currencies.Owns x.id c) :
    Intact { l with users } where
  users := tidy
  usernames := by
    intro a ha b hb hab
    obtain ⟨x, hx, hxid, hxn⟩ := rows a ha
    obtain ⟨y, hy, hyid, hyn⟩ := rows b hb
    rw [hxid, hyid]
    exact h.usernames x hx y hy (by rw [← hxn, ← hyn, hab])
  reporting := reporting
  currencies := h.currencies.of_users fun r hr => kept _ (h.currencies.owned r hr)
  categories := h.categories.of_users fun r hr => kept _ (h.categories.owned r hr)
  sources := h.sources.of_users fun r hr => kept _ (h.sources.owned r hr)
  funded := h.funded
  entries := h.entries
  filed := h.filed_of_keeps { Keeps.refl l with users := kept } rfl

theorem Intact.reviseUser {r : Row User} {u : User} (mem : r ∈ l.users.rows)
    (name : u.username = r.data.username)
    (reporting : ∀ c ∈ u.fixedCurrency, l.currencies.Owns r.id c) :
    Intact { l with users := l.users.replace r.id ⟨r.id, u, []⟩ } := by
  refine h.withUsers (h.users.replace (r := ⟨r.id, u, []⟩) rfl) ?_
    (fun id hid => hid.replace ⟨r.id, u, []⟩) ?_
  · intro x hx
    rcases (Table.mem_replace (r := ⟨r.id, u, []⟩)).1 hx with ⟨rfl, -⟩ | ⟨hx, -⟩
    · exact ⟨r, mem, rfl, name⟩
    · exact ⟨x, hx, rfl, rfl⟩
  · intro x hx
    rcases (Table.mem_replace (r := ⟨r.id, u, []⟩)).1 hx with ⟨rfl, -⟩ | ⟨hx, -⟩
    · exact reporting
    · exact h.reporting x hx

theorem Intact.withCurrencies {t : Table Currency} (kept : t.Kept l.users.Has)
    (reporting : ∀ u ∈ l.users.rows, ∀ c ∈ u.data.fixedCurrency, t.Owns u.id c)
    (funded : ∀ s ∈ l.sources.rows, t.Owns s.data.owner s.data.currency)
    (used : ∀ e ∈ l.entries.rows, t.Owns e.data.owner e.data.currency) :
    Intact { l with currencies := t } :=
  { h with
    reporting, funded
    currencies := kept
    filed := fun e he => { h.filed e he with currency := used e he } }

theorem Intact.withCategories {t : Table Category} (kept : t.Kept l.users.Has)
    (used : ∀ e ∈ l.entries.rows, t.Owns e.data.owner e.data.category) :
    Intact { l with categories := t } :=
  { h with
    categories := kept
    filed := fun e he => { h.filed e he with category := used e he } }

theorem Intact.withSources {t : Table Source} (kept : t.Kept l.users.Has)
    (funded : ∀ s ∈ t.rows, l.currencies.Owns s.data.owner s.data.currency)
    (used : ∀ e ∈ l.entries.rows, t.Owns e.data.owner e.data.source ∧
      ∀ id ∈ e.data.secondary, t.Owns e.data.owner id)
    (held : ∀ e ∈ l.entries.rows, ∀ r ∈ l.sources.rows, r.id = e.data.source →
      ∃ x ∈ t.rows, x.id = r.id ∧ x.data.currency = r.data.currency) :
    Intact { l with sources := t } :=
  { h with
    sources := kept
    funded
    filed := fun e he => by
      have hf := h.filed e he
      have hheld := held_of_rows (m := { l with sources := t }) h.sources.tidy kept.tidy
        hf.source.has (held e he)
      exact
        { hf with
          source := (used e he).1
          secondary := (used e he).2
          held := fun hmoves => hheld.trans (hf.held hmoves)
          effects := by
            rw [Ledger.effects_congr (h.entries.proper e he) hheld]
            exact hf.effects } }

end

/-- A named row that is revised keeps the references to it. -/
theorem Table.Revises.owns {ρ : Type} [NamedRecord ρ] {t : Table ρ} {r : Row ρ} {a : ρ}
    (h : t.Revises r a) (ht : t.Tidy) {user id : Int} (ho : t.Owns user id) :
    (t.replace r.id ⟨r.id, a, []⟩).Owns user id :=
  Owns.replace (r := ⟨r.id, a, []⟩) ho ht h.mem rfl h.owner

theorem Table.Revises.kept {ρ : Type} [NamedRecord ρ] {t : Table ρ} {r : Row ρ} {a : ρ}
    {users : Int → Prop} (h : t.Revises r a) (ht : t.Kept users) :
    (t.replace r.id ⟨r.id, a, []⟩).Kept users :=
  Kept.replace (r := ⟨r.id, a, []⟩) ht rfl (h.owner ▸ ht.owned r h.mem) h.name h.readable

theorem Table.Admits.kept {ρ : Type} [NamedRecord ρ] {t : Table ρ} {a : ρ} {users : Int → Prop}
    (h : t.Admits users a) (ht : t.Kept users) : (t.insert a).Kept users :=
  ht.insert h.room h.owner h.name h.readable

theorem Step.intact {l m : Ledger} (hs : Step l m) (h : Intact l) : Intact m := by
  cases hs with
  | addUser u room name unset => exact h.addUser room name unset
  | addCurrency c new =>
    exact h.withCurrencies (new.kept h.currencies)
      (fun u hu c hc => (h.reporting u hu c hc).insert _) (fun s hs => (h.funded s hs).insert _)
      (fun e he => (h.filed e he).currency.insert _)
  | addCategory c new =>
    exact h.withCategories (new.kept h.categories) fun e he => (h.filed e he).category.insert _
  | addSource s new funded =>
    refine h.withSources (new.kept h.sources) ?_ ?_ ?_
    · intro x hx
      rcases Table.mem_insert.1 hx with hx | rfl
      · exact h.funded x hx
      · exact funded.owns
    · exact fun e he => ⟨(h.filed e he).source.insert _,
        fun id hid => ((h.filed e he).secondary id hid).insert _⟩
    · exact fun e he r hr _ => ⟨r, Table.mem_insert.2 (.inl hr), rfl, rfl⟩
  | reviseUser r u mem name reporting =>
    refine h.reviseUser mem name fun c hc => ?_
    rcases reporting c hc with hold | hnew
    · exact h.reporting r mem c hold
    · exact hnew.owns
  | reviseCurrency r c revised =>
    have keeps {user id : Int} (ho : l.currencies.Owns user id) :=
      revised.owns h.currencies.tidy ho
    exact h.withCurrencies (revised.kept h.currencies)
      (fun u hu c hc => keeps (h.reporting u hu c hc)) (fun s hs => keeps (h.funded s hs))
      (fun e he => keeps (h.filed e he).currency)
  | reviseCategory r c revised =>
    exact h.withCategories (revised.kept h.categories)
      fun e he => revised.owns h.categories.tidy (h.filed e he).category
  | reviseSource r s revised currency amount =>
    have keeps {user id : Int} (ho : l.sources.Owns user id) := revised.owns h.sources.tidy ho
    refine h.withSources (revised.kept h.sources) ?_ ?_ ?_
    · intro x hx
      rcases (Table.mem_replace (r := ⟨r.id, s, []⟩)).1 hx with ⟨rfl, -⟩ | ⟨hx, -⟩
      · have hown : s.owner = r.data.owner := revised.owner
        simpa [hown, currency] using h.funded r revised.mem
      · exact h.funded x hx
    · exact fun e he => ⟨keeps (h.filed e he).source,
        fun id hid => keeps ((h.filed e he).secondary id hid)⟩
    · intro e he x hx hid
      by_cases hxr : x.id = r.id
      · have hxe := h.sources.tidy.eq_of_id hx revised.mem hxr
        exact ⟨⟨r.id, s, []⟩, Table.mem_replace.2 (.inl ⟨rfl, x, hx, hxr⟩), hxr.symm,
          hxe ▸ currency⟩
      · exact ⟨x, Table.mem_replace.2 (.inr ⟨hx, hxr⟩), rfl, rfl⟩
  | release p =>
    have hid (r : Row User) : (released r).id = r.id := rfl
    have hodd (r : Row User) (ho : r.odd = []) : (released r).odd = [] := by
      simp [released, Row.put, Row.oddBut, ho]
    refine h.withUsers (h.users.change hid hodd) ?_ (fun id hu => hu.change hid) ?_
    · intro x hx
      obtain ⟨r, hr, rfl⟩ := Table.mem_change.1 hx
      refine ⟨r, hr, ?_⟩
      split <;> exact ⟨rfl, rfl⟩
    · intro x hx c hc
      obtain ⟨r, hr, rfl⟩ := Table.mem_change.1 hx
      split at hc
      · simp [released, Row.put] at hc
      · rename_i hp
        rw [if_neg hp]
        exact h.reporting r hr c hc
  | dropCurrency p unset unheld unused =>
    refine h.withCurrencies (h.currencies.erase p) ?_ ?_ ?_
    · intro u hu c hc
      refine (h.reporting u hu c hc).erase fun r hr hp => .inl fun hid => ?_
      exact unset r hr hp u hu (by rw [hid]; exact hc)
    · intro s hs
      exact (h.funded s hs).erase fun r hr hp => .inl fun hid => unheld r hr hp s hs hid.symm
    · intro e he
      exact (h.filed e he).currency.erase fun r hr hp => .inl fun hid => unused r hr hp e he hid.symm
  | dropCategory p unused =>
    refine h.withCategories (h.categories.erase p) fun e he => ?_
    exact (h.filed e he).category.erase fun r hr hp => .inl fun hid => unused r hr hp e he hid.symm
  | dropSource p unused =>
    refine h.withSources (h.sources.erase p) ?_ ?_ ?_
    · exact fun s hs => h.funded s (Table.mem_erase.1 hs).1
    · intro e he
      refine ⟨(h.filed e he).source.erase fun r hr hp => .inl fun hid => ?_, fun id hid =>
        ((h.filed e he).secondary id hid).erase fun r hr hp => .inl fun hrid => ?_⟩
      · exact (unused r hr hp e he).1 hid.symm
      · exact (unused r hr hp e he).2 (by rw [hrid]; exact hid)
    · intro e he r hr hid
      refine ⟨r, Table.mem_erase.2 ⟨hr, ?_⟩, rfl, rfl⟩
      by_contra hp
      exact (unused r hr (by simpa using hp) e he).1 hid.symm

/-- Steps one after the other. What they come to refers to nothing new but active rows. -/
structure Settling (l m : Ledger) : Prop where
  steps : Relation.ReflTransGen Step l m
  adopts : l.Adopts m

theorem intact_of_steps {l m : Ledger} (steps : Relation.ReflTransGen Step l m) (h : Intact l) :
    Intact m := by
  induction steps with
  | refl => exact h
  | tail _ hs ih => exact hs.intact ih

/-! ### What steps refer to -/

/-- Users who are released refer to less than before. -/
theorem adopts_released {l m : Ledger} {p : Row User → Bool}
    (hu : m.users = l.users.change p released) (hs : m.sources = l.sources)
    (he : m.entries = l.entries) : l.Adopts m := by
  refine .of_users (fun x hx c hc => .inl ?_) hs he
  obtain ⟨r, hr, rfl⟩ := Table.mem_change.1 (hu ▸ hx)
  split at hc
  · cases hc
  · rename_i hp
    exact ⟨r, hr, by rw [if_neg hp], hc⟩

/-- A step refers to nothing new but active rows. -/
theorem Step.adopts {l m : Ledger} (hs : Step l m) : l.Adopts m := by
  cases hs with
  | addUser u room name unset =>
    refine .of_users (fun x hx c hc => ?_) rfl rfl
    rcases Table.mem_insert.1 hx with hx | rfl
    · exact .inl ⟨x, hx, rfl, hc⟩
    · rw [unset] at hc
      cases hc
  | addSource s new funded =>
    refine .of_sources (fun x hx => ?_) rfl rfl
    rcases Table.mem_insert.1 hx with hx | rfl
    · exact .inl ⟨x, hx, rfl, rfl, rfl⟩
    · exact .inr (.inl funded)
  | reviseUser r u mem name reporting =>
    refine .of_users (fun x hx c hc => ?_) rfl rfl
    rcases (Table.mem_replace (r := ⟨r.id, u, []⟩)).1 hx with ⟨rfl, -⟩ | ⟨hx, -⟩
    · exact (reporting c hc).imp (fun hold => ⟨r, mem, rfl, hold⟩) .inl
    · exact .inl ⟨x, hx, rfl, hc⟩
  | reviseSource r s revised currency amount =>
    refine .of_sources (fun x hx => .inl ?_) rfl rfl
    rcases (Table.mem_replace (r := ⟨r.id, s, []⟩)).1 hx with ⟨rfl, -⟩ | ⟨hx, -⟩
    · exact ⟨r, revised.mem, rfl, revised.owner.symm, currency.symm⟩
    · exact ⟨x, hx, rfl, rfl, rfl⟩
  | release p => exact adopts_released rfl rfl rfl
  | dropSource p unused =>
    exact .of_sources (fun x hx => .inl ⟨x, (Table.mem_erase.1 hx).1, rfl, rfl, rfl⟩) rfl rfl
  | _ => exact .of_users (fun x hx c hc => .inl ⟨x, hx, rfl, hc⟩) rfl rfl

theorem Settling.refl (l : Ledger) : Settling l l := ⟨.refl, .refl l⟩

theorem Settling.of_step {l m : Ledger} (h : Step l m) : Settling l m := ⟨.single h, h.adopts⟩

/-! ## Shifts of balances -/

theorem isFinite_unsigned {x : Float} (h : Number.isFinite x = true) :
    Number.isFinite (unsigned x) = true := by
  unfold unsigned
  split
  · decide
  · exact h

/-- The source after a shift of its balance. -/
def shiftedBy (delta : Float) (r : Row Source) : Row Source :=
  { r with data := { r.data with amount := unsigned (r.data.amount + delta) } }

namespace Ledger

/-- The ledger after a shift. -/
def shift (l : Ledger) (s : Shift) : Ledger :=
  { l with sources := l.sources.change (fun r => s.source == some r.id) (shiftedBy s.delta) }

/-- The ledger after shifts one by one. -/
def shiftAll (l : Ledger) (shifts : List Shift) : Ledger := shifts.foldl shift l

/-- Whether every balance stays finite while shifts are applied. -/
def Bears (l : Ledger) : List Shift → Prop
  | [] => True
  | s :: rest =>
    (∀ r ∈ l.sources.rows, s.source = some r.id → Number.isFinite (r.data.amount + s.delta) = true) ∧
      (l.shift s).Bears rest

/-- The ledger without a user and everything the user owns. -/
def without (l : Ledger) (user : Int) : Ledger where
  users := l.users.erase fun r => r.id == user
  currencies := l.currencies.erase fun r => r.data.owner == user
  categories := l.categories.erase fun r => r.data.owner == user
  sources := l.sources.erase fun r => r.data.owner == user
  entries := l.entries.erase fun r => r.data.owner == user

end Ledger

section

variable {l : Ledger}

theorem Intact.shift (h : Intact l) {s : Shift}
    (hs : ∀ r ∈ l.sources.rows, s.source = some r.id →
      Number.isFinite (r.data.amount + s.delta) = true) : Intact (l.shift s) := by
  have hodd (r : Row Source) (ho : r.odd = []) : (shiftedBy s.delta r).odd = [] := ho
  have keeps {user id : Int} (ho : l.sources.Owns user id) : (l.shift s).sources.Owns user id :=
    ho.change (fun _ => rfl) fun _ => rfl
  refine h.withSources (h.sources.change (fun _ => rfl) hodd (fun _ => rfl) (fun _ => rfl) ?_) ?_ ?_ ?_
  · intro r hr hp
    obtain ⟨a, ha⟩ := h.sources.readable r hr
    obtain ⟨n, hn, -, -⟩ := (reread_source (h.sources.tidy.proper r hr)).1 ha
    have hfin := isFinite_unsigned (hs r hr (by simpa using hp))
    exact ⟨_, (reread_source (hodd r (h.sources.tidy.proper r hr))).2 ⟨n, hn, hfin, rfl⟩⟩
  · intro x hx
    obtain ⟨r, hr, rfl⟩ := Table.mem_change.1 hx
    split <;> exact h.funded r hr
  · exact fun e he => ⟨keeps (h.filed e he).source,
      fun id hid => keeps ((h.filed e he).secondary id hid)⟩
  · intro e he r hr hid
    refine ⟨_, Table.mem_change.2 ⟨r, hr, rfl⟩, ?_⟩
    split <;> exact ⟨rfl, rfl⟩

theorem Intact.shiftAll (h : Intact l) {shifts : List Shift} (hb : l.Bears shifts) :
    Intact (l.shiftAll shifts) := by
  induction shifts generalizing l with
  | nil => exact h
  | cons s rest ih => exact ih (h.shift hb.1) hb.2

theorem Intact.withEntries (h : Intact l) {t : Table StoredEntry} (tidy : t.Tidy)
    (filed : ∀ e ∈ t.rows, Filed l e) : Intact { l with entries := t } :=
  { h with
    entries := tidy
    filed := fun e he => (filed e he).mono (tidy.proper e he) { Keeps.refl l with } }

/-- A user can be removed together with everything the user owns. -/
theorem Intact.without (h : Intact l) (user : Int) : Intact (l.without user) := by
  have stays {u : Int} (hu : l.users.Has u) (hne : u ≠ user) : (l.without user).users.Has u := by
    obtain ⟨r, hr, rfl⟩ := hu
    exact ⟨r, Table.mem_erase.2 ⟨hr, by simpa using hne⟩, rfl⟩
  have owned {ρ : Type} [Owned ρ] {t : Table ρ} {u id : Int} (ho : t.Owns u id) (hne : u ≠ user) :
      (t.erase fun r => Owned.owner r.data == user).Owns u id :=
    ho.erase fun r _ hp => .inr fun hru => hne (by rw [← hru]; simpa using hp)
  have kept {ρ : Type} [NamedRecord ρ] {t : Table ρ} (ht : t.Kept l.users.Has) :
      (t.erase fun r => Owned.owner r.data == user).Kept (l.without user).users.Has := by
    refine (ht.erase _).of_users fun r hr => ?_
    obtain ⟨hrt, hp⟩ := Table.mem_erase.1 hr
    exact stays (ht.owned r hrt) (by simpa using hp)
  have sources := kept h.sources
  refine
    { users := h.users.erase _
      usernames := fun a ha b hb =>
        h.usernames a (Table.mem_erase.1 ha).1 b (Table.mem_erase.1 hb).1
      reporting := fun u hu c hc => ?_
      currencies := kept h.currencies
      categories := kept h.categories
      sources
      funded := fun s hs => ?_
      entries := h.entries.erase _
      filed := fun e he => ?_ }
  · obtain ⟨hut, hne⟩ := Table.mem_erase.1 hu
    exact owned (h.reporting u hut c hc) (by simpa using hne)
  · obtain ⟨hst, hne⟩ := Table.mem_erase.1 hs
    exact owned (h.funded s hst) (by simpa using hne)
  · obtain ⟨het, hne⟩ := Table.mem_erase.1 he
    have hne : e.data.owner ≠ user := by simpa using hne
    have hf := h.filed e het
    obtain ⟨r, hr, hid, hown⟩ := hf.source
    have hheld : (l.without user).currencyOf e.data.source = l.currencyOf e.data.source := by
      refine held_of_rows h.sources.tidy sources.tidy ⟨r, hr, hid⟩ fun x hx hxid => ?_
      have hxr := h.sources.tidy.eq_of_id hx hr (hxid.trans hid.symm)
      subst hxr
      refine ⟨x, Table.mem_erase.2 ⟨hx, ?_⟩, rfl, rfl⟩
      have hxo : x.data.owner = e.data.owner := hown
      simpa [hxo] using hne
    exact
      { owner := stays hf.owner hne
        category := owned hf.category hne
        currency := owned hf.currency hne
        source := owned hf.source hne
        secondary := fun id hid => owned (hf.secondary id hid) hne
        apart := hf.apart
        held := fun hmoves => hheld.trans (hf.held hmoves)
        effects := by
          rw [Ledger.effects_congr (h.entries.proper e het) hheld]
          exact hf.effects }

end

/-! ## Changes -/

/-- A stored entry that is archived or active. -/
def markedAs (archived : Bool) (r : Row StoredEntry) : Row StoredEntry :=
  ⟨r.id, { r.data with archived }, []⟩

/-- What a successful call does to a ledger, given which entries it may remove. -/
inductive Change (gone : Row StoredEntry → Prop) (l : Ledger) : Ledger → Prop
  | settings {m : Ledger} (settling : Settling l m) : Change gone l m
  | record (e : StoredEntry) (shifts : List Shift) (room : l.entries.isFull = false)
      (active : e.archived = false) (filed : Filed l ⟨l.entries.nextId, e, []⟩)
      (effects : l.effects ⟨l.entries.nextId, e, []⟩ = .ok shifts) (bears : l.Bears shifts)
      (placed : ∀ k id, e.refersTo k = some id → l.Offers k e.owner id) :
      Change gone l { l.shiftAll shifts with entries := l.entries.insert e }
  | mark (r : Row StoredEntry) (archived : Bool) (shifts : List Shift) (mem : r ∈ l.entries.rows)
      (other : r.data.archived = !archived) (effects : l.effects r = .ok shifts)
      (bears : l.Bears (shifts.map (Shift.directed (if archived then -1 else 1)))) :
      Change gone l { l.shiftAll (shifts.map (Shift.directed (if archived then -1 else 1))) with
        entries := l.entries.replace r.id (markedAs archived r) }
  | remove (r : Row StoredEntry) (shifts : List Shift) (mem : r ∈ l.entries.rows) (meant : gone r)
      (undone : if r.data.archived then shifts = [] else
        ∃ effects, l.effects r = .ok effects ∧ shifts = effects.map (Shift.directed (-1)))
      (bears : l.Bears shifts) :
      Change gone l { l.shiftAll shifts with entries := l.entries.erase fun e => e.id == r.id }
  | clear (user : Int) (meant : ∀ r ∈ l.entries.rows, r.data.owner = user → gone r) :
      Change gone l (l.without user)

theorem keeps_shiftAll {l : Ledger} (h : Intact l) {shifts : List Shift} (hb : l.Bears shifts) :
    Keeps l (l.shiftAll shifts) := by
  induction shifts generalizing l with
  | nil => exact Keeps.refl l
  | cons s rest ih =>
    have hs := h.shift hb.1
    have hk := ih hs hb.2
    have hsources (user id : Int) (ho : l.sources.Owns user id) :
        (l.shift s).sources.Owns user id :=
      ho.change (fun _ => rfl) fun _ => rfl
    refine ⟨hk.users, hk.categories, hk.currencies, fun user id ho => ?_, fun id hid => ?_⟩
    · exact hk.sources user id (hsources user id ho)
    · rw [← held_of_rows h.sources.tidy hs.sources.tidy hid fun r hr _ => ?_]
      · exact hk.held id (hid.change fun _ => rfl)
      · refine ⟨_, Table.mem_change.2 ⟨r, hr, rfl⟩, ?_⟩
        split <;> exact ⟨rfl, rfl⟩

/-- The flag of an entry does not matter for its shifts. -/
theorem effects_markedAs {l : Ledger} {r : Row StoredEntry} {shifts : List Shift} (ho : r.odd = [])
    (archived : Bool) (h : l.effects r = .ok shifts) :
    l.effects (markedAs archived r) = .ok shifts := by
  unfold Ledger.effects at h ⊢
  cases ha : StoredEntry.toEntry .full r with
  | error f =>
    rw [ha] at h
    cases h
  | ok a =>
    rw [ha] at h
    obtain ⟨date, createdAt, hdate, hcreated, hamount, hrate, hfixed, rfl⟩ :=
      (StoredEntry.toEntry_ok ho).1 ha
    have hm : StoredEntry.toEntry .full (markedAs archived r) = _ :=
      (StoredEntry.toEntry_ok rfl).2 ⟨date, createdAt, hdate, hcreated, hamount, hrate, hfixed, rfl⟩
    rw [hm]
    exact h

theorem Filed.markedAs {l : Ledger} {r : Row StoredEntry} (h : Filed l r) (ho : r.odd = [])
    (archived : Bool) : Filed l (markedAs archived r) where
  owner := h.owner
  category := h.category
  currency := h.currency
  source := h.source
  secondary := h.secondary
  apart := h.apart
  held := h.held
  effects := by
    obtain ⟨shifts, hs⟩ := h.effects
    exact ⟨shifts, effects_markedAs ho archived hs⟩

theorem Change.intact {gone : Row StoredEntry → Prop} {l m : Ledger} (hc : Change gone l m)
    (h : Intact l) : Intact m := by
  cases hc with
  | settings settling => exact intact_of_steps settling.steps h
  | record e shifts room active filed effects bears placed =>
    have hk := keeps_shiftAll h bears
    refine (h.shiftAll bears).withEntries (h.entries.insert room e) fun x hx => ?_
    rcases Table.mem_insert.1 hx with hx | rfl
    · exact (h.filed x hx).mono (h.entries.proper x hx) hk
    · exact filed.mono rfl hk
  | mark r archived shifts mem other effects bears =>
    have hk := keeps_shiftAll h bears
    refine (h.shiftAll bears).withEntries (h.entries.replace (r := markedAs archived r) rfl)
      fun x hx => ?_
    rcases Table.mem_replace.1 hx with ⟨rfl, -⟩ | ⟨hx, -⟩
    · exact ((h.filed r mem).markedAs (h.entries.proper r mem) archived).mono rfl hk
    · exact (h.filed x hx).mono (h.entries.proper x hx) hk
  | remove r shifts mem meant undone bears =>
    have hk := keeps_shiftAll h bears
    refine (h.shiftAll bears).withEntries (h.entries.erase _) fun x hx => ?_
    have hx := (Table.mem_erase.1 hx).1
    exact (h.filed x hx).mono (h.entries.proper x hx) hk
  | clear user meant => exact h.without user

end Bookkeeping.Store
