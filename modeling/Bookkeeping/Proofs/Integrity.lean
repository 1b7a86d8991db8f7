import Bookkeeping.Proofs.Readings

/-! # Ownership and references

Every reference leads to a row of the same user, no user has two rows of a kind under one name, and
every row can be read as a record. The constraints of the tables ask for less, so this is a matter
of what calls do. Here the invariant is stated, and shown to survive each kind of change on its own.
-/

namespace Bookkeeping.Store

/-! ## Owned rows -/

namespace Table

/-- Whether a table has a row of an id. -/
def Has {α : Type} (t : Table α) (id : Int) : Prop := ∃ r ∈ t.rows, r.id = id

theorem Has.fits {α : Type} {t : Table α} {id : Int} (h : t.Has id) (ht : t.Tidy) :
    fitsInteger id = true := by
  obtain ⟨r, hr, rfl⟩ := h
  exact ht.fits r hr

theorem Has.contains {α : Type} {t : Table α} {id : Int} (h : t.Has id) : t.contains id = true := by
  obtain ⟨r, hr, rfl⟩ := h
  exact List.any_eq_true.2 ⟨r, hr, by simp⟩

section

variable {ρ : Type} [Owned ρ] {t : Table ρ} {r : Row ρ} {user id : Int}

/-- Whether a user owns the row of an id. -/
def Owns (t : Table ρ) (user id : Int) : Prop :=
  ∃ r ∈ t.rows, r.id = id ∧ Owned.owner r.data = user

/-- Whether a user owns the row of an id, which is not archived. -/
def OwnsActive (t : Table ρ) (user id : Int) : Prop :=
  ∃ r ∈ t.rows, r.id = id ∧ Owned.owner r.data = user ∧ Owned.archived r.data = false

theorem OwnsActive.owns (h : t.OwnsActive user id) : t.Owns user id := by
  obtain ⟨r, hr, hid, ho, -⟩ := h
  exact ⟨r, hr, hid, ho⟩

theorem Owns.has (h : t.Owns user id) : t.Has id := by
  obtain ⟨r, hr, hid, -⟩ := h
  exact ⟨r, hr, hid⟩

theorem Owns.insert (h : t.Owns user id) (a : ρ) : (t.insert a).Owns user id := by
  obtain ⟨r, hr, hid, ho⟩ := h
  exact ⟨r, mem_insert.2 (.inl hr), hid, ho⟩

/-- A row that keeps its owner keeps the references to it. -/
theorem Owns.replace (h : t.Owns user id) (ht : t.Tidy) {old : Row ρ} (hold : old ∈ t.rows)
    (hid : r.id = old.id) (ho : Owned.owner r.data = Owned.owner old.data) :
    (t.replace r.id r).Owns user id := by
  obtain ⟨x, hx, rfl, rfl⟩ := h
  by_cases hxr : x.id = r.id
  · have hxo : x = old := ht.eq_of_id hx hold (hxr.trans hid)
    exact ⟨r, mem_replace.2 (.inl ⟨rfl, x, hx, hxr⟩), hxr.symm, by rw [ho, hxo]⟩
  · exact ⟨x, mem_replace.2 (.inr ⟨hx, hxr⟩), rfl, rfl⟩

theorem Owns.change (h : t.Owns user id) {p : Row ρ → Bool} {f : Row ρ → Row ρ}
    (hid : ∀ r, (f r).id = r.id) (ho : ∀ r, Owned.owner (f r).data = Owned.owner r.data) :
    (t.change p f).Owns user id := by
  obtain ⟨x, hx, rfl, rfl⟩ := h
  refine ⟨_, mem_change.2 ⟨x, hx, rfl⟩, ?_, ?_⟩
  · split
    · exact hid x
    · rfl
  · split
    · exact ho x
    · rfl

theorem Owns.erase (h : t.Owns user id) {p : Row ρ → Bool}
    (hp : ∀ r ∈ t.rows, p r = true → r.id ≠ id ∨ Owned.owner r.data ≠ user) :
    (t.erase p).Owns user id := by
  obtain ⟨x, hx, hid, ho⟩ := h
  refine ⟨x, mem_erase.2 ⟨hx, ?_⟩, hid, ho⟩
  by_contra hne
  rcases hp x hx (by simpa using hne) with h | h
  · exact h hid
  · exact h ho

end

/-! ## Tables of named rows -/

/-- A tidy table of named rows: each belongs to one of the users, no two of one user have the same
name, and each can be read. -/
structure Kept {ρ : Type} [NamedRecord ρ] (users : Int → Prop) (t : Table ρ) : Prop where
  tidy : t.Tidy
  owned : ∀ r ∈ t.rows, users (Owned.owner r.data)
  distinct : ∀ a ∈ t.rows, ∀ b ∈ t.rows, Owned.owner a.data = Owned.owner b.data →
    Named.rowName a.data = Named.rowName b.data → a.id = b.id
  readable : ∀ r ∈ t.rows, ∃ a, Persistent.decode .full r = .ok a

/-- Rows that have none of the names that a row's owner uses. -/
def NewName {ρ : Type} [Named ρ] (rows : List (Row ρ)) (a : ρ) : Prop :=
  ∀ r ∈ rows, Owned.owner r.data = Owned.owner a → Named.rowName r.data ≠ Named.rowName a

namespace Kept

variable {ρ : Type} [NamedRecord ρ] {users users' : Int → Prop} {t : Table ρ} {r : Row ρ}

theorem of_users (h : t.Kept users) (hu : ∀ r ∈ t.rows, users' (Owned.owner r.data)) :
    t.Kept users' :=
  { h with owned := hu }

theorem insert (h : t.Kept users) {a : ρ} (hroom : t.isFull = false) (ho : users (Owned.owner a))
    (hn : NewName t.rows a)
    (hr : ∃ x, Persistent.decode .full (⟨t.nextId, a, []⟩ : Row ρ) = .ok x) :
    (t.insert a).Kept users where
  tidy := h.tidy.insert hroom a
  owned := by
    intro x hx
    rcases mem_insert.1 hx with hx | rfl
    · exact h.owned x hx
    · exact ho
  distinct := by
    intro x hx y hy hown hname
    rcases mem_insert.1 hx with hx | rfl
    · rcases mem_insert.1 hy with hy | rfl
      · exact h.distinct x hx y hy hown hname
      · exact absurd hname (hn x hx hown)
    · rcases mem_insert.1 hy with hy | rfl
      · exact absurd hname.symm (hn y hy hown.symm)
      · rfl
  readable := by
    intro x hx
    rcases mem_insert.1 hx with hx | rfl
    · exact h.readable x hx
    · exact hr

theorem replace (h : t.Kept users) (hodd : r.odd = []) (ho : users (Owned.owner r.data))
    (hn : NewName (t.rows.filter fun x => x.id != r.id) r.data)
    (hr : ∃ x, Persistent.decode .full r = .ok x) : (t.replace r.id r).Kept users where
  tidy := h.tidy.replace hodd
  owned := by
    intro x hx
    rcases mem_replace.1 hx with ⟨rfl, -⟩ | ⟨hx, -⟩
    · exact ho
    · exact h.owned x hx
  distinct := by
    intro x hx y hy hown hname
    rcases mem_replace.1 hx with ⟨rfl, -⟩ | ⟨hxt, hxr⟩
    · rcases mem_replace.1 hy with ⟨rfl, -⟩ | ⟨hyt, hyr⟩
      · rfl
      · exact absurd hname.symm (hn y (by simp [hyt, hyr]) hown.symm)
    · rcases mem_replace.1 hy with ⟨rfl, -⟩ | ⟨hyt, hyr⟩
      · exact absurd hname (hn x (by simp [hxt, hxr]) hown)
      · exact h.distinct x hxt y hyt hown hname
  readable := by
    intro x hx
    rcases mem_replace.1 hx with ⟨rfl, -⟩ | ⟨hx, -⟩
    · exact hr
    · exact h.readable x hx

theorem change (h : t.Kept users) {p : Row ρ → Bool} {f : Row ρ → Row ρ} (hid : ∀ r, (f r).id = r.id)
    (hodd : ∀ r, r.odd = [] → (f r).odd = []) (ho : ∀ r, Owned.owner (f r).data = Owned.owner r.data)
    (hn : ∀ r, Named.rowName (f r).data = Named.rowName r.data)
    (hr : ∀ r ∈ t.rows, p r = true → ∃ x, Persistent.decode .full (f r) = .ok x) :
    (t.change p f).Kept users where
  tidy := h.tidy.change hid hodd
  owned := by
    intro x hx
    obtain ⟨o, hot, rfl⟩ := mem_change.1 hx
    split
    · rw [ho]
      exact h.owned o hot
    · exact h.owned o hot
  distinct := by
    intro x hx y hy hown hname
    obtain ⟨a, ha, rfl⟩ := mem_change.1 hx
    obtain ⟨b, hb, rfl⟩ := mem_change.1 hy
    have hsame (r : Row ρ) : (if p r = true then f r else r).id = r.id ∧
        Owned.owner (if p r = true then f r else r).data = Owned.owner r.data ∧
        Named.rowName (if p r = true then f r else r).data = Named.rowName r.data := by
      split
      · exact ⟨hid r, ho r, hn r⟩
      · exact ⟨rfl, rfl, rfl⟩
    rw [(hsame a).1, (hsame b).1]
    rw [(hsame a).2.1, (hsame b).2.1] at hown
    rw [(hsame a).2.2, (hsame b).2.2] at hname
    exact h.distinct a ha b hb hown hname
  readable := by
    intro x hx
    obtain ⟨o, hot, rfl⟩ := mem_change.1 hx
    split
    · rename_i hp
      exact hr o hot hp
    · exact h.readable o hot

theorem erase (h : t.Kept users) (p : Row ρ → Bool) : (t.erase p).Kept users where
  tidy := h.tidy.erase p
  owned r hr := h.owned r (mem_erase.1 hr).1
  distinct a ha b hb := h.distinct a (mem_erase.1 ha).1 b (mem_erase.1 hb).1
  readable r hr := h.readable r (mem_erase.1 hr).1

end Kept

end Table

/-! ## What entries do to balances -/

/-- The currency that a source is held in, if there is one. -/
def Ledger.currencyOf (l : Ledger) (source : Int) : Option Int :=
  (l.sources.find? source).map fun r => r.data.currency

/-- The shifts of a stored entry with respect to its source as it is now. -/
def Ledger.effects (l : Ledger) (e : Row StoredEntry) : Except Failure (List Shift) := do
  let a ← StoredEntry.toEntry .full e
  (a.data.shifts ((l.sources.find? a.data.source).map Row.data)).mapError .misuse

/-- Of its source an entry needs to know the currency only. -/
theorem shifts_congr (e : Entry) {p q : Option Source} (h : p.map (·.currency) = q.map (·.currency)) :
    e.shifts p = e.shifts q := by
  cases p with
  | none =>
    cases q with
    | none => rfl
    | some q => cases h
  | some p =>
    cases q with
    | none => cases h
    | some q =>
      have hc : p.currency = q.currency := by simpa using h
      simp only [Entry.shifts, hc]

/-- The shifts of an entry stay the same as long as its source is held in the same currency. -/
theorem Ledger.effects_congr {l m : Ledger} {e : Row StoredEntry} (ho : e.odd = [])
    (h : m.currencyOf e.data.source = l.currencyOf e.data.source) : m.effects e = l.effects e := by
  unfold effects
  cases ha : StoredEntry.toEntry .full e with
  | error f => rfl
  | ok a =>
    obtain ⟨date, createdAt, -, -, -, -, -, rfl⟩ := (StoredEntry.toEntry_ok ho).1 ha
    simp only [bind, Except.bind]
    rw [shifts_congr]
    simpa [currencyOf, Function.comp_def, StoredEntry.dated] using h

/-! ## The invariant -/

/-- An entry that refers to rows of its own user only and whose shifts are known. If it moves money,
then between two sources, and in the currency that the first of them is held in. -/
structure Filed (l : Ledger) (e : Row StoredEntry) : Prop where
  owner : l.users.Has e.data.owner
  category : l.categories.Owns e.data.owner e.data.category
  currency : l.currencies.Owns e.data.owner e.data.currency
  source : l.sources.Owns e.data.owner e.data.source
  secondary : ∀ id ∈ e.data.secondary, l.sources.Owns e.data.owner id
  apart : e.data.kind.isTransfer = true → ∃ id, e.data.secondary = some id ∧ id ≠ e.data.source
  held : e.data.kind.isTransfer = true → l.currencyOf e.data.source = some e.data.currency
  effects : ∃ shifts, l.effects e = .ok shifts

/-- A ledger in which every reference leads to a row of the same user. -/
structure Intact (l : Ledger) : Prop where
  users : l.users.Tidy
  usernames : ∀ a ∈ l.users.rows, ∀ b ∈ l.users.rows, a.data.username = b.data.username → a.id = b.id
  reporting : ∀ u ∈ l.users.rows, ∀ c ∈ u.data.fixedCurrency, l.currencies.Owns u.id c
  currencies : l.currencies.Kept l.users.Has
  categories : l.categories.Kept l.users.Has
  sources : l.sources.Kept l.users.Has
  funded : ∀ s ∈ l.sources.rows, l.currencies.Owns s.data.owner s.data.currency
  entries : l.entries.Tidy
  filed : ∀ e ∈ l.entries.rows, Filed l e

theorem Table.kept_empty {ρ : Type} [NamedRecord ρ] (users : Int → Prop) :
    ({} : Table ρ).Kept users where
  tidy := tidy_empty
  owned := by simp
  distinct := by simp
  readable := by simp

theorem intact_empty : Intact {} where
  users := Table.tidy_empty
  usernames := by simp
  reporting := by simp
  currencies := Table.kept_empty _
  categories := Table.kept_empty _
  sources := Table.kept_empty _
  funded := by simp
  entries := Table.tidy_empty
  filed := by simp

/-- What is there to refer to in one ledger is there in another. -/
structure Keeps (l m : Ledger) : Prop where
  users : ∀ user, l.users.Has user → m.users.Has user
  categories : ∀ user id, l.categories.Owns user id → m.categories.Owns user id
  currencies : ∀ user id, l.currencies.Owns user id → m.currencies.Owns user id
  sources : ∀ user id, l.sources.Owns user id → m.sources.Owns user id
  held : ∀ id, l.sources.Has id → m.currencyOf id = l.currencyOf id

theorem Keeps.refl (l : Ledger) : Keeps l l :=
  ⟨fun _ h => h, fun _ _ h => h, fun _ _ h => h, fun _ _ h => h, fun _ _ => rfl⟩

theorem Filed.mono {l m : Ledger} {e : Row StoredEntry} (h : Filed l e) (ho : e.odd = [])
    (hk : Keeps l m) : Filed m e where
  owner := hk.users _ h.owner
  category := hk.categories _ _ h.category
  currency := hk.currencies _ _ h.currency
  source := hk.sources _ _ h.source
  secondary id hid := hk.sources _ _ (h.secondary id hid)
  apart := h.apart
  held hmoves := by
    rw [hk.held _ h.source.has]
    exact h.held hmoves
  effects := by
    rw [Ledger.effects_congr ho (hk.held _ h.source.has)]
    exact h.effects

end Bookkeeping.Store
