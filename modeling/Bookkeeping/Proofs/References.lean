import Bookkeeping.Proofs.Integrity

/-! # References

The columns in which rows refer to other rows, and what it means that nothing new is referred to but
rows that are active.
-/

namespace Bookkeeping.Store

/-- The columns that refer to other rows of a user. -/
inductive Reference where
  /-- The currency that a user reports in. -/
  | reporting
  /-- The currency that a source is held in. -/
  | held
  /-- The category, the currency and the sources of an entry. -/
  | category
  | currency
  | source
  | secondary
  deriving DecidableEq, Repr

/-- What an entry refers to in a column. -/
def StoredEntry.refersTo (e : StoredEntry) : Reference → Option Int
  | .category => some e.category
  | .currency => some e.currency
  | .source => some e.source
  | .secondary => e.secondary
  | .reporting | .held => none

namespace Ledger

/-- Whether a row of a user refers to an id in a column. -/
def Refers (l : Ledger) (k : Reference) (user row id : Int) : Prop :=
  match k with
  | .reporting => ∃ u ∈ l.users.rows, u.id = row ∧ u.id = user ∧ u.data.fixedCurrency = some id
  | .held => ∃ s ∈ l.sources.rows, s.id = row ∧ s.data.owner = user ∧ s.data.currency = id
  | k => ∃ e ∈ l.entries.rows, e.id = row ∧ e.data.owner = user ∧ e.data.refersTo k = some id

/-- Something about the table that a column refers to. -/
def AtTarget (l : Ledger) (k : Reference)
    (P : {ρ : Type} → [NamedRecord ρ] → Table ρ → Prop) : Prop :=
  match k with
  | .reporting | .held | .currency => P l.currencies
  | .category => P l.categories
  | .source | .secondary => P l.sources

/-- Whether a user's rows may begin to refer to an id in a column: its row is the user's and not
archived. -/
def Offers (l : Ledger) (k : Reference) (user id : Int) : Prop :=
  l.AtTarget k fun {_} [_] t => t.OwnsActive user id

/-- Whether an id could be referred to on the way to a later ledger: its row could be before, or it is
new and can be now. -/
def Eligible (l m : Ledger) (k : Reference) (user id : Int) : Prop :=
  l.Offers k user id ∨ (¬ l.AtTarget k fun {_} [_] t => t.Has id) ∧ m.Offers k user id

/-- A later ledger refers to nothing new but what it may begin to refer to. -/
def Adopts (l m : Ledger) : Prop :=
  ∀ k user row id, m.Refers k user row id → l.Refers k user row id ∨ l.Eligible m k user id

instance (l : Ledger) (k : Reference) (user row id : Int) : Decidable (l.Refers k user row id) :=
  match k with
  | .reporting => inferInstanceAs (Decidable (∃ u ∈ l.users.rows, u.id = row ∧ u.id = user ∧
      u.data.fixedCurrency = some id))
  | .held => inferInstanceAs (Decidable (∃ s ∈ l.sources.rows, s.id = row ∧ s.data.owner = user ∧
      s.data.currency = id))
  | .category => inferInstanceAs (Decidable (∃ e ∈ l.entries.rows, e.id = row ∧
      e.data.owner = user ∧ e.data.refersTo .category = some id))
  | .currency => inferInstanceAs (Decidable (∃ e ∈ l.entries.rows, e.id = row ∧
      e.data.owner = user ∧ e.data.refersTo .currency = some id))
  | .source => inferInstanceAs (Decidable (∃ e ∈ l.entries.rows, e.id = row ∧
      e.data.owner = user ∧ e.data.refersTo .source = some id))
  | .secondary => inferInstanceAs (Decidable (∃ e ∈ l.entries.rows, e.id = row ∧
      e.data.owner = user ∧ e.data.refersTo .secondary = some id))

namespace Adopts

variable {l m : Ledger}

theorem refl (l : Ledger) : l.Adopts l := fun _ _ _ _ h => .inl h

/-- It is enough to look at the rows that refer to others: each has its references from before, or
only such as may be made. -/
theorem of_rows
    (users : ∀ u ∈ m.users.rows, ∀ c, u.data.fixedCurrency = some c →
      (∃ r ∈ l.users.rows, r.id = u.id ∧ r.data.fixedCurrency = some c) ∨
        l.Eligible m .reporting u.id c)
    (sources : ∀ x ∈ m.sources.rows, (∃ r ∈ l.sources.rows, r.id = x.id ∧
      r.data.owner = x.data.owner ∧ r.data.currency = x.data.currency) ∨
      l.Eligible m .held x.data.owner x.data.currency)
    (entries : ∀ e ∈ m.entries.rows, (∃ r ∈ l.entries.rows, r.id = e.id ∧
      r.data.owner = e.data.owner ∧ r.data.refersTo = e.data.refersTo) ∨
      ∀ k id, e.data.refersTo k = some id → l.Eligible m k e.data.owner id) : l.Adopts m := by
  intro k user row id h
  cases k with
  | reporting =>
    obtain ⟨u, hu, rfl, rfl, hc⟩ := h
    exact (users u hu id hc).imp_left fun ⟨r, hr, hid, hrc⟩ => ⟨r, hr, hid, hid, hrc⟩
  | held =>
    obtain ⟨x, hx, rfl, rfl, rfl⟩ := h
    exact sources x hx
  | _ =>
    obtain ⟨e, he, rfl, rfl, hid⟩ := h
    refine (entries e he).imp (fun ⟨r, hr, hrid, ho, hsame⟩ => ⟨r, hr, hrid, ho, ?_⟩)
      fun heligible => heligible _ id hid
    rw [hsame]
    exact hid

/-- Only users may refer to anything else than before. -/
theorem of_users
    (users : ∀ u ∈ m.users.rows, ∀ c, u.data.fixedCurrency = some c →
      (∃ r ∈ l.users.rows, r.id = u.id ∧ r.data.fixedCurrency = some c) ∨
        l.Eligible m .reporting u.id c)
    (hs : m.sources = l.sources) (he : m.entries = l.entries) : l.Adopts m :=
  of_rows users (fun x hx => .inl ⟨x, hs ▸ hx, rfl, rfl, rfl⟩)
    fun e hmem => .inl ⟨e, he ▸ hmem, rfl, rfl, rfl⟩

/-- Only sources may refer to anything else than before. -/
theorem of_sources
    (sources : ∀ x ∈ m.sources.rows, (∃ r ∈ l.sources.rows, r.id = x.id ∧
      r.data.owner = x.data.owner ∧ r.data.currency = x.data.currency) ∨
      l.Eligible m .held x.data.owner x.data.currency)
    (hu : m.users = l.users) (he : m.entries = l.entries) : l.Adopts m :=
  of_rows (fun u hmem _ hc => .inl ⟨u, hu ▸ hmem, rfl, hc⟩) sources
    fun e hmem => .inl ⟨e, he ▸ hmem, rfl, rfl, rfl⟩

end Adopts

end Ledger

end Bookkeeping.Store
