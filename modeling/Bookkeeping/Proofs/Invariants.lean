import Bookkeeping.Proofs.Records

/-! # Invariants that writing keeps

Calls check names, amounts and rates before they store them. An invariant is lasting if it outlives
every statement that keeps to such values: rows that are new, cells that are stored in a row, rows
that are removed, and the two changes of many rows at once.
-/

namespace Bookkeeping.Store

/-! ## What is stored -/

/-- What no operation of a session changes: whether references must resolve, the scheme by which
passwords are kept, and what the clock shows. -/
structure Setting where
  enforce : Bool
  scheme : PasswordScheme
  now : String

/-- The setting of a session. -/
def Session.setting (s : Session) : Setting := ⟨s.enforce, s.scheme, s.now⟩

/-- A hash that a scheme makes of a password that passed its check. -/
def Setting.Makes (g : Setting) (hash : String) : Prop :=
  ∃ n v password, Check.password v = .ok password ∧ hash = g.scheme.hash n password

/-- An account under a proper name, with a hash that can be read. -/
structure Account (u : User) : Prop where
  name : ProperName u.username
  hash : ∃ h, Part.boundedText 0 (.text u.passwordHash) = .ok h

/-- An entry with an amount and rates above zero. -/
structure Priced (e : StoredEntry) : Prop where
  amount : IsPositive e.amount
  rate : ∀ x ∈ e.rate, IsPositive x
  rateToFixed : IsPositive e.rateToFixed

/-- An entry as calls write it down: dated by the text of a moment, and with a target that has no
blanks at its ends. -/
structure Written (e : StoredEntry) : Prop extends Priced e where
  dated : ∃ m : Calendar.Moment, e.date = m.toText
  trimmed : e.target.map Text.trim = e.target

/-- Cells for an account that leave its name alone, and give it no other hash than the scheme's. -/
structure RevisesAccount (g : Setting) (cells : List (String × Cell)) : Prop where
  name : cells.lookup "username" = none
  hash : ∀ c, cells.lookup "password" = some c → ∃ h, c = .text h ∧ g.Makes h

/-- Cells for a named row that give it no other name than a proper one. -/
def Renames (cells : List (String × Cell)) : Prop :=
  ∀ c, cells.lookup "name" = some c → ∃ n, c = .text n ∧ ProperName n

/-- Cells that change nothing but the archive flag. -/
def OnlyMarks (cells : List (String × Cell)) : Prop :=
  ∀ column, column ≠ "archived" → cells.lookup column = none

/-- An invariant that outlives what is done to the rows of one kind: rows that are new, cells that
are stored in one, and the row of an id that is removed. -/
structure Withstands (g : Setting) (I : Database → Prop) (ρ : Type) [Relation ρ] (new : ρ → Prop)
    (revises : List (String × Cell) → Prop) : Prop where
  insert : ∀ db (a : ρ) n l, I db → new a → db.ledger.insert g.enforce a = .ok (n, l) →
    I (db.withLedger l)
  update : ∀ db cells p n l, I db → revises cells →
    db.ledger.update g.enforce p (Ledger.assigned (db.layout.columns (ρ := ρ)) cells) = .ok (n, l) →
    I (db.withLedger l)
  delete : ∀ db (c : Cell) n l, I db →
    db.ledger.remove g.enforce (fun r : Row ρ => c.isInteger (.integer r.id)) = .ok (n, l) →
    I (db.withLedger l)

/-- The same for a kind of row with an owner, where all rows of one may be removed. -/
structure WithstandsOwned (g : Setting) (I : Database → Prop) (ρ : Type) [Owned ρ] (new : ρ → Prop)
    (revises : List (String × Cell) → Prop) : Prop extends Withstands g I ρ new revises where
  deleteByUser : ∀ db (c : Cell) n l, I db →
    db.ledger.remove g.enforce (fun r : Row ρ => c.isInteger (ownerCell r)) = .ok (n, l) →
    I (db.withLedger l)

/-- The same for a kind of named rows. -/
abbrev WithstandsNamed (g : Setting) (I : Database → Prop) (ρ : Type) [Named ρ] : Prop :=
  WithstandsOwned g I ρ (fun a => ProperName (Named.rowName a)) Renames

/-- An invariant that outlives every way in which calls write to a ledger. -/
structure Lasting (g : Setting) (I : Database → Prop) : Prop where
  users : Withstands g I User Account (RevisesAccount g)
  currencies : WithstandsNamed g I Currency
  categories : WithstandsNamed g I Category
  sources : WithstandsNamed g I Source
  entries : WithstandsOwned g I StoredEntry Written OnlyMarks
  release : ∀ db p f,
    (∀ r : Row User, f r = r.put "fixed_currency_id" { r.data with fixedCurrency := none }) →
    I db → I (db.withLedger { db.ledger with users := db.ledger.users.change p f })
  shift : ∀ db p d, I db → I (db.withLedger (shiftSources db.ledger p d).2)

variable {α β : Type} {g : Setting} {I : Database → Prop} {Q : α → Prop}

theorem Withstands.mono {ρ : Type} [Relation ρ] {new new' : ρ → Prop}
    {revises revises' : List (String × Cell) → Prop} (h : Withstands g I ρ new revises)
    (hn : ∀ a, new' a → new a) (hr : ∀ cells, revises' cells → revises cells) :
    Withstands g I ρ new' revises' where
  insert db a n l hi ha := h.insert db a n l hi (hn a ha)
  update db cells p n l hi hc := h.update db cells p n l hi (hr cells hc)
  delete := h.delete

theorem WithstandsOwned.mono {ρ : Type} [Owned ρ] {new new' : ρ → Prop}
    {revises revises' : List (String × Cell) → Prop} (h : WithstandsOwned g I ρ new revises)
    (hn : ∀ a, new' a → new a) (hr : ∀ cells, revises' cells → revises cells) :
    WithstandsOwned g I ρ new' revises' :=
  { h.toWithstands.mono hn hr with deleteByUser := h.deleteByUser }

/-- An invariant that does not look at rows is lasting. -/
theorem lasting_of_withLedger (h : ∀ db l, I db → I (db.withLedger l)) : Lasting g I := by
  have rows (ρ : Type) [Relation ρ] (new : ρ → Prop) (revises : List (String × Cell) → Prop) :
      Withstands g I ρ new revises :=
    ⟨fun db _ _ l hi _ _ => h db l hi, fun db _ _ _ l hi _ _ => h db l hi,
      fun db _ _ l hi _ => h db l hi⟩
  have owned (ρ : Type) [Owned ρ] (new : ρ → Prop) (revises : List (String × Cell) → Prop) :
      WithstandsOwned g I ρ new revises :=
    { rows ρ new revises with deleteByUser := fun db _ _ l hi _ => h db l hi }
  exact ⟨rows _ _ _, owned _ _ _, owned _ _ _, owned _ _ _, owned _ _ _, fun db _ _ _ => h db _,
    fun db _ _ => h db _⟩

/-! ## Cells of fields -/

/-- Fields that do not name a column have no cell for it. -/
theorem lookup_of_paramFields {column : String} {fields : List (String × Value)}
    {cells : List (String × Cell)} (hf : ∀ f ∈ fields, f.1 ≠ column)
    (h : paramFields fields = .ok cells) : cells.lookup column = none := by
  induction fields generalizing cells with
  | nil =>
    cases h
    rfl
  | cons f fields ih =>
    obtain ⟨c, -, h⟩ := Service.except_bind_ok_iff.1 h
    obtain ⟨more, hmore, h⟩ := Service.except_bind_ok_iff.1 h
    cases h
    have hne : (column == f.1) = false := by simpa using Ne.symm (hf f List.mem_cons_self)
    rw [List.lookup_cons, hne]
    exact ih (fun x hx => hf x (List.mem_cons_of_mem f hx)) hmore

theorem paramFields_single {k : String} {v : Value} {cells : List (String × Cell)}
    (h : paramFields [(k, v)] = .ok cells) : ∃ c, param v = .ok c ∧ cells = [(k, c)] := by
  obtain ⟨c, hc, h⟩ := Service.except_bind_ok_iff.1 h
  obtain ⟨rest, hrest, h⟩ := Service.except_bind_ok_iff.1 h
  cases hrest
  cases h
  exact ⟨c, hc, rfl⟩

theorem onlyMarks_single {v : Value} {cells : List (String × Cell)}
    (h : paramFields [("archived", v)] = .ok cells) : OnlyMarks cells :=
  fun _ hne => lookup_of_paramFields (by simpa using hne.symm) h

theorem OnlyMarks.renames {cells : List (String × Cell)} (h : OnlyMarks cells) : Renames cells := by
  intro c hc
  rw [h "name" (by decide)] at hc
  cases hc

/-- Changes that start with a new name, if there is one. -/
theorem renames_of_fields {name : Option String} {rest : List (String × Value)}
    {cells : List (String × Cell)} (hname : ∀ n ∈ name, ProperName n)
    (hrest : ∀ f ∈ rest, f.1 ≠ "name")
    (h : paramFields ((name.map fun n => ("name", Value.text n)).toList ++ rest) = .ok cells) :
    Renames cells := by
  cases name with
  | none =>
    intro c hc
    rw [lookup_of_paramFields hrest h] at hc
    cases hc
  | some n =>
    obtain ⟨c, hc, h⟩ := Service.except_bind_ok_iff.1 h
    obtain ⟨more, hmore, h⟩ := Service.except_bind_ok_iff.1 h
    cases hc
    cases h
    intro c hc
    cases hc
    exact ⟨n, rfl, hname n rfl⟩

end Bookkeeping.Store
