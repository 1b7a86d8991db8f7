import Bookkeeping.Proofs.Integrity

/-! # The rules of the schema

The schema asks that ids are unique, that usernames are, and the names of each user's rows, that no
column is empty unless it may be, that flags are 0 or 1 and entry types are among those there are,
and that a reference is empty or leads to a row. This is less than what calls see to, but it has to
survive statements of any kind. Here the rules are stated about the cells of rows, and shown to
survive whatever a ledger lets through while it looks after references.
-/

namespace Bookkeeping.Store

/-! ## What the schema says about a kind of row -/

/-- What the schema asks of the cells of a kind of row, by columns. -/
class SchemaOf (ρ : Type) [Relation ρ] where
  /-- The columns that refer to rows, with the tables of those rows. -/
  foreignKeys : List (String × TableName)
  /-- The columns that together must be unique. -/
  uniqueKey : List String := []
  /-- The columns that may be empty. -/
  nullable : List String := []
  /-- The columns with a domain, with the cells that are in it. -/
  domains : List (String × List Cell)

/-- The cells of a truth value. -/
def flagCells : List Cell := [.integer 0, .integer 1]

instance : SchemaOf User where
  foreignKeys := [("fixed_currency_id", .currencies)]
  uniqueKey := ["username"]
  nullable := ["fixed_currency_id"]
  domains := [("enabled", flagCells)]

instance : SchemaOf Currency where
  foreignKeys := [("user_id", .users)]
  uniqueKey := ["user_id", "name"]
  domains := [("archived", flagCells)]

instance : SchemaOf Category where
  foreignKeys := [("user_id", .users)]
  uniqueKey := ["user_id", "name"]
  domains := [("archived", flagCells)]

instance : SchemaOf Source where
  foreignKeys := [("user_id", .users), ("currency_id", .currencies)]
  uniqueKey := ["user_id", "name"]
  domains := [("archived", flagCells)]

instance : SchemaOf StoredEntry where
  foreignKeys := [("user_id", .users), ("category_id", .categories), ("currency_id", .currencies),
    ("source_id", .sources), ("secondary_source_id", .sources)]
  nullable := ["secondary_source_id", "conversion_rate", "target"]
  domains := [("archived", flagCells), ("entry_type", EntryType.all.map fun k => .text k.text)]

section

variable {ρ : Type} [Relation ρ]

/-- The cell that data has in a column, as long as the row has no odd one there. -/
def usualCell (a : ρ) (column : String) : Cell :=
  (((Relation.columns (ρ := ρ)).find? fun c => c.name == column).map fun c => c.get a).getD .null

/-- The cell of a row in a column. -/
def Row.at (r : Row ρ) (column : String) : Cell := r.cell column (usualCell r.data column)

/-- Whether a table of a ledger has a row of an id. -/
def Ledger.Has (l : Ledger) : TableName → Int → Prop
  | .users => l.users.Has
  | .currencies => l.currencies.Has
  | .categories => l.categories.Has
  | .sources => l.sources.Has
  | .entries => l.entries.Has

/-- A table of a ledger in which every row is as the schema asks. -/
structure Table.Obeys [SchemaOf ρ] (t : Table ρ) (l : Ledger) : Prop where
  ids : (t.rows.map Row.id).Nodup
  references : ∀ r ∈ t.rows, ∀ k ∈ SchemaOf.foreignKeys ρ,
    r.at k.1 = .null ∨ ∃ id, r.at k.1 = .integer id ∧ l.Has k.2 id
  unique : SchemaOf.uniqueKey ρ ≠ [] → ∀ a ∈ t.rows, ∀ b ∈ t.rows,
    (∀ column ∈ SchemaOf.uniqueKey ρ, (a.at column).same (b.at column) = true) → a = b
  filled : ∀ r ∈ t.rows, ∀ c ∈ Relation.columns (ρ := ρ), c.name ∉ SchemaOf.nullable ρ →
    r.at c.name ≠ .null
  inDomain : ∀ r ∈ t.rows, ∀ d ∈ SchemaOf.domains ρ, r.at d.1 ∈ d.2

end

/-- A ledger in which every row of every table is as the schema asks. -/
structure Ledger.Obeys (l : Ledger) : Prop where
  users : l.users.Obeys l
  currencies : l.currencies.Obeys l
  categories : l.categories.Obeys l
  sources : l.sources.Obeys l
  entries : l.entries.Obeys l

/-! ## Columns and odd cells -/

section

variable {ρ : Type} [Relation ρ]

/-- A row whose odd cells are not empty and stand in columns of doubles. -/
def Row.Plain (r : Row ρ) : Prop :=
  ∀ x ∈ r.odd, x.2 ≠ .null ∧ ∀ c ∈ Relation.columns (ρ := ρ), c.name = x.1 → c.type = .real

/-- The same, but that an odd cell may also stand in a column of integers. -/
def Row.Sturdy (r : Row ρ) : Prop :=
  ∀ x ∈ r.odd, x.2 ≠ .null ∧ ∀ c ∈ Relation.columns (ρ := ρ), c.name = x.1 → c.type ≠ .text

theorem Row.Plain.sturdy {r : Row ρ} (h : r.Plain) : r.Sturdy := by
  intro x hx
  refine ⟨(h x hx).1, fun c hc hname => ?_⟩
  rw [(h x hx).2 c hc hname]
  decide

theorem plain_of_odd_nil {r : Row ρ} (h : r.odd = []) : r.Plain := by
  intro x hx
  rw [h] at hx
  cases hx

/-- Of odd cells that refer to no row only those in columns of doubles are left. -/
theorem Row.Sturdy.plain {r : Row ρ} (h : r.Sturdy) (hr : Ledger.refersToNothing r = false) :
    r.Plain := by
  intro x hx
  refine ⟨(h x hx).1, fun c hc hname => ?_⟩
  have hint : c.type ≠ .integer := by
    intro hint
    have hall := List.any_eq_false.1 hr x hx
    exact hall (List.any_eq_true.2 ⟨c, hc, by simp [hname, hint]⟩)
  cases ht : c.type with
  | integer => exact absurd ht hint
  | real => rfl
  | text => exact absurd ht ((h x hx).2 c hc hname)

/-- A column that takes or refuses the empty cell, and any text if it is a column of texts. -/
structure Column.Solid (c : Column ρ) : Prop where
  takesNull : ∀ a, c.put .null a ≠ .ok none
  takesText : c.type = .text → ∀ s a, c.put (.text s) a ≠ .ok none

omit [Relation ρ] in
/-- A cell for which a column has no room is not empty, and not in a column of texts. -/
theorem Column.Solid.odd {c : Column ρ} (h : c.Solid) {cell : Cell} {a : ρ}
    (hput : c.put (cell.convert c.type) a = .ok none) :
    cell.convert c.type ≠ .null ∧ c.type ≠ .text := by
  have hnull : cell.convert c.type ≠ .null := by
    intro hn
    rw [hn] at hput
    exact h.takesNull a hput
  refine ⟨hnull, fun ht => ?_⟩
  rw [ht] at hnull hput
  cases cell with
  | null => exact hnull rfl
  | integer n => exact h.takesText ht _ a hput
  | real x => exact h.takesText ht _ a hput
  | text s => exact h.takesText ht _ a hput

end

namespace Column.Solid

variable {ρ : Type} {table : TableName} {name : String}

theorem ofInteger {get : ρ → Int} {put : Int → ρ → ρ} : (integer table name get put).Solid :=
  ⟨nofun, nofun⟩

theorem ofOptionalInteger {get : ρ → Option Int} {put : Option Int → ρ → ρ} :
    (optionalInteger name get put).Solid :=
  ⟨nofun, nofun⟩

theorem ofFlag {get : ρ → Bool} {put : Bool → ρ → ρ} : (flag table name get put).Solid :=
  ⟨nofun, nofun⟩

theorem ofText {get : ρ → String} {put : String → ρ → ρ} : (text table name get put).Solid :=
  ⟨nofun, nofun⟩

theorem ofOptionalText {get : ρ → Option String} {put : Option String → ρ → ρ} :
    (optionalText name get put).Solid :=
  ⟨nofun, nofun⟩

theorem ofReal {get : ρ → Float} {put : Float → ρ → ρ} : (real table name get put).Solid :=
  ⟨nofun, nofun⟩

theorem ofOptionalReal {get : ρ → Option Float} {put : Option Float → ρ → ρ} :
    (optionalReal name get put).Solid :=
  ⟨nofun, nofun⟩

theorem ofKind {get : ρ → EntryType} {put : EntryType → ρ → ρ} : (kind table name get put).Solid where
  takesNull := nofun
  takesText _ s a := by
    simp only [kind]
    cases EntryType.ofText? s <;> nofun

end Column.Solid

/-! ## Tables and ledgers that keep to the rules -/

section

variable {ρ : Type} [Relation ρ] [SchemaOf ρ]

/-- Whether data refers to the row of an id in a table. -/
def RefersTo (a : ρ) (table : TableName) (id : Int) : Prop :=
  ∃ k ∈ SchemaOf.foreignKeys ρ, k.2 = table ∧ usualCell a k.1 = .integer id

/-- Whether a row of a table refers to the row of an id in a table. -/
def Table.Needs (t : Table ρ) (table : TableName) (id : Int) : Prop :=
  ∃ r ∈ t.rows, RefersTo r.data table id

omit [SchemaOf ρ] in
/-- A table without two rows of one id or one key, in which odd cells are where they may be. -/
structure Table.Tight (t : Table ρ) : Prop where
  ids : (t.rows.map Row.id).Nodup
  keys : ∀ a ∈ t.rows, ∀ b ∈ t.rows, Relation.key a ≠ [] → Relation.key a = Relation.key b →
    a.id = b.id
  plain : ∀ r ∈ t.rows, r.Plain

end

/-- Whether a row of a ledger refers to the row of an id in a table. -/
def Ledger.Needs (l : Ledger) (table : TableName) (id : Int) : Prop :=
  l.users.Needs table id ∨ l.currencies.Needs table id ∨ l.categories.Needs table id
    ∨ l.sources.Needs table id ∨ l.entries.Needs table id

/-- A ledger whose tables keep to the rules, and in which no row refers to nothing. -/
structure Sound (l : Ledger) : Prop where
  users : l.users.Tight
  currencies : l.currencies.Tight
  categories : l.categories.Tight
  sources : l.sources.Tight
  entries : l.entries.Tight
  resolve : ∀ table id, l.Needs table id → l.Has table id

/-- The schema of a kind of row and what a ledger does with its rows agree. -/
class LawfulSchema (ρ : Type) [Relation ρ] [SchemaOf ρ] : Prop where
  names : ((Relation.columns (ρ := ρ)).map Column.name).Nodup
  solid : ∀ c ∈ Relation.columns (ρ := ρ), c.Solid
  filled : ∀ c ∈ Relation.columns (ρ := ρ), c.name ∉ SchemaOf.nullable ρ → ∀ a, c.get a ≠ .null
  inDomain : ∀ d ∈ SchemaOf.domains ρ, ∀ a : ρ, usualCell a d.1 ∈ d.2
  /-- References, keys and domains are not about columns of doubles. -/
  exact : ∀ column ∈ (SchemaOf.foreignKeys ρ).map Prod.fst ++ SchemaOf.uniqueKey ρ
    ++ (SchemaOf.domains ρ).map Prod.fst, ∃ c ∈ Relation.columns (ρ := ρ),
      c.name = column ∧ c.type ≠ .real
  reference : ∀ k ∈ SchemaOf.foreignKeys ρ, ∀ a : ρ,
    usualCell a k.1 = .null ∨ ∃ id, usualCell a k.1 = .integer id
  /-- No row refers to one of its own table. -/
  elsewhere : ∀ k ∈ SchemaOf.foreignKeys ρ, k.2 ≠ Relation.name ρ
  key_eq : ∀ r : Row ρ, r.Plain → Relation.key r = (SchemaOf.uniqueKey ρ).map r.at
  key_exact : ∀ column ∈ SchemaOf.uniqueKey ρ, ∀ a : ρ,
    (∃ n, usualCell a column = .integer n) ∨ ∃ s, usualCell a column = .text s
  resolves : ∀ (l : Ledger) (a : ρ), Relation.resolves l a = true →
    ∀ table id, RefersTo a table id → l.Has table id
  isReferenced : ∀ (l : Ledger) id, l.Needs (Relation.name ρ) id →
    Relation.isReferenced (ρ := ρ) l id = true
  has_table : ∀ (l : Ledger) id, l.Has (Relation.name ρ) id ↔ (Relation.table (ρ := ρ) l).Has id
  table_withTable : ∀ (l : Ledger) (t : Table ρ), Relation.table (Relation.withTable l t) = t
  has_withTable : ∀ (l : Ledger) (t : Table ρ) table id, table ≠ Relation.name ρ →
    l.Has table id → (Relation.withTable l t).Has table id
  needs_table : ∀ (l : Ledger) table id, (Relation.table (ρ := ρ) l).Needs table id →
    l.Needs table id
  needs_withTable : ∀ (l : Ledger) (t : Table ρ) table id, (Relation.withTable l t).Needs table id →
    t.Needs table id ∨ l.Needs table id
  tight_table : ∀ l : Ledger, Sound l → (Relation.table (ρ := ρ) l).Tight
  sound_withTable : ∀ (l : Ledger) (t : Table ρ), Sound l → t.Tight →
    (∀ table id, (Relation.withTable l t).Needs table id → (Relation.withTable l t).Has table id) →
    Sound (Relation.withTable l t)

/-! ## The five kinds of row -/

section

variable {table : TableName} {id : Int}

theorem refersTo_user {u : User} :
    RefersTo u table id ↔ table = .currencies ∧ u.fixedCurrency = some id := by
  have hcell : usualCell u "fixed_currency_id" = Cell.ofInt? u.fixedCurrency := rfl
  cases hf : u.fixedCurrency <;>
    simp [RefersTo, SchemaOf.foreignKeys, hcell, hf, Cell.ofInt?, eq_comm]

theorem refersTo_currency {c : Currency} : RefersTo c table id ↔ table = .users ∧ c.owner = id := by
  have howner : usualCell c "user_id" = .integer c.owner := rfl
  simp [RefersTo, SchemaOf.foreignKeys, howner, eq_comm]

theorem refersTo_category {c : Category} : RefersTo c table id ↔ table = .users ∧ c.owner = id := by
  have howner : usualCell c "user_id" = .integer c.owner := rfl
  simp [RefersTo, SchemaOf.foreignKeys, howner, eq_comm]

theorem refersTo_source {s : Source} : RefersTo s table id ↔
    table = .users ∧ s.owner = id ∨ table = .currencies ∧ s.currency = id := by
  have howner : usualCell s "user_id" = .integer s.owner := rfl
  have hcurrency : usualCell s "currency_id" = .integer s.currency := rfl
  simp [RefersTo, SchemaOf.foreignKeys, howner, hcurrency, eq_comm]

theorem refersTo_entry {e : StoredEntry} : RefersTo e table id ↔
    table = .users ∧ e.owner = id ∨ table = .categories ∧ e.category = id ∨
      table = .currencies ∧ e.currency = id ∨ table = .sources ∧ e.source = id ∨
      table = .sources ∧ e.secondary = some id := by
  have howner : usualCell e "user_id" = .integer e.owner := rfl
  have hcategory : usualCell e "category_id" = .integer e.category := rfl
  have hcurrency : usualCell e "currency_id" = .integer e.currency := rfl
  have hsource : usualCell e "source_id" = .integer e.source := rfl
  have hsecond : usualCell e "secondary_source_id" = Cell.ofInt? e.secondary := rfl
  cases hs : e.secondary <;>
    simp [RefersTo, SchemaOf.foreignKeys, howner, hcategory, hcurrency, hsource, hsecond, hs,
      Cell.ofInt?, eq_comm]

theorem Table.has_of_contains {α : Type} {t : Table α} (h : t.contains id = true) : t.Has id := by
  obtain ⟨r, hr, hid⟩ := List.any_eq_true.1 h
  exact ⟨r, hr, by simpa using hid⟩

theorem ofInt?_cases (n : Option Int) :
    Cell.ofInt? n = .null ∨ ∃ id, Cell.ofInt? n = .integer id := by
  cases n with
  | none => exact .inl rfl
  | some n => exact .inr ⟨n, rfl⟩

theorem ofBool_mem (b : Bool) : Cell.ofBool b ∈ flagCells := by cases b <;> decide

/-- In a column that is none of doubles a plain row has its usual cell. -/
theorem Row.Plain.cell_eq {ρ : Type} [Relation ρ] {r : Row ρ} (h : r.Plain) (column : String)
    (hc : ∃ c ∈ Relation.columns (ρ := ρ), c.name = column ∧ c.type ≠ .real) (usual : Cell) :
    r.cell column usual = usual := by
  obtain ⟨c, hmem, rfl, ht⟩ := hc
  have hnone : r.odd.lookup c.name = none := by
    rw [List.lookup_eq_none_iff]
    intro x hx
    rw [bne_iff_ne]
    exact fun hname => ht ((h x hx).2 c hmem hname)
  rw [Row.cell, hnone]
  rfl

end

instance : LawfulSchema User where
  names := by decide
  solid := by
    simp only [Relation.columns, List.forall_mem_cons]
    exact ⟨.ofText, .ofText, .ofOptionalInteger, .ofFlag, nofun⟩
  filled := by
    simp only [Relation.columns, List.forall_mem_cons]
    exact ⟨fun _ _ => nofun, fun _ _ => nofun, fun h => absurd (by decide) h, fun _ _ => nofun,
      nofun⟩
  inDomain := by
    simp only [SchemaOf.domains, List.forall_mem_cons]
    exact ⟨fun a => ofBool_mem a.enabled, nofun⟩
  exact := by decide
  reference := by
    simp only [SchemaOf.foreignKeys, List.forall_mem_cons]
    exact ⟨fun a => ofInt?_cases a.fixedCurrency, nofun⟩
  elsewhere := by decide
  key_eq r h := by
    show [Cell.text r.data.username] = [r.cell "username" (.text r.data.username)]
    rw [h.cell_eq "username" (by decide)]
  key_exact := by
    simp only [SchemaOf.uniqueKey, List.forall_mem_cons]
    exact ⟨fun _ => .inr ⟨_, rfl⟩, nofun⟩
  resolves l u h table id hr := by
    obtain ⟨rfl, hu⟩ := refersTo_user.1 hr
    exact Table.has_of_contains ((Option.all_eq_true _ _).1 h id hu)
  isReferenced l id h := by
    simp only [Ledger.Needs, Table.Needs, Relation.name, refersTo_user, refersTo_currency,
      refersTo_category, refersTo_source, refersTo_entry] at h
    simpa [Relation.isReferenced, Ledger.usesUser, or_assoc] using h
  has_table _ _ := Iff.rfl
  table_withTable _ _ := rfl
  has_withTable l t table id hne h := by
    cases table <;> first | exact h | exact absurd rfl hne
  needs_table _ _ _ h := .inl h
  needs_withTable _ _ _ _ h := h.imp_right .inr
  tight_table _ h := h.users
  sound_withTable _ _ h ht hr := { h with users := ht, resolve := hr }

instance : LawfulSchema Currency where
  names := by decide
  solid := by
    simp only [Relation.columns, List.forall_mem_cons]
    exact ⟨.ofInteger, .ofText, .ofReal, .ofFlag, nofun⟩
  filled := by
    simp only [Relation.columns, List.forall_mem_cons]
    exact ⟨fun _ _ => nofun, fun _ _ => nofun, fun _ _ => nofun, fun _ _ => nofun, nofun⟩
  inDomain := by
    simp only [SchemaOf.domains, List.forall_mem_cons]
    exact ⟨fun a => ofBool_mem a.archived, nofun⟩
  exact := by decide
  reference := by
    simp only [SchemaOf.foreignKeys, List.forall_mem_cons]
    exact ⟨fun _ => .inr ⟨_, rfl⟩, nofun⟩
  elsewhere := by decide
  key_eq r h := by
    show [_, Cell.text r.data.name] = [_, r.cell "name" (.text r.data.name)]
    rw [h.cell_eq "name" (by decide)]
    rfl
  key_exact := by
    simp only [SchemaOf.uniqueKey, List.forall_mem_cons]
    exact ⟨fun _ => .inl ⟨_, rfl⟩, fun _ => .inr ⟨_, rfl⟩, nofun⟩
  resolves l c h table id hr := by
    obtain ⟨rfl, rfl⟩ := refersTo_currency.1 hr
    exact Table.has_of_contains h
  isReferenced l id h := by
    simp only [Ledger.Needs, Table.Needs, Relation.name, refersTo_user, refersTo_currency,
      refersTo_category, refersTo_source, refersTo_entry] at h
    simp [Relation.isReferenced, Ledger.usesCurrency] at h ⊢
    exact h.symm
  has_table _ _ := Iff.rfl
  table_withTable _ _ := rfl
  has_withTable l t table id hne h := by
    cases table <;> first | exact h | exact absurd rfl hne
  needs_table _ _ _ h := .inr (.inl h)
  needs_withTable l t table id h := by
    rcases h with h | h | h
    · exact .inr (.inl h)
    · exact .inl h
    · exact .inr (.inr (.inr h))
  tight_table _ h := h.currencies
  sound_withTable _ _ h ht hr := { h with currencies := ht, resolve := hr }

instance : LawfulSchema Category where
  names := by decide
  solid := by
    simp only [Relation.columns, List.forall_mem_cons]
    exact ⟨.ofInteger, .ofText, .ofFlag, nofun⟩
  filled := by
    simp only [Relation.columns, List.forall_mem_cons]
    exact ⟨fun _ _ => nofun, fun _ _ => nofun, fun _ _ => nofun, nofun⟩
  inDomain := by
    simp only [SchemaOf.domains, List.forall_mem_cons]
    exact ⟨fun a => ofBool_mem a.archived, nofun⟩
  exact := by decide
  reference := by
    simp only [SchemaOf.foreignKeys, List.forall_mem_cons]
    exact ⟨fun _ => .inr ⟨_, rfl⟩, nofun⟩
  elsewhere := by decide
  key_eq r h := by
    show [_, Cell.text r.data.name] = [_, r.cell "name" (.text r.data.name)]
    rw [h.cell_eq "name" (by decide)]
    rfl
  key_exact := by
    simp only [SchemaOf.uniqueKey, List.forall_mem_cons]
    exact ⟨fun _ => .inl ⟨_, rfl⟩, fun _ => .inr ⟨_, rfl⟩, nofun⟩
  resolves l c h table id hr := by
    obtain ⟨rfl, rfl⟩ := refersTo_category.1 hr
    exact Table.has_of_contains h
  isReferenced l id h := by
    simp only [Ledger.Needs, Table.Needs, Relation.name, refersTo_user, refersTo_currency,
      refersTo_category, refersTo_source, refersTo_entry] at h
    simpa [Relation.isReferenced, Ledger.usesCategory] using h
  has_table _ _ := Iff.rfl
  table_withTable _ _ := rfl
  has_withTable l t table id hne h := by
    cases table <;> first | exact h | exact absurd rfl hne
  needs_table _ _ _ h := .inr (.inr (.inl h))
  needs_withTable l t table id h := by
    rcases h with h | h | h | h
    · exact .inr (.inl h)
    · exact .inr (.inr (.inl h))
    · exact .inl h
    · exact .inr (.inr (.inr (.inr h)))
  tight_table _ h := h.categories
  sound_withTable _ _ h ht hr := { h with categories := ht, resolve := hr }

instance : LawfulSchema Source where
  names := by decide
  solid := by
    simp only [Relation.columns, List.forall_mem_cons]
    exact ⟨.ofInteger, .ofText, .ofInteger, .ofReal, .ofFlag, nofun⟩
  filled := by
    simp only [Relation.columns, List.forall_mem_cons]
    exact ⟨fun _ _ => nofun, fun _ _ => nofun, fun _ _ => nofun, fun _ _ => nofun, fun _ _ => nofun,
      nofun⟩
  inDomain := by
    simp only [SchemaOf.domains, List.forall_mem_cons]
    exact ⟨fun a => ofBool_mem a.archived, nofun⟩
  exact := by decide
  reference := by
    simp only [SchemaOf.foreignKeys, List.forall_mem_cons]
    exact ⟨fun _ => .inr ⟨_, rfl⟩, fun _ => .inr ⟨_, rfl⟩, nofun⟩
  elsewhere := by decide
  key_eq r h := by
    show [_, Cell.text r.data.name] = [_, r.cell "name" (.text r.data.name)]
    rw [h.cell_eq "name" (by decide)]
    rfl
  key_exact := by
    simp only [SchemaOf.uniqueKey, List.forall_mem_cons]
    exact ⟨fun _ => .inl ⟨_, rfl⟩, fun _ => .inr ⟨_, rfl⟩, nofun⟩
  resolves l s h table id hr := by
    rw [Relation.resolves, instRelationSource] at h
    simp only [Bool.and_eq_true] at h
    rcases refersTo_source.1 hr with ⟨rfl, rfl⟩ | ⟨rfl, rfl⟩
    · exact Table.has_of_contains h.1
    · exact Table.has_of_contains h.2
  isReferenced l id h := by
    simp only [Ledger.Needs, Table.Needs, Relation.name, refersTo_user, refersTo_currency,
      refersTo_category, refersTo_source, refersTo_entry] at h
    simpa [Relation.isReferenced, Ledger.usesSource] using h
  has_table _ _ := Iff.rfl
  table_withTable _ _ := rfl
  has_withTable l t table id hne h := by
    cases table <;> first | exact h | exact absurd rfl hne
  needs_table _ _ _ h := .inr (.inr (.inr (.inl h)))
  needs_withTable l t table id h := by
    rcases h with h | h | h | h | h
    · exact .inr (.inl h)
    · exact .inr (.inr (.inl h))
    · exact .inr (.inr (.inr (.inl h)))
    · exact .inl h
    · exact .inr (.inr (.inr (.inr (.inr h))))
  tight_table _ h := h.sources
  sound_withTable _ _ h ht hr := { h with sources := ht, resolve := hr }

instance : LawfulSchema StoredEntry where
  names := by decide
  solid := by
    simp only [Relation.columns, List.forall_mem_cons]
    exact ⟨.ofInteger, .ofText, .ofInteger, .ofReal, .ofText, .ofText, .ofInteger, .ofKind,
      .ofInteger, .ofOptionalInteger, .ofOptionalReal, .ofReal, .ofFlag, .ofOptionalText, nofun⟩
  filled := by
    simp only [Relation.columns, List.forall_mem_cons]
    exact ⟨fun _ _ => nofun, fun _ _ => nofun, fun _ _ => nofun, fun _ _ => nofun, fun _ _ => nofun,
      fun _ _ => nofun, fun _ _ => nofun, fun _ _ => nofun, fun _ _ => nofun,
      fun h => absurd (by decide) h, fun h => absurd (by decide) h, fun _ _ => nofun,
      fun _ _ => nofun, fun h => absurd (by decide) h, nofun⟩
  inDomain := by
    simp only [SchemaOf.domains, List.forall_mem_cons]
    refine ⟨fun a => ofBool_mem a.archived, fun a => ?_, nofun⟩
    show Cell.text a.kind.text ∈ EntryType.all.map fun k => .text k.text
    cases a.kind <;> decide
  exact := by decide
  reference := by
    simp only [SchemaOf.foreignKeys, List.forall_mem_cons]
    exact ⟨fun _ => .inr ⟨_, rfl⟩, fun _ => .inr ⟨_, rfl⟩, fun _ => .inr ⟨_, rfl⟩,
      fun _ => .inr ⟨_, rfl⟩, fun a => ofInt?_cases a.secondary, nofun⟩
  elsewhere := by decide
  key_eq _ _ := rfl
  key_exact := nofun
  resolves l e h table id hr := by
    rw [Relation.resolves, instRelationStoredEntry] at h
    simp only [Bool.and_eq_true] at h
    obtain ⟨⟨⟨⟨howner, hcategory⟩, hcurrency⟩, hsource⟩, hsecond⟩ := h
    rcases refersTo_entry.1 hr with ⟨rfl, rfl⟩ | ⟨rfl, rfl⟩ | ⟨rfl, rfl⟩ | ⟨rfl, rfl⟩ | ⟨rfl, hs⟩
    · exact Table.has_of_contains howner
    · exact Table.has_of_contains hcategory
    · exact Table.has_of_contains hcurrency
    · exact Table.has_of_contains hsource
    · exact Table.has_of_contains ((Option.all_eq_true _ _).1 hsecond id hs)
  isReferenced l id h := by
    rcases h with ⟨r, -, h⟩ | ⟨r, -, h⟩ | ⟨r, -, h⟩ | ⟨r, -, h⟩ | ⟨r, -, h⟩
    · cases (refersTo_user.1 h).1
    · cases (refersTo_currency.1 h).1
    · cases (refersTo_category.1 h).1
    · rcases refersTo_source.1 h with h | h <;> cases h.1
    · rcases refersTo_entry.1 h with h | h | h | h | h <;> cases h.1
  has_table _ _ := Iff.rfl
  table_withTable _ _ := rfl
  has_withTable l t table id hne h := by
    cases table <;> first | exact h | exact absurd rfl hne
  needs_table _ _ _ h := .inr (.inr (.inr (.inr h)))
  needs_withTable l t table id h := by
    rcases h with h | h | h | h | h
    · exact .inr (.inl h)
    · exact .inr (.inr (.inl h))
    · exact .inr (.inr (.inr (.inl h)))
    · exact .inr (.inr (.inr (.inr (.inl h))))
    · exact .inl h
  tight_table _ h := h.entries
  sound_withTable _ _ h ht hr := { h with entries := ht, resolve := hr }

/-! ## Sound ledgers are as the schema asks -/

section

variable {ρ : Type} [Relation ρ] [SchemaOf ρ] [LawfulSchema ρ] {r : Row ρ} {column : String}

/-- In a column that is referred from, or stands in a key or has a domain, a plain row has its usual
cell. -/
theorem Row.Plain.at_eq (h : r.Plain) (hc : column ∈ (SchemaOf.foreignKeys ρ).map Prod.fst
    ++ SchemaOf.uniqueKey ρ ++ (SchemaOf.domains ρ).map Prod.fst) :
    r.at column = usualCell r.data column :=
  h.cell_eq column (LawfulSchema.exact column hc) _

theorem Row.Plain.at_foreignKey (h : r.Plain) {k : String × TableName}
    (hk : k ∈ SchemaOf.foreignKeys ρ) : r.at k.1 = usualCell r.data k.1 :=
  h.at_eq (List.mem_append_left _ (List.mem_append_left _ (List.mem_map_of_mem hk)))

theorem Row.Plain.at_key (h : r.Plain) (hc : column ∈ SchemaOf.uniqueKey ρ) :
    r.at column = usualCell r.data column :=
  h.at_eq (List.mem_append_left _ (List.mem_append_right _ hc))

theorem Row.Plain.at_domain (h : r.Plain) {d : String × List Cell} (hd : d ∈ SchemaOf.domains ρ) :
    r.at d.1 = usualCell r.data d.1 :=
  h.at_eq (List.mem_append_right _ (List.mem_map_of_mem hd))

/-- The usual cell of a column is what the column reads. -/
theorem usualCell_name {c : Column ρ} (hc : c ∈ Relation.columns) (a : ρ) :
    usualCell a c.name = c.get a := by
  unfold usualCell
  cases hf : (Relation.columns (ρ := ρ)).find? fun d => d.name == c.name with
  | none => exact absurd (beq_self_eq_true c.name) (List.find?_eq_none.1 hf c hc)
  | some d =>
    have hd : d = c := List.inj_on_of_nodup_map LawfulSchema.names (List.mem_of_find?_eq_some hf) hc
      (by simpa using List.find?_some hf)
    rw [hd]
    rfl

/-- Cells that are integers or texts are equal only if they are the same. -/
theorem Cell.eq_of_same {x y : Cell} (hx : (∃ n, x = .integer n) ∨ ∃ s, x = .text s)
    (hy : (∃ n, y = .integer n) ∨ ∃ s, y = .text s) : x.same y = true ↔ x = y := by
  rcases hx with ⟨m, rfl⟩ | ⟨s, rfl⟩ <;> rcases hy with ⟨n, rfl⟩ | ⟨t, rfl⟩ <;> simp [Cell.same]

theorem Row.Plain.key_exact (h : r.Plain) (hc : column ∈ SchemaOf.uniqueKey ρ) :
    (∃ n, r.at column = .integer n) ∨ ∃ s, r.at column = .text s := by
  rw [h.at_key hc]
  exact LawfulSchema.key_exact column hc r.data

theorem Table.Tight.obeys {t : Table ρ} {l : Ledger} (ht : t.Tight)
    (hresolve : ∀ table id, t.Needs table id → l.Has table id) : t.Obeys l where
  ids := ht.ids
  references r hr k hk := by
    rw [(ht.plain r hr).at_foreignKey hk]
    rcases LawfulSchema.reference k hk r.data with hnull | ⟨id, hid⟩
    · exact .inl hnull
    · exact .inr ⟨id, hid, hresolve _ _ ⟨r, hr, k, hk, rfl, hid⟩⟩
  unique hne a ha b hb hsame := by
    have hcells : (SchemaOf.uniqueKey ρ).map a.at = (SchemaOf.uniqueKey ρ).map b.at :=
      List.map_congr_left fun column hc =>
        (Cell.eq_of_same ((ht.plain a ha).key_exact hc) ((ht.plain b hb).key_exact hc)).1
          (hsame column hc)
    have hkey : Relation.key a = Relation.key b := by
      rw [LawfulSchema.key_eq a (ht.plain a ha), LawfulSchema.key_eq b (ht.plain b hb), hcells]
    refine List.inj_on_of_nodup_map ht.ids ha hb (ht.keys a ha b hb ?_ hkey)
    rw [LawfulSchema.key_eq a (ht.plain a ha)]
    simpa using hne
  filled r hr c hc hnull := by
    rw [Row.at, Row.cell, usualCell_name hc]
    cases hodd : r.odd.lookup c.name with
    | none => exact LawfulSchema.filled c hc hnull r.data
    | some cell =>
      obtain ⟨before, after, hsplit, -⟩ := List.lookup_eq_some_iff.1 hodd
      exact (ht.plain r hr (c.name, cell) (by simp [hsplit])).1
  inDomain r hr d hd := by
    rw [(ht.plain r hr).at_domain hd]
    exact LawfulSchema.inDomain d hd r.data

end

theorem Sound.obeys {l : Ledger} (h : Sound l) : l.Obeys where
  users := h.users.obeys fun _ _ hn => h.resolve _ _ (.inl hn)
  currencies := h.currencies.obeys fun _ _ hn => h.resolve _ _ (.inr (.inl hn))
  categories := h.categories.obeys fun _ _ hn => h.resolve _ _ (.inr (.inr (.inl hn)))
  sources := h.sources.obeys fun _ _ hn => h.resolve _ _ (.inr (.inr (.inr (.inl hn))))
  entries := h.entries.obeys fun _ _ hn => h.resolve _ _ (.inr (.inr (.inr (.inr hn))))

theorem Table.tight_empty {ρ : Type} [Relation ρ] : ({} : Table ρ).Tight where
  ids := List.nodup_nil
  keys := by simp
  plain := by simp

theorem sound_empty : Sound {} where
  users := Table.tight_empty
  currencies := Table.tight_empty
  categories := Table.tight_empty
  sources := Table.tight_empty
  entries := Table.tight_empty
  resolve := by simp [Ledger.Needs, Table.Needs]

end Bookkeeping.Store
