import Bookkeeping.Proofs.CatalogCalls

/-! # Ledgers that differ in hashes only

Two ledgers are twins if one is what the other would be, had its users chosen other passwords: they
have the same rows but for the hashes in the rows of users, and these stand for each other. No
statement compares hashes or takes one for anything else, so it leads from twins to twins.
-/

namespace Bookkeeping

/-- Outcomes that are the same failure, or results that are related. -/
inductive Matches {ε α β : Type} (R : α → β → Prop) : Except ε α → Except ε β → Prop
  | ok {a : α} {b : β} (h : R a b) : Matches R (.ok a) (.ok b)
  | error (e : ε) : Matches R (.error e) (.error e)

namespace Matches

variable {ε α β γ δ : Type} {R R' : α → β → Prop} {S : γ → δ → Prop}

theorem refl (x : Except ε α) : Matches Eq x x := by
  cases x with
  | ok a => exact .ok rfl
  | error e => exact .error e

theorem mono {x : Except ε α} {y : Except ε β} (h : Matches R x y) (hR : ∀ a b, R a b → R' a b) :
    Matches R' x y := by
  cases h with
  | ok h => exact .ok (hR _ _ h)
  | error e => exact .error e

theorem bind {x : Except ε α} {y : Except ε β} {f : α → Except ε γ} {g : β → Except ε δ}
    (h : Matches R x y) (hf : ∀ a b, R a b → Matches S (f a) (g b)) :
    Matches S (x >>= f) (y >>= g) := by
  cases h with
  | ok h => exact hf _ _ h
  | error e => exact .error e

end Matches

namespace Store

/-! ## Rows of users -/

/-- The row of a user with another hash. -/
def Row.rehashed (r : Row User) (hash : String) : Row User :=
  { r with data := { r.data with passwordHash := hash } }

/-- Two schemes, and which of their hashes stand for each other in the row of an id. Such hashes are
read as they are. -/
structure Pairing where
  left : PasswordScheme
  right : PasswordScheme
  Paired : Int → String → String → Prop
  read : ∀ id h k, Paired id h k →
    Part.boundedText 0 (.text h) = .ok h ∧ Part.boundedText 0 (.text k) = .ok k

variable {p : Pairing}

/-- The row of a user, and the same row with a hash that stands for its own. No odd cell hides the
hash. -/
inductive UserTwin (p : Pairing) : Row User → Row User → Prop
  | rehashed {r : Row User} {k : String} (visible : r.odd.lookup "password_hash" = none)
    (hash : p.Paired r.id r.data.passwordHash k) : UserTwin p r (r.rehashed k)

namespace UserTwin

variable {r r' : Row User} {rows rows' : List (Row User)} {q : Row User → Bool}

/-- What does not look at the hash is the same for both rows. -/
theorem eq {α : Type} {f : Row User → α} (h : UserTwin p r r') (hf : ∀ r k, f (r.rehashed k) = f r) :
    f r' = f r := by
  cases h
  exact hf _ _

theorem any (h : List.Forall₂ (UserTwin p) rows rows') (hq : ∀ r k, q (r.rehashed k) = q r) :
    rows'.any q = rows.any q := by
  induction h with
  | nil => rfl
  | cons hr _ ih => rw [List.any_cons, List.any_cons, hr.eq hq, ih]

theorem filter (h : List.Forall₂ (UserTwin p) rows rows') (hq : ∀ r k, q (r.rehashed k) = q r) :
    List.Forall₂ (UserTwin p) (rows.filter q) (rows'.filter q) :=
  List.rel_filter (fun _ _ hr => by simp only [hr.eq hq]) h

theorem find? (h : List.Forall₂ (UserTwin p) rows rows') (hq : ∀ r k, q (r.rehashed k) = q r) :
    Option.Rel (UserTwin p) (rows.find? q) (rows'.find? q) := by
  induction h with
  | nil => exact .none
  | @cons r r' _ _ hr _ ih =>
    rw [List.find?_cons, List.find?_cons, hr.eq hq]
    cases q r with
    | true => exact .some hr
    | false => exact ih

theorem map {f f' : Row User → Row User} (h : List.Forall₂ (UserTwin p) rows rows')
    (hf : ∀ r r', UserTwin p r r' → UserTwin p (f r) (f' r')) :
    List.Forall₂ (UserTwin p) (rows.map f) (rows'.map f') :=
  List.forall₂_map_left_iff.2 (List.forall₂_map_right_iff.2 (h.imp hf))

theorem ids (h : List.Forall₂ (UserTwin p) rows rows') : rows'.map Row.id = rows.map Row.id := by
  induction h with
  | nil => rfl
  | cons hr _ ih => rw [List.map_cons, List.map_cons, ih, hr.eq (f := Row.id) fun _ _ => rfl]

/-- Rows that are changed where they meet a condition. -/
theorem change {f : Row User → Row User} (h : List.Forall₂ (UserTwin p) rows rows')
    (hq : ∀ r k, q (r.rehashed k) = q r) (hf : ∀ r r', UserTwin p r r' → UserTwin p (f r) (f r')) :
    List.Forall₂ (UserTwin p) (rows.map fun r => if q r then f r else r)
      (rows'.map fun r => if q r then f r else r) := by
  refine map h fun r r' hr => ?_
  rw [hr.eq hq]
  split
  · exact hf r r' hr
  · exact hr

theorem visible_oddBut (h : r.odd.lookup "password_hash" = none)
    (column : String) : (r.oddBut column).lookup "password_hash" = none := by
  rw [List.lookup_eq_none_iff] at h ⊢
  exact fun x hx => h x (List.mem_filter.1 hx).1

/-- New data with hashes that stand for each other. -/
theorem put {u : User} {k : String} (h : UserTwin p r r') (column : String)
    (hash : p.Paired r.id u.passwordHash k) :
    UserTwin p (r.put column u) (r'.put column { u with passwordHash := k }) := by
  cases h with
  | rehashed visible =>
    exact .rehashed (r := r.put column u) (visible_oddBut visible column) hash

/-- The same odd cell in place of what the data has, where it does not hide the hash. -/
theorem keep {column : String} (h : UserTwin p r r') (hc : column ≠ "password_hash") (c : Cell) :
    UserTwin p (r.keep column c) (r'.keep column c) := by
  cases h with
  | rehashed visible hash =>
    refine .rehashed (r := r.keep column c) ?_ hash
    rw [Row.keep, List.lookup_cons, beq_eq_false_iff_ne.2 hc.symm]
    exact visible_oddBut visible column

/-- Changes of one row that neither look at its hash nor change its id. -/
def Changes (p : Pairing) (f f' : Row User → Stored (Row User)) : Prop :=
  ∀ r r', UserTwin p r r' → Matches (fun x x' => UserTwin p x x' ∧ x.id = r.id) (f r) (f' r')

end UserTwin

/-- Fields that differ in a hash that is read as it is give users that differ in it. -/
theorem read_rehashed (fs fs' : List (String × Value)) {h k : String}
    (hh : Part.boundedText 0 (.text h) = .ok h) (hk : Part.boundedText 0 (.text k) = .ok k)
    (hl : fs.lookup "password_hash" = some (.text h))
    (hl' : fs'.lookup "password_hash" = some (.text k))
    (hrest : ∀ name, name ≠ "password_hash" → fs'.lookup name = fs.lookup name) :
    (∃ flaws, User.read fs = .flaws flaws ∧ User.read fs' = .flaws flaws) ∨
      ∃ a, User.read fs = .ok a ∧ a.data.passwordHash = h ∧
        User.read fs' = .ok { a with data := { a.data with passwordHash := k } } := by
  have hpart : Part.required fs "password_hash" (Part.boundedText 0) = .ok h := by
    simp [Part.required, hl, hh]
  have hpart' : Part.required fs' "password_hash" (Part.boundedText 0) = .ok k := by
    simp [Part.required, hl', hk]
  have hid : Record.readId fs' = Record.readId fs := by
    rw [Record.readId, Part.withDefault, hrest _ (by decide), Record.readId, Part.withDefault]
  have hname : Part.required fs' "username" Part.name = Part.required fs "username" Part.name := by
    rw [Part.required, hrest _ (by decide), Part.required]
  have hcurrency : Part.withDefault fs' "fixed_currency_id" (Part.optional Part.int) none
      = Part.withDefault fs "fixed_currency_id" (Part.optional Part.int) none := by
    rw [Part.withDefault, hrest _ (by decide), Part.withDefault]
  have henabled : Part.withDefault fs' "enabled" Part.bool false
      = Part.withDefault fs "enabled" Part.bool false := by
    rw [Part.withDefault, hrest _ (by decide), Part.withDefault]
  rw [User.read, User.read, hpart, hpart', hid, hname, hcurrency, henabled]
  -- the flaws of the other parts come together in the same way whatever the hash is
  obtain ⟨_, h₁⟩ | ⟨_, h₁⟩ := (Record.readId fs).ok_or_flaws <;>
    obtain ⟨_, h₂⟩ | ⟨_, h₂⟩ := (Part.required fs "username" Part.name).ok_or_flaws <;>
    obtain ⟨_, h₃⟩ | ⟨_, h₃⟩ :=
      (Part.withDefault fs "fixed_currency_id" (Part.optional Part.int) none).ok_or_flaws <;>
    obtain ⟨_, h₄⟩ | ⟨_, h₄⟩ := (Part.withDefault fs "enabled" Part.bool false).ok_or_flaws
  all_goals rw [h₁, h₂, h₃, h₄]
  all_goals first
    | exact .inl ⟨_, rfl, rfl⟩
    | exact .inr ⟨_, rfl, rfl, rfl⟩

/-- A row of a user whose hash is visible is read as it would be with another hash. -/
theorem UserTwin.decode {r r' : Row User} (h : UserTwin p r r') (layout : Layout) :
    Matches (UserTwin p) (Persistent.decode layout r) (Persistent.decode layout r') := by
  cases h with
  | @rehashed k visible hash =>
    obtain ⟨hread, hread'⟩ := p.read _ _ _ hash
    let shown (x : Row User) : List (String × Value) := withOdd x.odd (Record.fields ⟨some x.id, x.data⟩)
    have hfields := read_rehashed (shown r) (shown (r.rehashed k)) hread hread'
      (by simp [shown, withOdd, Record.fields, User.publicFields, List.lookup_cons, visible])
      (by simp [shown, withOdd, Record.fields, User.publicFields, Row.rehashed, List.lookup_cons,
        visible])
      (fun name hname => by
        have hne : (name == "password_hash") = false := beq_eq_false_iff_ne.2 hname
        simp [shown, withOdd, Record.fields, User.publicFields, Row.rehashed, List.lookup_cons, hne])
    have hreread (x : Row User) : Persistent.decode layout x
        = (User.read (shown x)).orFail "User" >>= fun item => .ok { id := x.id, data := item.data } :=
      rfl
    rw [hreread, hreread]
    obtain ⟨flaws, hx, hy⟩ | ⟨a, hx, ha, hy⟩ := hfields
    · rw [hx, hy]
      exact .error _
    · rw [hx, hy]
      exact .ok (.rehashed (r := { id := r.id, data := a.data }) rfl (by rw [ha]; exact hash))

/-! ## Ledgers -/

namespace Ledger

/-- Ledgers that differ in the hashes of users only, which stand for each other. -/
structure Twin (p : Pairing) (l l' : Ledger) : Prop where
  users : List.Forall₂ (UserTwin p) l.users.rows l'.users.rows
  lastId : l'.users.lastId = l.users.lastId
  rest : l' = { l with users := l'.users }

variable {l l' : Ledger}

/-- The same result, with ledgers that are twins. -/
def TwinResult (p : Pairing) {β : Type} (x y : β × Ledger) : Prop := x.1 = y.1 ∧ x.2.Twin p y.2

namespace Twin

theorem currencies (h : l.Twin p l') : l'.currencies = l.currencies := by rw [h.rest]

theorem categories (h : l.Twin p l') : l'.categories = l.categories := by rw [h.rest]

theorem sources (h : l.Twin p l') : l'.sources = l.sources := by rw [h.rest]

theorem entries (h : l.Twin p l') : l'.entries = l.entries := by rw [h.rest]

theorem hasUser (h : l.Twin p l') : l'.users.contains = l.users.contains :=
  funext fun _ => UserTwin.any h.users fun _ _ => rfl

theorem nextId (h : l.Twin p l') : l'.users.nextId = l.users.nextId := by
  have hfold (t : Table User) : t.largestId = (t.rows.map Row.id).foldl max t.lastId := by
    rw [Table.largestId, List.foldl_map]
  rw [Table.nextId, Table.nextId, hfold, hfold, UserTwin.ids h.users, h.lastId]

theorem withCurrencies (h : l.Twin p l') (t : Table Currency) :
    ({ l with currencies := t } : Ledger).Twin p { l' with currencies := t } :=
  ⟨h.users, h.lastId, congrArg (fun l : Ledger => { l with currencies := t }) h.rest⟩

theorem withCategories (h : l.Twin p l') (t : Table Category) :
    ({ l with categories := t } : Ledger).Twin p { l' with categories := t } :=
  ⟨h.users, h.lastId, congrArg (fun l : Ledger => { l with categories := t }) h.rest⟩

theorem withSources (h : l.Twin p l') (t : Table Source) :
    ({ l with sources := t } : Ledger).Twin p { l' with sources := t } :=
  ⟨h.users, h.lastId, congrArg (fun l : Ledger => { l with sources := t }) h.rest⟩

theorem withEntries (h : l.Twin p l') (t : Table StoredEntry) :
    ({ l with entries := t } : Ledger).Twin p { l' with entries := t } :=
  ⟨h.users, h.lastId, congrArg (fun l : Ledger => { l with entries := t }) h.rest⟩

theorem withUsers (h : l.Twin p l') {t t' : Table User}
    (hrows : List.Forall₂ (UserTwin p) t.rows t'.rows) (hid : t'.lastId = t.lastId) :
    ({ l with users := t } : Ledger).Twin p { l' with users := t' } :=
  ⟨hrows, hid, congrArg (fun l : Ledger => { l with users := t' }) h.rest⟩

/-! ### Removing rows -/

theorem removeCategories (h : l.Twin p l') (q : Row Category → Bool) :
    Matches (Twin p) (l.removeCategories q) (l'.removeCategories q) := by
  have hsame : removeUnused l'.categories l'.usesCategory q
      = removeUnused l.categories l.usesCategory q := by rw [h.rest]; rfl
  rw [Ledger.removeCategories, Ledger.removeCategories, hsame]
  exact (Matches.refl _).bind fun t _ ht => ht ▸ .ok (h.withCategories t)

theorem removeSources (h : l.Twin p l') (q : Row Source → Bool) :
    Matches (Twin p) (l.removeSources q) (l'.removeSources q) := by
  have hsame : removeUnused l'.sources l'.usesSource q = removeUnused l.sources l.usesSource q := by
    rw [h.rest]; rfl
  rw [Ledger.removeSources, Ledger.removeSources, hsame]
  exact (Matches.refl _).bind fun t _ ht => ht ▸ .ok (h.withSources t)

theorem removeEntries (h : l.Twin p l') (q : Row StoredEntry → Bool) :
    (l.removeEntries q).Twin p (l'.removeEntries q) := by
  rw [Ledger.removeEntries, Ledger.removeEntries, h.entries]
  exact h.withEntries _

theorem forgetCurrencies (h : l.Twin p l') (gone : Int → Bool) :
    (l.forgetCurrencies gone).Twin p (l'.forgetCurrencies gone) := by
  refine h.withUsers (UserTwin.change h.users (fun _ _ => rfl) fun r r' hr => ?_) h.lastId
  cases hr with
  | rehashed visible hash =>
    exact .rehashed (r := { r with data := { r.data with fixedCurrency := none } }) visible hash

theorem removeCurrencies (h : l.Twin p l') (q : Row Currency → Bool) :
    Matches (Twin p) (l.removeCurrencies q) (l'.removeCurrencies q) := by
  have hsame : removeUnused l'.currencies l'.usesCurrency q
      = removeUnused l.currencies l.usesCurrency q := by rw [h.rest]; rfl
  rw [Ledger.removeCurrencies, Ledger.removeCurrencies, hsame,
    h.currencies]
  exact (Matches.refl _).bind fun t _ ht => ht ▸ .ok ((h.withCurrencies t).forgetCurrencies _)

theorem removeUsers (h : l.Twin p l') {q : Row User → Bool} (hq : ∀ r k, q (r.rehashed k) = q r) :
    Matches (Twin p) (l.removeUsers q) (l'.removeUsers q) := by
  have hgone : (fun id : Int => l'.users.rows.any fun r => q r && r.id == id)
      = fun id : Int => l.users.rows.any fun r => q r && r.id == id :=
    funext fun id => UserTwin.any h.users fun r k => by rw [hq]; rfl
  rw [Ledger.removeUsers, Ledger.removeUsers, hgone]
  refine ((h.removeEntries _).removeSources _).bind fun a b hab => (hab.removeCategories _).bind
    fun a b hab => (hab.removeCurrencies _).bind fun a b hab => .ok ?_
  exact hab.withUsers (UserTwin.filter hab.users fun r k => by rw [hq]) hab.lastId

end Twin

/-! ### Tables without hashes -/

/-- A kind of row other than users. -/
class Unhashed (ρ : Type) [Relation ρ] : Prop where
  table {p : Pairing} {l l' : Ledger} (h : l.Twin p l') :
    Relation.table (ρ := ρ) l' = Relation.table l
  withTable {p : Pairing} {l l' : Ledger} (h : l.Twin p l') (t : Table ρ) :
    (Relation.withTable l t).Twin p (Relation.withTable l' t)
  resolves {p : Pairing} {l l' : Ledger} (h : l.Twin p l') (a : ρ) :
    Relation.resolves l' a = Relation.resolves l a
  isReferenced {p : Pairing} {l l' : Ledger} (h : l.Twin p l') (id : Int) :
    Relation.isReferenced (ρ := ρ) l' id = Relation.isReferenced (ρ := ρ) l id
  remove {p : Pairing} {l l' : Ledger} (h : l.Twin p l') (q : Row ρ → Bool) :
    Matches (Twin p) (Relation.remove l q) (Relation.remove l' q)

instance : Unhashed Currency where
  table h := h.currencies
  withTable h t := h.withCurrencies t
  resolves h a := congrFun h.hasUser a.owner
  isReferenced {p l l'} h id := by
    have hused : l'.usesCurrency id = l.usesCurrency id := by rw [h.rest]; rfl
    have hreport := UserTwin.any (q := fun u => u.data.fixedCurrency == some id) h.users
      fun _ _ => rfl
    exact congrArg₂ Bool.or hused hreport
  remove h q := h.removeCurrencies q

instance : Unhashed Category where
  table h := h.categories
  withTable h t := h.withCategories t
  resolves h a := congrFun h.hasUser a.owner
  isReferenced h id := by rw [h.rest]; rfl
  remove h q := h.removeCategories q

instance : Unhashed Source where
  table h := h.sources
  withTable h t := h.withSources t
  resolves h a := by
    show (_ && _) = (_ && _)
    rw [h.hasUser, h.currencies]
  isReferenced h id := by rw [h.rest]; rfl
  remove h q := h.removeSources q

instance : Unhashed StoredEntry where
  table h := h.entries
  withTable h t := h.withEntries t
  resolves h a := by
    show (_ && _ && _ && _ && _) = (_ && _ && _ && _ && _)
    rw [h.hasUser, h.categories, h.currencies,
      h.sources]
  isReferenced _ _ := rfl
  remove h q := .ok (h.removeEntries q)

/-! ### Statements on ledgers -/

section

variable {ρ : Type} [Relation ρ] [Unhashed ρ] {enforce : Bool}

theorem Twin.checked (h : l.Twin p l') (others : List (Row ρ)) (r : Row ρ) :
    Ledger.checked enforce l' others r = Ledger.checked enforce l others r := by
  rw [Ledger.checked, Ledger.checked, Unhashed.resolves h]

theorem Twin.insert (h : l.Twin p l') (a : ρ) :
    Matches (TwinResult p) (l.insert enforce a) (l'.insert enforce a) := by
  rw [Ledger.insert, Ledger.insert, Unhashed.table h, h.checked]
  exact (Matches.refl _).bind fun r _ hr => hr ▸ .ok ⟨rfl, Unhashed.withTable h _⟩

theorem Twin.update (h : l.Twin p l') (q : Row ρ → Bool) (change : Row ρ → Stored (Row ρ)) :
    Matches (TwinResult p) (l.update enforce q change) (l'.update enforce q change) := by
  rw [Ledger.update, Ledger.update, Unhashed.table h]
  cases (Relation.table (ρ := ρ) l).rows.find? q with
  | none => exact .ok ⟨rfl, h⟩
  | some old =>
    refine (Matches.refl _).bind fun r _ hr => hr ▸ ?_
    rw [h.checked]
    refine (Matches.refl _).bind fun x _ hx => hx ▸ ?_
    rw [Unhashed.isReferenced (ρ := ρ) h]
    split
    · exact .error _
    · exact .ok ⟨rfl, Unhashed.withTable h _⟩

theorem Twin.remove (h : l.Twin p l') (q : Row ρ → Bool) :
    Matches (TwinResult p) (l.remove enforce q) (l'.remove enforce q) := by
  rw [Ledger.remove, Ledger.remove, Unhashed.table h]
  split
  · exact (Unhashed.remove h q).bind fun m m' hm => .ok ⟨rfl, hm⟩
  · exact .ok ⟨rfl, Unhashed.withTable h _⟩

end

section

variable {enforce : Bool} {others others' : List (Row User)} {r r' : Row User}

theorem Twin.checkedUser (h : l.Twin p l') (ho : List.Forall₂ (UserTwin p) others others')
    (hr : UserTwin p r r') : Matches (fun x x' => x = r ∧ x' = r')
      (Ledger.checked enforce l others r) (Ledger.checked enforce l' others' r') := by
  cases hr with
  | @rehashed k visible hash =>
    have hid : others'.any (fun other => other.id == (r.rehashed k).id)
        = others.any fun other => other.id == r.id := UserTwin.any ho fun _ _ => rfl
    have hclash : others'.any (fun other => clash other (r.rehashed k))
        = others.any fun other => clash other r := UserTwin.any ho fun _ _ => rfl
    have hresolves : Relation.resolves l' (r.rehashed k).data = Relation.resolves l r.data := by
      show r.data.fixedCurrency.all l'.currencies.contains = _
      rw [h.currencies]
      rfl
    rw [Ledger.checked, Ledger.checked, hid, hclash, hresolves]
    split
    · exact .error _
    · split
      · exact .error _
      · split
        · rename_i hbad
          rw [if_pos (by exact hbad)]
          exact .error _
        · rename_i hbad
          rw [if_neg (by exact hbad)]
          exact .ok ⟨rfl, rfl⟩

theorem Twin.insertUser (h : l.Twin p l') {u : User} {k : String}
    (hash : p.Paired l.users.nextId u.passwordHash k) :
    Matches (TwinResult p) (l.insert enforce u) (l'.insert enforce { u with passwordHash := k }) := by
  have hrow : UserTwin p { id := l.users.nextId, data := u }
      { id := l'.users.nextId, data := { u with passwordHash := k } } := by
    rw [h.nextId]
    exact .rehashed (r := { id := l.users.nextId, data := u }) rfl hash
  refine (h.checkedUser h.users hrow).bind fun x x' hx => ?_
  obtain ⟨rfl, rfl⟩ := hx
  refine .ok ⟨h.nextId.symm, h.withUsers (List.rel_append h.users (.cons hrow .nil)) h.nextId⟩

theorem Twin.updateUser (h : l.Twin p l') {q : Row User → Bool}
    (hq : ∀ r k, q (r.rehashed k) = q r) {change change' : Row User → Stored (Row User)}
    (hc : UserTwin.Changes p change change') :
    Matches (TwinResult p) (l.update enforce q change) (l'.update enforce q change') := by
  have hfind := UserTwin.find? h.users hq
  rw [Ledger.update, Ledger.update]
  have htable (l : Ledger) : Relation.table (ρ := User) l = l.users := rfl
  rw [htable, htable]
  generalize l.users.rows.find? q = found at hfind ⊢
  generalize l'.users.rows.find? q = found' at hfind ⊢
  cases hfind with
  | none => exact .ok ⟨rfl, h⟩
  | @some old old' hold =>
    refine (hc old old' hold).bind fun r r' hr => ?_
    obtain ⟨hr, hid⟩ := hr
    have hold' : old'.id = old.id := hold.eq (f := Row.id) fun _ _ => rfl
    have hid' : r'.id = r.id := hr.eq (f := Row.id) fun _ _ => rfl
    rw [hold']
    refine (h.checkedUser (UserTwin.filter h.users fun _ _ => rfl) hr).bind fun x x' hx => ?_
    obtain ⟨rfl, rfl⟩ := hx
    -- the row keeps its id, so whether it is referred to does not matter
    have hkept : (x.id != old.id) = false := by simp [hid]
    have hkept' : (x'.id != old.id) = false := by rw [hid', hkept]
    rw [hkept, hkept', Bool.and_false, Bool.false_and, Bool.false_and, if_neg (by simp),
      if_neg (by simp)]
    refine .ok ⟨rfl, h.withUsers ?_ h.lastId⟩
    rw [Table.replace, Table.replace, if_pos (by simp [hid]), if_pos (by simp [hid, hid'])]
    refine UserTwin.map h.users fun y y' hy => ?_
    rw [hy.eq (f := Row.id) fun _ _ => rfl]
    split
    · exact hr
    · exact hy

theorem Twin.removeUser (h : l.Twin p l') {q : Row User → Bool}
    (hq : ∀ r k, q (r.rehashed k) = q r) :
    Matches (TwinResult p) (l.remove enforce q) (l'.remove enforce q) := by
  have hfilter := UserTwin.filter h.users hq
  rw [Ledger.remove, Ledger.remove]
  have hcount : (Relation.table (ρ := User) l').count q = (Relation.table (ρ := User) l).count q :=
    hfilter.length_eq.symm
  rw [hcount]
  split
  · exact (h.removeUsers hq).bind fun m m' hm => .ok ⟨rfl, hm⟩
  · exact .ok ⟨rfl, h.withUsers (UserTwin.filter h.users fun r k => by rw [hq]) h.lastId⟩

end

end Ledger

end Store

end Bookkeeping
