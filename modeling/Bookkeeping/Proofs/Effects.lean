import Bookkeeping.Proofs.Holdings
import Bookkeeping.Proofs.Ownership
import Bookkeeping.Proofs.Readability

/-! # What statements do to an intact ledger

A statement that leads from an intact ledger to an intact one breaks no constraint: no key is used
twice in an intact ledger, and every reference in it resolves. So such a statement does what it
says, whether references are looked at or not, and nothing happens to the rows of other tables.
-/

namespace Bookkeeping.Store

open Op

/-! ## Constraints of intact ledgers -/

/-- Relations whose constraints hold in every intact ledger. -/
class Governed (ρ : Type) {α : Type} [Persistent ρ α] [Held ρ] : Prop extends
    LawfulRelation ρ, Parted ρ where
  tidy {l : Ledger} (h : Intact l) : (Relation.table (ρ := ρ) l).Tidy
  apart {l : Ledger} {a b : Row ρ} (h : Intact l) (ha : a ∈ (Relation.table (ρ := ρ) l).rows)
    (hb : b ∈ (Relation.table (ρ := ρ) l).rows) (hne : a.id ≠ b.id) : Ledger.clash a b = false
  fits {l : Ledger} {r : Row ρ} (h : Intact l) (hr : r ∈ (Relation.table (ρ := ρ) l).rows) :
    (Relation.references r.data).all fitsInteger = true
  resolves {l : Ledger} {r : Row ρ} (h : Intact l) (hr : r ∈ (Relation.table (ρ := ρ) l).rows) :
    Relation.resolves l r.data = true
  resolves_withTable (l : Ledger) (t : Table ρ) (a : ρ) :
    Relation.resolves (Relation.withTable l t) a = Relation.resolves l a
  /-- Rows whose absence leaves an intact ledger are removed without consequences. -/
  remove {l : Ledger} {p : Row ρ → Bool} (h : Intact l)
    (h' : Intact (Relation.withTable l ((Relation.table (ρ := ρ) l).erase p))) :
    Relation.remove l p = .ok (Relation.withTable l ((Relation.table (ρ := ρ) l).erase p))

/-- A row that a user refers to is the user's own. -/
theorem Table.Owns.owner_eq {ρ : Type} [Owned ρ] {t : Table ρ} {user : Int} {r : Row ρ}
    (h : t.Owns user r.id) (ht : t.Tidy) (hr : r ∈ t.rows) : Owned.owner r.data = user := by
  obtain ⟨x, hx, hid, ho⟩ := h
  rw [← ht.eq_of_id hx hr hid]
  exact ho

/-! ### Who refers to a row

Whatever refers to a row belongs to the owner of the row.
-/

namespace Intact

variable {l : Ledger} (hi : Intact l) {e : Row StoredEntry} (he : e ∈ l.entries.rows)

include hi

theorem reporting_owner {r : Row Currency} (hr : r ∈ l.currencies.rows) {u : Row User}
    (hu : u ∈ l.users.rows) (h : u.data.fixedCurrency = some r.id) : u.id = r.data.owner :=
  ((hi.reporting u hu r.id h).owner_eq hi.currencies.tidy hr).symm

theorem funded_owner {r : Row Currency} (hr : r ∈ l.currencies.rows) {x : Row Source}
    (hx : x ∈ l.sources.rows) (h : x.data.currency = r.id) : x.data.owner = r.data.owner :=
  ((h ▸ hi.funded x hx).owner_eq hi.currencies.tidy hr).symm

include he

theorem category_owner {r : Row Category} (hr : r ∈ l.categories.rows)
    (h : e.data.category = r.id) : e.data.owner = r.data.owner :=
  ((h ▸ (hi.filed e he).category).owner_eq hi.categories.tidy hr).symm

theorem currency_owner {r : Row Currency} (hr : r ∈ l.currencies.rows)
    (h : e.data.currency = r.id) : e.data.owner = r.data.owner :=
  ((h ▸ (hi.filed e he).currency).owner_eq hi.currencies.tidy hr).symm

theorem source_owner {r : Row Source} (hr : r ∈ l.sources.rows)
    (h : e.data.source = r.id ∨ e.data.secondary = some r.id) : e.data.owner = r.data.owner := by
  have howns : l.sources.Owns e.data.owner r.id := by
    rcases h with hsource | hsecond
    · exact hsource ▸ (hi.filed e he).source
    · exact (hi.filed e he).secondary r.id hsecond
  exact (howns.owner_eq hi.sources.tidy hr).symm

end Intact

/-- A row that is there after some were erased is none of them. -/
theorem Table.Has.not_erased {α : Type} {t : Table α} {p : Row α → Bool} {id : Int}
    (h : (t.erase p).Has id) (ht : t.Tidy) : ∀ r ∈ t.rows, r.id = id → p r = false := by
  obtain ⟨x, hx, rfl⟩ := h
  obtain ⟨hx, hp⟩ := mem_erase.1 hx
  intro r hr hid
  rw [ht.eq_of_id hr hx hid]
  exact hp

/-- Named rows that have the same key are the same row. -/
theorem apart_named {ρ : Type} [NamedRecord ρ] [LawfulNamed ρ] {users : Int → Prop} {t : Table ρ}
    (h : t.Kept users) {a b : Row ρ} (ha : a ∈ t.rows) (hb : b ∈ t.rows) (hne : a.id ≠ b.id) :
    Ledger.clash a b = false := by
  rw [Ledger.clash, LawfulNamed.key_eq a (h.tidy.proper a ha),
    LawfulNamed.key_eq b (h.tidy.proper b hb)]
  by_contra hsame
  have hkeys : Owned.owner a.data = Owned.owner b.data ∧
      Named.rowName a.data = Named.rowName b.data := by
    simpa [Cell.same] using hsame
  exact hne (h.distinct a ha b hb hkeys.1 hkeys.2)

section

variable {l : Ledger}

theorem Intact.unusedCurrency (h : Intact l) {p : Row Currency → Bool}
    (h' : Intact { l with currencies := l.currencies.erase p }) {r : Row Currency}
    (hr : r ∈ l.currencies.rows) (hp : p r = true) : l.usesCurrency r.id = false := by
  have hkept {user id : Int} (ho : (l.currencies.erase p).Owns user id) : id ≠ r.id := by
    rintro rfl
    rw [ho.has.not_erased h.currencies.tidy r hr rfl] at hp
    cases hp
  rw [Ledger.usesCurrency, Bool.or_eq_false_iff, List.any_eq_false, List.any_eq_false]
  exact ⟨fun s hs => by simpa using hkept (h'.funded s hs),
    fun e he => by simpa using hkept (h'.filed e he).currency⟩

theorem Intact.unusedCategory (h : Intact l) {p : Row Category → Bool}
    (h' : Intact { l with categories := l.categories.erase p }) {r : Row Category}
    (hr : r ∈ l.categories.rows) (hp : p r = true) : l.usesCategory r.id = false := by
  rw [Ledger.usesCategory, List.any_eq_false]
  intro e he
  rw [beq_iff_eq]
  intro hcat
  rw [(h'.filed e he).category.has.not_erased h.categories.tidy r hr hcat.symm] at hp
  cases hp

theorem Intact.unusedSource (h : Intact l) {p : Row Source → Bool}
    (h' : Intact { l with sources := l.sources.erase p }) {r : Row Source}
    (hr : r ∈ l.sources.rows) (hp : p r = true) : l.usesSource r.id = false := by
  rw [Ledger.usesSource, List.any_eq_false]
  intro e he
  rw [Bool.or_eq_true, beq_iff_eq, beq_iff_eq, not_or]
  constructor
  · intro hsource
    rw [(h'.filed e he).source.has.not_erased h.sources.tidy r hr hsource.symm] at hp
    cases hp
  · intro hsecond
    rw [((h'.filed e he).secondary r.id hsecond).has.not_erased h.sources.tidy r hr rfl] at hp
    cases hp

/-- Nobody reports in a currency that can go. -/
theorem Intact.unsetCurrency (h : Intact l) {p : Row Currency → Bool}
    (h' : Intact { l with currencies := l.currencies.erase p }) :
    ∀ r ∈ l.currencies.rows, p r = true → ∀ u ∈ l.users.rows, u.data.fixedCurrency ≠ some r.id := by
  intro r hr hp u hu hfixed
  rw [(h'.reporting u hu r.id hfixed).has.not_erased h.currencies.tidy r hr rfl] at hp
  cases hp

end

instance : Governed User where
  tidy h := h.users
  apart h ha hb hne := by
    simp only [Ledger.clash, Relation.key, Cell.same, List.isEmpty_cons, Bool.not_false,
      Bool.true_and, List.zip_cons_cons, List.zip_nil_right, List.all_cons, List.all_nil,
      Bool.and_true, beq_eq_false_iff_ne]
    exact fun hname => hne (h.usernames _ ha _ hb hname)
  fits h hr := by
    rw [List.all_eq_true]
    intro c hc
    exact (h.reporting _ hr c (by simpa [Relation.references] using hc)).has.fits h.currencies.tidy
  resolves h hr := by
    refine (Option.all_eq_true _ _).2 fun c hc => ?_
    exact (h.reporting _ hr c hc).has.contains
  resolves_withTable _ _ _ := rfl
  remove {l p} h h' := by
    -- whatever a user owns who can go would refer to nobody without this user
    have hun {u : Row User} (hu : u ∈ l.users.rows) (hp : p u = true) {id : Int}
        (hid : (l.users.erase p).Has id) : id ≠ u.id := by
      rintro rfl
      rw [hid.not_erased h.users u hu rfl] at hp
      cases hp
    exact removeUsers_eq fun u hu hp =>
      ⟨fun r hr => hun hu hp (h'.currencies.owned r hr),
        fun r hr => hun hu hp (h'.categories.owned r hr),
        fun r hr => hun hu hp (h'.sources.owned r hr),
        fun r hr => hun hu hp (h'.filed r hr).owner⟩

instance : Governed Currency where
  tidy h := h.currencies.tidy
  apart h ha hb hne := apart_named h.currencies ha hb hne
  fits {l r} h hr := by
    have howner : l.users.Has r.data.owner := h.currencies.owned r hr
    simpa [Relation.references] using howner.fits h.users
  resolves h hr := (h.currencies.owned _ hr).contains
  resolves_withTable _ _ _ := rfl
  remove {l p} h h' := by
    have hx : Ledger.removeUnused l.currencies l.usesCurrency p = .ok (l.currencies.erase p) :=
      removeUnused_of fun r hr hp => h.unusedCurrency h' hr hp
    have hm : ∃ m, l.removeCurrencies p = .ok m := by
      rw [Ledger.removeCurrencies, hx]
      exact ⟨_, rfl⟩
    obtain ⟨m, hm⟩ := hm
    exact hm.trans (congrArg _ (removeCurrencies_ok hm (h.unsetCurrency h')))

instance : Governed Category where
  tidy h := h.categories.tidy
  apart h ha hb hne := apart_named h.categories ha hb hne
  fits {l r} h hr := by
    have howner : l.users.Has r.data.owner := h.categories.owned r hr
    simpa [Relation.references] using howner.fits h.users
  resolves h hr := (h.categories.owned _ hr).contains
  resolves_withTable _ _ _ := rfl
  remove {l p} h h' := by
    show l.removeCategories p = _
    rw [Ledger.removeCategories, removeUnused_of fun r hr hp => h.unusedCategory h' hr hp]
    rfl

instance : Governed Source where
  tidy h := h.sources.tidy
  apart h ha hb hne := apart_named h.sources ha hb hne
  fits h hr := by
    simpa [Relation.references] using ⟨(h.sources.owned _ hr).fits h.users,
      (h.funded _ hr).has.fits h.currencies.tidy⟩
  resolves h hr := by
    simpa [Relation.resolves] using ⟨(h.sources.owned _ hr).contains, (h.funded _ hr).has.contains⟩
  resolves_withTable _ _ _ := rfl
  remove {l p} h h' := by
    show l.removeSources p = _
    rw [Ledger.removeSources, removeUnused_of fun r hr hp => h.unusedSource h' hr hp]
    rfl

/-- The references of an entry that is filed fit, and they resolve. -/
theorem Filed.fits {l : Ledger} {e : Row StoredEntry} (h : Filed l e) (hi : Intact l) :
    (Relation.references e.data).all fitsInteger = true := by
  simp only [Relation.references, List.cons_append, List.nil_append, List.all_cons,
    Bool.and_eq_true, List.all_eq_true, Option.mem_toList]
  exact ⟨h.owner.fits hi.users, h.category.has.fits hi.categories.tidy,
    h.currency.has.fits hi.currencies.tidy, h.source.has.fits hi.sources.tidy,
    fun id hid => (h.secondary id hid).has.fits hi.sources.tidy⟩

theorem Filed.resolves {l : Ledger} {e : Row StoredEntry} (h : Filed l e) :
    Relation.resolves l e.data = true := by
  have hsecond : e.data.secondary.all l.sources.contains = true :=
    (Option.all_eq_true _ _).2 fun id hid => (h.secondary id hid).has.contains
  simp only [Relation.resolves, h.owner.contains, h.category.has.contains,
    h.currency.has.contains, h.source.has.contains, hsecond, Bool.and_self]

instance : Governed StoredEntry where
  tidy h := h.entries
  apart _ _ _ _ := rfl
  fits h hr := (h.filed _ hr).fits h
  resolves h hr := (h.filed _ hr).resolves
  resolves_withTable _ _ _ := rfl
  remove _ _ := rfl

/-! ## Storing and changing a row -/

section

variable {ρ α : Type} [Persistent ρ α] [Held ρ] [Governed ρ] {s : Session} {l : Ledger}

/-- A row that leaves an intact ledger may be stored. -/
theorem insertable_of_intact (enforce : Bool) {a : ρ}
    (room : (Relation.table (ρ := ρ) l).isFull = false)
    (h' : Intact (Relation.withTable l ((Relation.table (ρ := ρ) l).insert a))) :
    Insertable enforce l a := by
  have hrows {r : Row ρ} (hr : r ∈ ((Relation.table (ρ := ρ) l).insert a).rows) :
      r ∈ (Relation.table (ρ := ρ)
        (Relation.withTable l ((Relation.table (ρ := ρ) l).insert a))).rows := by
    rwa [LawfulRelation.table_withTable]
  have hnew := hrows (Table.mem_insert.2 (.inr rfl))
  refine
    { references := Governed.fits h' hnew
      room
      fresh := fun o ho => Governed.apart h' (hrows (Table.mem_insert.2 (.inl ho))) hnew ?_
      resolves := fun _ => ?_ }
  · exact Int.ne_of_lt (Table.id_lt_nextId _ ho)
  · have hres := Governed.resolves h' hnew
    rwa [Governed.resolves_withTable] at hres

/-- A row of an intact ledger is found under its id. -/
theorem exec_find (h : s.Ready) (hi : Intact s.database.ledger) {id : Value} {r : Row ρ}
    (hr : r ∈ (Relation.table (ρ := ρ) s.database.ledger).rows) (hid : id.id? = some r.id) :
    (find ρ id).exec s = (some <$> Persistent.decode .full r, s) := by
  have ht : (Relation.table (ρ := ρ) s.database.ledger).Tidy := Governed.tidy hi
  rw [find, exec_selectOne ρ h, param_of_id hid (ht.fits r hr)]
  simp only [bind, Except.bind]
  rw [pick_of_mem ρ ht hr fun x _ => by simp]

/-- A record whose row leaves an intact ledger is stored and read. -/
theorem exec_insert (h : s.Ready) (hi : Intact s.database.ledger) {a : α} {x : Row α}
    (room : (Relation.table (ρ := ρ) s.database.ledger).isFull = false)
    (h' : Intact (Relation.withTable s.database.ledger
      ((Relation.table (ρ := ρ) s.database.ledger).insert (Persistent.encode s.now a))))
    (hread : Persistent.decode .full { id := (Relation.table (ρ := ρ) s.database.ledger).nextId
                                       data := Persistent.encode (ρ := ρ) s.now a } = .ok x) :
    (Store.insert ρ a).exec s = (.ok x, s.put (Relation.withTable s.database.ledger
      ((Relation.table (ρ := ρ) s.database.ledger).insert (Persistent.encode s.now a)))) :=
  (insert_ok h (Governed.tidy hi)).2 ⟨insertable_of_intact s.enforce room h', hread, rfl⟩

omit [Held ρ] [Governed ρ] in
/-- Without an id left for it a record is not stored, and the transaction is undone. -/
theorem exec_insert_full (h : s.Ready) {a : α}
    (hfits : (Relation.references (Persistent.encode (ρ := ρ) s.now a)).all fitsInteger = true)
    (hfull : (Relation.table (ρ := ρ) s.database.ledger).isFull = true) :
    (Store.insert ρ a).exec s = (.error (.operational noRoom), s.abandon) := by
  have hcols : Layout.full.columns (ρ := ρ) = Relation.columns := by simp [Layout.columns]
  have hrun : insertion ρ a s s.database.ledger = .error (.operational noRoom) := by
    simp only [insertion, h.layout, hcols, bne_self_eq_false, Bool.false_eq_true, if_false, storable,
      hfits, if_true, hfull, bind, Except.bind]
  have hwrite : (write ρ false (insertion ρ a)).exec s = (.error (.operational noRoom), s) := by
    rw [exec_write ρ h, hrun]
  rw [insert_eq, exec_bind_error]
  rw [exec_transaction_inside _ h.inside, abandoning, exec_of, hwrite]
  rfl

/-- A row that takes the place of one with its id passes the checks if it leaves an intact
ledger. -/
theorem checked_of_intact (enforce : Bool) {r : Row ρ} (hodd : r.odd = [])
    (hr : (Relation.table (ρ := ρ) l).Has r.id)
    (h' : Intact (Relation.withTable l ((Relation.table (ρ := ρ) l).replace r.id r))) :
    Ledger.checked enforce l ((Relation.table (ρ := ρ) l).rows.filter fun x => x.id != r.id) r
      = .ok r := by
  have hrows {x : Row ρ} (hx : x ∈ ((Relation.table (ρ := ρ) l).replace r.id r).rows) :
      x ∈ (Relation.table (ρ := ρ)
        (Relation.withTable l ((Relation.table (ρ := ρ) l).replace r.id r))).rows := by
    rwa [LawfulRelation.table_withTable]
  obtain ⟨o, ho, hid⟩ := hr
  have hnew := hrows (Table.mem_replace.2 (.inl ⟨rfl, o, ho, hid⟩))
  have hresolves := Governed.resolves h' hnew
  rw [Governed.resolves_withTable] at hresolves
  have hclash : ∀ x ∈ (Relation.table (ρ := ρ) l).rows, x.id ≠ r.id → Ledger.clash x r = false :=
    fun x hx hne => Governed.apart h' (hrows (Table.mem_replace.2 (.inr ⟨hx, hne⟩))) hnew hne
  unfold Ledger.checked
  rw [if_neg (by simp), if_neg, if_neg (by simp [Ledger.refersToNothing, hodd, hresolves])]
  simpa using hclash

/-- An update of a row that leaves an intact ledger puts the changed row in its place. -/
theorem exec_update (h : s.Ready) (hi : Intact s.database.ledger) {id : Value}
    {fields : List (String × Value)} {cells : List (String × Cell)} {r : Row ρ} {a : ρ}
    (hr : r ∈ (Relation.table (ρ := ρ) s.database.ledger).rows) (hid : id.id? = some r.id)
    (hf : fields ≠ []) (hknown : missingColumn? ρ .full fields = none)
    (hc : paramFields fields = .ok cells)
    (ha : Ledger.assigned Relation.columns cells r = .ok ⟨r.id, a, []⟩)
    (h' : Intact (Relation.withTable s.database.ledger
      ((Relation.table (ρ := ρ) s.database.ledger).replace r.id ⟨r.id, a, []⟩))) :
    (update ρ id fields).exec s = (.ok true, s.put (Relation.withTable s.database.ledger
      ((Relation.table (ρ := ρ) s.database.ledger).replace r.id ⟨r.id, a, []⟩))) := by
  have hcols : Layout.full.columns (ρ := ρ) = Relation.columns := by simp [Layout.columns]
  have ht : (Relation.table (ρ := ρ) s.database.ledger).Tidy := Governed.tidy hi
  have hfind : (Relation.table (ρ := ρ) s.database.ledger).rows.find?
      (fun x => (Cell.integer r.id).isInteger (.integer x.id)) = some r :=
    ht.find?_eq hr fun x _ => by simp
  have hchecked := checked_of_intact s.enforce (r := ⟨r.id, a, []⟩) rfl ⟨r, hr, rfl⟩ h'
  have hstored : Ledger.update s.enforce s.database.ledger
      (fun x : Row ρ => (Cell.integer r.id).isInteger (.integer x.id))
      (Ledger.assigned Relation.columns cells) = .ok (1, Relation.withTable s.database.ledger
        ((Relation.table (ρ := ρ) s.database.ledger).replace r.id ⟨r.id, a, []⟩)) := by
    unfold Ledger.update
    simp only [hfind, ha, bind, Except.bind, hchecked]
    simp
  rw [update, if_neg (by simpa using hf), exec_bind, exec_write ρ h]
  simp only [h.layout, hknown, hc, param_of_id hid (ht.fits r hr), bind, Except.bind, hcols, hstored]
  rfl

end

/-! ## Removing rows -/

/-- The ledger in which nobody reports in a currency. -/
def Ledger.freed (l : Ledger) (currency : Int) : Ledger :=
  { l with users := l.users.change (fun u => u.data.fixedCurrency == some currency) released }

theorem Intact.freed {l : Ledger} (h : Intact l) (currency : Int) : Intact (l.freed currency) :=
  (Step.release _).intact h

section

variable {ρ α : Type} [Persistent ρ α] [Held ρ] [Governed ρ] {s : Session} (h : s.Ready)
  (hi : Intact s.database.ledger) {p : Row ρ → Bool}
  (h' : Intact (Relation.withTable s.database.ledger
    ((Relation.table (ρ := ρ) s.database.ledger).erase p)))

include hi h'

theorem ledger_remove_eq (enforce : Bool) : s.database.ledger.remove enforce p
    = .ok ((Relation.table (ρ := ρ) s.database.ledger).count p,
      Relation.withTable s.database.ledger
        ((Relation.table (ρ := ρ) s.database.ledger).erase p)) := by
  cases enforce with
  | false => rfl
  | true =>
    unfold Ledger.remove
    simp only [if_true, Governed.remove hi h']
    rfl

include h

/-- Removing rows that leave an intact ledger removes just these. -/
theorem exec_remove {c : Cell} {v : Value} {q : Cell → Row ρ → Bool} (hv : param v = .ok c)
    (hq : ∀ r ∈ (Relation.table (ρ := ρ) s.database.ledger).rows, q c r = p r) :
    (write ρ true fun s l => do
      let c ← param v
      .ok (l.remove s.enforce (q c))).exec s
      = (.ok ((Relation.table (ρ := ρ) s.database.ledger).count p),
        s.put (Relation.withTable s.database.ledger
          ((Relation.table (ρ := ρ) s.database.ledger).erase p))) := by
  have hp : (Relation.table (ρ := ρ) s.database.ledger).erase (q c)
      = (Relation.table (ρ := ρ) s.database.ledger).erase p := Table.erase_congr hq
  have hn : (Relation.table (ρ := ρ) s.database.ledger).count (q c)
      = (Relation.table (ρ := ρ) s.database.ledger).count p := by
    exact congrArg List.length (List.filter_congr hq)
  have hrem := ledger_remove_eq (p := q c) hi (by rwa [hp]) s.enforce
  rw [exec_write ρ h]
  simp only [hv, bind, Except.bind, hrem, hp, hn]

end

section

variable {ρ α : Type} {s : Session} (h : s.Ready) (hi : Intact s.database.ledger)

include h hi

/-- Removing a row whose absence leaves an intact ledger removes just this one. -/
theorem exec_delete [Persistent ρ α] [Held ρ] [Governed ρ] {id : Value} {r : Row ρ}
    (hr : r ∈ (Relation.table (ρ := ρ) s.database.ledger).rows) (hid : id.id? = some r.id)
    (h' : Intact (Relation.withTable s.database.ledger
      ((Relation.table (ρ := ρ) s.database.ledger).erase fun x => x.id == r.id))) :
    (delete ρ id).exec s = (.ok true, s.put (Relation.withTable s.database.ledger
      ((Relation.table (ρ := ρ) s.database.ledger).erase fun x => x.id == r.id))) := by
  have ht : (Relation.table (ρ := ρ) s.database.ledger).Tidy := Governed.tidy hi
  have hw := exec_remove h hi h' (q := fun c x => c.isInteger (.integer x.id))
    (param_of_id hid (ht.fits r hr)) fun x _ => by simp
  have hpos : 0 < (Relation.table (ρ := ρ) s.database.ledger).count fun x => x.id == r.id :=
    List.length_pos_of_mem (List.mem_filter.2 ⟨hr, by simp⟩)
  rw [delete, exec_bind, hw]
  simp only [exec_pure, hpos, decide_true]

/-- Removing the rows of a user, if that leaves an intact ledger, removes just these. -/
theorem exec_deleteByUser [OwnedRecord ρ α] [Governed ρ] {user : Value} {uid : Int}
    (huid : user.id? = some uid) (hfit : fitsInteger uid = true)
    (h' : Intact (Relation.withTable s.database.ledger
      ((Relation.table (ρ := ρ) s.database.ledger).erase fun r => Owned.owner r.data == uid))) :
    (deleteByUser ρ user).exec s
      = (.ok ((Relation.table (ρ := ρ) s.database.ledger).count fun r => Owned.owner r.data == uid),
        s.put (Relation.withTable s.database.ledger
          ((Relation.table (ρ := ρ) s.database.ledger).erase fun r => Owned.owner r.data == uid))) :=
  have ht : (Relation.table (ρ := ρ) s.database.ledger).Tidy := Governed.tidy hi
  exec_remove h hi h' (q := fun c r => c.isInteger (ownerCell r)) (param_of_id huid hfit)
    fun r hr => by simp [ownerCell, Row.cell_of_odd_nil r (ht.proper r hr)]

/-- Releasing the users who report in a currency changes just these. -/
theorem exec_clearFixedCurrency {id : Value} {n : Int} (hid : id.id? = some n)
    (hfit : fitsInteger n = true) :
    (clearFixedCurrency id).exec s
      = (.ok (s.database.ledger.users.count fun u => u.data.fixedCurrency == some n),
        s.put (s.database.ledger.freed n)) := by
  have hp (r : Row User) (hr : r ∈ s.database.ledger.users.rows) :
      (Cell.integer n).isInteger (r.cell "fixed_currency_id" (.ofInt? r.data.fixedCurrency))
        = (r.data.fixedCurrency == some n) := by
    rw [Row.cell_of_odd_nil r (hi.users.proper r hr)]
    cases r.data.fixedCurrency with
    | none => rfl
    | some c => simp [Cell.ofInt?]
  rw [clearFixedCurrency, exec_write User h]
  simp only [param_of_id hid hfit, bind, Except.bind, Table.count, Table.change]
  rw [List.filter_congr hp, List.map_congr_left fun r hr => by rw [hp r hr]]
  rfl

end

end Bookkeeping.Store
