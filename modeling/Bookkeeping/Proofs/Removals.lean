import Bookkeeping.Proofs.CatalogCalls

/-! # Calls that remove rows

A row is removed once nothing refers to it, and a user after everything the user owns. So nothing is
left for the engine to do about references, and it makes no difference whether it looks after them.
-/

namespace Bookkeeping.Store

variable {s t : Session} {enforce : Bool} {l m : Ledger} {n : Nat}

/-! ## Removing from a ledger -/

theorem removeUnused_ok {α : Type} {t x : Table α} {used : Int → Bool} {p : Row α → Bool}
    (h : Ledger.removeUnused t used p = .ok x) : x = t.erase p := by
  unfold Ledger.removeUnused at h
  split at h
  · cases h
  · cases h
    rfl

theorem removeUnused_of {α : Type} {t : Table α} {used : Int → Bool} {p : Row α → Bool}
    (h : ∀ r ∈ t.rows, p r = true → used r.id = false) :
    Ledger.removeUnused t used p = .ok (t.erase p) := by
  have hnone : t.rows.any (fun r => p r && used r.id) = false := by
    rw [List.any_eq_false]
    intro r hr hu
    rw [Bool.and_eq_true] at hu
    rw [h r hr hu.1] at hu
    exact Bool.false_ne_true hu.2
  rw [Ledger.removeUnused, if_neg (by simp [hnone])]

theorem removeUnused_of_none {α : Type} {t : Table α} {used : Int → Bool} {p : Row α → Bool}
    (h : ∀ r ∈ t.rows, p r = false) : Ledger.removeUnused t used p = .ok t := by
  rw [removeUnused_of fun r hr hp => by simp [h r hr] at hp, Table.erase_of_none h]

theorem remove_ok {ρ : Type} [Relation ρ] {p : Row ρ → Bool} (h : l.remove enforce p = .ok (n, m)) :
    Relation.remove l p = .ok m ∨
      m = Relation.withTable l ((Relation.table (ρ := ρ) l).erase p) := by
  cases enforce with
  | false =>
    cases h
    exact .inr rfl
  | true =>
    cases hr : Relation.remove l p with
    | error b => simp [Ledger.remove, hr, bind, Except.bind] at h
    | ok x =>
      simp only [Ledger.remove, hr, bind, Except.bind, if_true, Except.ok.injEq,
        Prod.mk.injEq] at h
      exact .inl (congrArg _ h.2)

theorem removeCurrencies_ok {p : Row Currency → Bool} (h : l.removeCurrencies p = .ok m)
    (hunset : ∀ r ∈ l.currencies.rows, p r = true → ∀ u ∈ l.users.rows,
      u.data.fixedCurrency ≠ some r.id) : m = { l with currencies := l.currencies.erase p } := by
  unfold Ledger.removeCurrencies at h
  cases hr : Ledger.removeUnused l.currencies l.usesCurrency p with
  | error b => simp [hr, bind, Except.bind] at h
  | ok x =>
    obtain rfl := removeUnused_ok hr
    simp only [hr, bind, Except.bind, Except.ok.injEq] at h
    rw [← h, Ledger.forgetCurrencies, Table.modify_of_none]
    intro u hu
    rw [Option.any_eq_false]
    intro c hc
    simp only [List.any_eq_false, Bool.and_eq_true, beq_iff_eq, not_and]
    rintro r hr hp rfl
    exact hunset r hr hp u hu hc

/-- Removing currencies that nobody reports in removes just these. -/
theorem remove_currencies_ok {p : Row Currency → Bool} (h : l.remove enforce p = .ok (n, m))
    (hunset : ∀ r ∈ l.currencies.rows, p r = true → ∀ u ∈ l.users.rows,
      u.data.fixedCurrency ≠ some r.id) : m = { l with currencies := l.currencies.erase p } := by
  rcases remove_ok h with hr | rfl
  · exact removeCurrencies_ok hr hunset
  · rfl

theorem removeCategories_ok {p : Row Category → Bool} (h : l.removeCategories p = .ok m) :
    m = { l with categories := l.categories.erase p } := by
  unfold Ledger.removeCategories at h
  cases hr : Ledger.removeUnused l.categories l.usesCategory p with
  | error b => simp [hr, bind, Except.bind] at h
  | ok x =>
    obtain rfl := removeUnused_ok hr
    simp only [hr, bind, Except.bind, Except.ok.injEq] at h
    exact h.symm

theorem remove_categories_ok {p : Row Category → Bool} (h : l.remove enforce p = .ok (n, m)) :
    m = { l with categories := l.categories.erase p } := by
  rcases remove_ok h with hr | rfl
  · exact removeCategories_ok hr
  · rfl

theorem removeSources_ok {p : Row Source → Bool} (h : l.removeSources p = .ok m) :
    m = { l with sources := l.sources.erase p } := by
  unfold Ledger.removeSources at h
  cases hr : Ledger.removeUnused l.sources l.usesSource p with
  | error b => simp [hr, bind, Except.bind] at h
  | ok x =>
    obtain rfl := removeUnused_ok hr
    simp only [hr, bind, Except.bind, Except.ok.injEq] at h
    exact h.symm

theorem remove_sources_ok {p : Row Source → Bool} (h : l.remove enforce p = .ok (n, m)) :
    m = { l with sources := l.sources.erase p } := by
  rcases remove_ok h with hr | rfl
  · exact removeSources_ok hr
  · rfl

theorem remove_entries_ok {p : Row StoredEntry → Bool} (h : l.remove enforce p = .ok (n, m)) :
    m = { l with entries := l.entries.erase p } := by
  cases enforce <;> cases h <;> rfl

/-! ### Removing users who own nothing -/

theorem removeCurrencies_of_none {p : Row Currency → Bool}
    (h : ∀ r ∈ l.currencies.rows, p r = false) : l.removeCurrencies p = .ok l := by
  have hunset : ∀ u ∈ l.users.rows, u.data.fixedCurrency.any (fun id =>
      l.currencies.rows.any fun r => p r && r.id == id) = false := by
    intro u hu
    rw [Option.any_eq_false]
    intro c hc
    simp only [List.any_eq_false, Bool.and_eq_true, not_and]
    intro r hr hp
    rw [h r hr] at hp
    cases hp
  rw [Ledger.removeCurrencies, removeUnused_of_none h]
  show Except.ok (Ledger.forgetCurrencies l _) = _
  rw [Ledger.forgetCurrencies, Table.modify_of_none hunset]

theorem removeCategories_of_none {p : Row Category → Bool}
    (h : ∀ r ∈ l.categories.rows, p r = false) : l.removeCategories p = .ok l := by
  rw [Ledger.removeCategories, removeUnused_of_none h]
  rfl

theorem removeSources_of_none {p : Row Source → Bool} (h : ∀ r ∈ l.sources.rows, p r = false) :
    l.removeSources p = .ok l := by
  rw [Ledger.removeSources, removeUnused_of_none h]
  rfl

theorem removeEntries_of_none {p : Row StoredEntry → Bool}
    (h : ∀ r ∈ l.entries.rows, p r = false) : l.removeEntries p = l := by
  rw [Ledger.removeEntries, Table.erase_of_none h]

/-- Users who own nothing take nothing along. -/
theorem removeUsers_eq {p : Row User → Bool} (hun : ∀ u ∈ l.users.rows, p u = true →
      (∀ r ∈ l.currencies.rows, r.data.owner ≠ u.id) ∧ (∀ r ∈ l.categories.rows, r.data.owner ≠ u.id) ∧
      (∀ r ∈ l.sources.rows, r.data.owner ≠ u.id) ∧ ∀ r ∈ l.entries.rows, r.data.owner ≠ u.id) :
    l.removeUsers p = .ok { l with users := l.users.erase p } := by
  let gone (id : Int) : Bool := l.users.rows.any fun r => p r && r.id == id
  have hgone {id : Int} (hid : ∀ u ∈ l.users.rows, p u = true → id ≠ u.id) : gone id = false := by
    simp only [gone, List.any_eq_false, Bool.and_eq_true, beq_iff_eq, not_and]
    exact fun u hu hp he => hid u hu hp he.symm
  have hentries : l.removeEntries (fun r => gone r.data.owner) = l :=
    removeEntries_of_none fun r hr => hgone fun u hu hp => (hun u hu hp).2.2.2 r hr
  have hsources : l.removeSources (fun r => gone r.data.owner) = .ok l :=
    removeSources_of_none fun r hr => hgone fun u hu hp => (hun u hu hp).2.2.1 r hr
  have hcategories : l.removeCategories (fun r => gone r.data.owner) = .ok l :=
    removeCategories_of_none fun r hr => hgone fun u hu hp => (hun u hu hp).2.1 r hr
  have hcurrencies : l.removeCurrencies (fun r => gone r.data.owner) = .ok l :=
    removeCurrencies_of_none fun r hr => hgone fun u hu hp => (hun u hu hp).1 r hr
  show (do
    let l ← (l.removeEntries fun r => gone r.data.owner).removeSources fun r => gone r.data.owner
    let l ← l.removeCategories fun r => gone r.data.owner
    let l ← l.removeCurrencies fun r => gone r.data.owner
    Except.ok { l with users := l.users.erase p } : Stored Ledger) = _
  simp only [hentries, hsources, hcategories, hcurrencies, bind, Except.bind]

theorem remove_users_ok {p : Row User → Bool} (h : l.remove enforce p = .ok (n, m))
    (hun : ∀ u ∈ l.users.rows, p u = true →
      (∀ r ∈ l.currencies.rows, r.data.owner ≠ u.id) ∧ (∀ r ∈ l.categories.rows, r.data.owner ≠ u.id) ∧
      (∀ r ∈ l.sources.rows, r.data.owner ≠ u.id) ∧ ∀ r ∈ l.entries.rows, r.data.owner ≠ u.id) :
    m = { l with users := l.users.erase p } := by
  rcases remove_ok h with hr | rfl
  · exact Except.ok.inj (hr.symm.trans (removeUsers_eq hun))
  · rfl

/-! ## References to a row -/

/-- The cell of an id that may be missing, compared with an id. -/
theorem isInteger_ofInt? {v : Value} {c : Cell} (hv : v.isId = true) (h : param v = .ok c)
    (n : Option Int) : c.isInteger (.ofInt? n) = (n.any fun n => decide (v.id? = some n)) := by
  cases n with
  | none => rfl
  | some n => exact isInteger_of_isId hv h n

/-- Making users report in no currency is a step, after which nobody reports in it. -/
theorem clearFixedCurrency_ok (h : s.Ready) (hu : s.database.ledger.users.Tidy) {id : Value} {k : Nat}
    (hid : id.isId = true) (hx : (clearFixedCurrency id).exec s = (.ok k, t)) :
    ∃ p, t = s.put { s.database.ledger with users := s.database.ledger.users.change p released } ∧
      ∀ u ∈ t.database.ledger.users.rows, ∀ c ∈ u.data.fixedCurrency, id.id? ≠ some c := by
  obtain ⟨l, hrun, rfl⟩ := (write_ok User h).1 hx
  cases hc : param id with
  | error e => simp [hc, bind, Except.bind] at hrun
  | ok c =>
    simp only [hc, bind, Except.bind, Except.ok.injEq, Prod.mk.injEq] at hrun
    obtain ⟨-, rfl⟩ := hrun
    refine ⟨_, rfl, fun u hmem n hn hidn => ?_⟩
    obtain ⟨r, hr, rfl⟩ := Table.mem_change.1 hmem
    split at hn
    · cases hn
    · rename_i hp
      rw [Row.cell_of_odd_nil r (hu.proper r hr), isInteger_ofInt? hid hc] at hp
      exact hp (Option.any_eq_true _ _ |>.2 ⟨n, hn, by simpa using hidn⟩)

section

variable (h : s.Ready) (hi : Intact s.database.ledger) {id : Value} (hid : id.isId = true)
  {counts : List (String × Nat)} (hzero : ∀ c ∈ counts, c.2 = 0)

include h hi hid hzero

/-- If no entry is counted for a category, no entry is filed under it. -/
theorem unused_of_categoryReferences (hx : (categoryReferences id).exec s = (.ok counts, t)) :
    t = s ∧ ∀ e ∈ s.database.ledger.entries.rows, id.id? ≠ some e.data.category := by
  rw [categoryReferences, exec_select StoredEntry h] at hx
  cases hc : param id with
  | error e => simp [hc, bind, Except.bind] at hx
  | ok c =>
    simp only [hc, bind, Except.bind, Prod.mk.injEq, Except.ok.injEq] at hx
    obtain ⟨rfl, rfl⟩ := hx
    refine ⟨rfl, fun e he => ?_⟩
    have hnone := Table.count_eq_zero.1 (hzero _ List.mem_cons_self) e he
    rwa [StoredEntry.categoryCell, Row.cell_of_odd_nil e (hi.entries.proper e he),
      isInteger_of_isId hid hc, decide_eq_false_iff_not] at hnone

theorem unused_of_sourceReferences (hx : (sourceReferences id).exec s = (.ok counts, t)) :
    t = s ∧ ∀ e ∈ s.database.ledger.entries.rows,
      id.id? ≠ some e.data.source ∧ ∀ n ∈ e.data.secondary, id.id? ≠ some n := by
  rw [sourceReferences, exec_select StoredEntry h] at hx
  cases hc : param id with
  | error e => simp [hc, bind, Except.bind] at hx
  | ok c =>
    simp only [hc, bind, Except.bind, Prod.mk.injEq, Except.ok.injEq] at hx
    obtain ⟨rfl, rfl⟩ := hx
    refine ⟨rfl, fun e he => ?_⟩
    have hnone := Table.count_eq_zero.1 (hzero _ List.mem_cons_self) e he
    have hodd := hi.entries.proper e he
    simp only [StoredEntry.sourceCells, List.any_cons, List.any_nil, Bool.or_false,
      Row.cell_of_odd_nil e hodd, isInteger_of_isId hid hc, isInteger_ofInt? hid hc,
      Bool.or_eq_false_iff, decide_eq_false_iff_not, Option.any_eq_false] at hnone
    exact ⟨hnone.1, fun n hn => by simpa using hnone.2 n hn⟩

theorem unused_of_currencyReferences (hx : (currencyReferences id).exec s = (.ok counts, t)) :
    t = s ∧ (∀ x ∈ s.database.ledger.sources.rows, id.id? ≠ some x.data.currency) ∧
      ∀ e ∈ s.database.ledger.entries.rows, id.id? ≠ some e.data.currency := by
  rw [currencyReferences, exec_select Source h] at hx
  cases hc : param id with
  | error e => simp [hc, bind, Except.bind] at hx
  | ok c =>
    simp only [hc, bind, Except.bind, Prod.mk.injEq, Except.ok.injEq] at hx
    obtain ⟨rfl, rfl⟩ := hx
    refine ⟨rfl, fun x hx => ?_, fun e he => ?_⟩
    · have hnone := Table.count_eq_zero.1 (hzero _ List.mem_cons_self) x hx
      rwa [Source.currencyCell, Row.cell_of_odd_nil x (hi.sources.tidy.proper x hx),
        isInteger_of_isId hid hc, decide_eq_false_iff_not] at hnone
    · have hnone := Table.count_eq_zero.1 (hzero _ (List.mem_cons_of_mem _ List.mem_cons_self)) e he
      rwa [StoredEntry.currencyCell, Row.cell_of_odd_nil e (hi.entries.proper e he),
        isInteger_of_isId hid hc, decide_eq_false_iff_not] at hnone

end

end Bookkeeping.Store

namespace Bookkeeping.Service

open Store

variable {s t : Session} {user id : Value}

/-- No table counts a row that refers to the removed one. -/
theorem settles_remove {ρ : Type} [Catalog ρ] [Revisable ρ] (hs : s.Idle)
    (hi : Intact s.database.ledger) (hu : user.isId = true) (hid : id.isId = true)
    (hclear : ∀ counts u v w a found, (Catalog.usage ρ id).exec s.start = (.ok counts, u) →
      (∀ c ∈ counts, c.2 = 0) → (Catalog.beforeDelete ρ id).exec u = (.ok a, v) →
      (delete ρ id).exec v = (.ok found, w) → s.start.Settles w) {x : Unit}
    (hx : (remove ρ user id).exec s = (.ok x, t)) : s.Settles t := by
  refine settles_transaction hs (logged_ok hx) fun z hz => ?_
  obtain ⟨_, x₁, hf, h₁⟩ := Op.bind_ok hz
  obtain ⟨rfl, -⟩ := loadOwned_ok hs.ready (Revisable.kept (ρ := ρ) _ hi).tidy hu hid hf
  obtain ⟨counts, x₂, hcount, h₂⟩ := Op.bind_ok h₁
  dsimp only at h₂
  split at h₂
  · obtain ⟨_, _, hrej, -⟩ := Op.bind_ok h₂
    cases hrej
  · rename_i hzero
    obtain ⟨a, x₃, hbefore, h₃⟩ := Op.bind_ok h₂
    obtain ⟨found, x₄, hdel, he⟩ := Op.bind_ok h₃
    rw [Session.Settles, (emit_ok he).1]
    refine hclear counts x₂ x₃ x₄ a found hcount ?_ hbefore hdel
    simpa using hzero

theorem settles_removeCategory (hs : s.Idle) (hi : Intact s.database.ledger)
    (hu : user.isId = true) (hid : id.isId = true) {x : Unit}
    (hx : (remove Category user id).exec s = (.ok x, t)) : s.Settles t := by
  refine settles_remove hs hi hu hid (fun counts u v w a found hcount hzero hbefore hdel => ?_) hx
  obtain ⟨rfl, hunused⟩ := unused_of_categoryReferences hs.ready hi hid hzero hcount
  obtain ⟨-, rfl⟩ := Op.pure_ok hbefore
  obtain ⟨n, m, hrem, rfl⟩ := delete_ok hs.ready hid hdel
  obtain rfl := remove_categories_ok hrem
  refine .step rfl (.dropCategory _ fun r hr hp e he hcat => hunused e he ?_)
  rw [hcat]
  simpa using hp

theorem settles_removeSource (hs : s.Idle) (hi : Intact s.database.ledger)
    (hu : user.isId = true) (hid : id.isId = true) {x : Unit}
    (hx : (remove Source user id).exec s = (.ok x, t)) : s.Settles t := by
  refine settles_remove hs hi hu hid (fun counts u v w a found hcount hzero hbefore hdel => ?_) hx
  obtain ⟨rfl, hunused⟩ := unused_of_sourceReferences hs.ready hi hid hzero hcount
  obtain ⟨-, rfl⟩ := Op.pure_ok hbefore
  obtain ⟨n, m, hrem, rfl⟩ := delete_ok hs.ready hid hdel
  obtain rfl := remove_sources_ok hrem
  refine .step rfl (.dropSource _ fun r hr hp e he => ?_)
  have hr : id.id? = some r.id := by simpa using hp
  exact ⟨fun hsource => (hunused e he).1 (hsource ▸ hr),
    fun hsecond => (hunused e he).2 r.id hsecond hr⟩

theorem settles_removeCurrency (hs : s.Idle) (hi : Intact s.database.ledger)
    (hu : user.isId = true) (hid : id.isId = true) {x : Unit}
    (hx : (remove Currency user id).exec s = (.ok x, t)) : s.Settles t := by
  refine settles_remove hs hi hu hid (fun counts u v w a found hcount hzero hbefore hdel => ?_) hx
  have hr := hs.ready
  obtain ⟨rfl, hsources, hentries⟩ := unused_of_currencyReferences hr hi hid hzero hcount
  -- users who report in the currency are released first
  obtain ⟨cleared, v₁, hclear, he⟩ :=
    Op.bind_ok (show (releaseCurrency id).exec s.start = (.ok a, v) from hbefore)
  obtain ⟨p, rfl, hunset⟩ := clearFixedCurrency_ok hr hi.users hid hclear
  have hv : v.database = (s.start.put { s.database.ledger with
      users := s.database.ledger.users.change p released }).database ∧ v.Ready := by
    dsimp only at he
    split at he
    · exact ⟨(emit_ok he).1, (emit_ok he).2 (hr.put _)⟩
    · obtain ⟨-, rfl⟩ := Op.pure_ok he
      exact ⟨rfl, hr.put _⟩
  obtain ⟨n, m, hrem, rfl⟩ := delete_ok hv.2 hid hdel
  rw [hv.1] at hrem
  have hm := remove_currencies_ok hrem fun r hr hp u hmem hfix =>
    hunset u hmem r.id hfix (by simpa using hp)
  refine ⟨m, by rw [Session.put, hv.1]; rfl, .tail (.single (.release p)) (hm ▸ ?_),
    hm ▸ adopts_released rfl rfl rfl⟩
  refine .dropCurrency _ (fun r hr hp u hmem hfix => ?_) (fun r hr hp x hx hcur => ?_)
    fun r hr hp e he hcur => ?_
  · exact hunset u hmem r.id hfix (by simpa using hp)
  · exact hsources x hx (by rw [hcur]; simpa using hp)
  · exact hentries e he (by rw [hcur]; simpa using hp)

end Bookkeeping.Service
