import Bookkeeping.Proofs.CatalogAgreement
import Bookkeeping.Proofs.Departure

/-! # Removing currencies, categories and sources

A named row goes if and only if no row of another table refers to it. Who reports in a currency does
not keep it: such users are released first. Otherwise the call is rejected, and says which tables
refer to the row and how often.
-/

namespace Bookkeeping.Service

open Store Op

variable {s t : Session} {user id : Value}

/-! ## What refers to a row -/

theorem count_ne_zero {α : Type} {t : Table α} {p : Row α → Bool} :
    t.count p ≠ 0 ↔ ∃ r ∈ t.rows, p r = true := by
  rw [ne_eq, Table.count_eq_zero]
  simp

theorem count_congr {α : Type} {t : Table α} {p q : Row α → Bool} (h : ∀ r ∈ t.rows, p r = q r) :
    t.count p = t.count q :=
  congrArg List.length (List.filter_congr h)

/-- The cell of an id that may be missing, compared with that of an id. -/
theorem isInteger_integer_ofInt? (n : Int) (k : Option Int) :
    (Cell.integer n).isInteger (.ofInt? k) = (k == some n) := by
  cases k with
  | none => rfl
  | some k => simp [Cell.ofInt?, Bool.beq_comm]

namespace CatalogKind

/-- The name of a kind, as messages use it. -/
def noun : CatalogKind → String
  | currency => "currency"
  | category => "category"
  | source => "source"

/-- Whether a user owns the row of a kind under an id. -/
def Owns (l : Ledger) (user n : Int) : CatalogKind → Prop
  | currency => l.currencies.Owns user n
  | category => l.categories.Owns user n
  | source => l.sources.Owns user n

/-- Whether a row of another table refers to the row of a kind, other than by reporting in it. -/
def InUse (l : Ledger) (n : Int) : CatalogKind → Prop
  | currency => (∃ x ∈ l.sources.rows, x.data.currency = n) ∨
      ∃ e ∈ l.entries.rows, e.data.currency = n
  | category => ∃ e ∈ l.entries.rows, e.data.category = n
  | source => ∃ e ∈ l.entries.rows, e.data.source = n ∨ e.data.secondary = some n

/-- The tables that may refer to the row of a kind, each with the number of its rows that do. -/
def references (l : Ledger) (n : Int) : CatalogKind → List (String × Nat)
  | currency => [("sources", l.sources.count fun x => x.data.currency == n),
      ("entries", l.entries.count fun e => e.data.currency == n)]
  | category => [("entries", l.entries.count fun e => e.data.category == n)]
  | source => [("entries", l.entries.count fun e =>
      e.data.source == n || e.data.secondary == some n)]

/-- The number of rows of a kind under an id. -/
def count (l : Ledger) (n : Int) : CatalogKind → Nat
  | currency => l.currencies.count fun r => r.id == n
  | category => l.categories.count fun r => r.id == n
  | source => l.sources.count fun r => r.id == n

/-- The ledger without the row of a kind under an id. Who reported in a currency that is gone
reports in none. -/
def without (l : Ledger) (n : Int) : CatalogKind → Ledger
  | currency =>
    { l with
      users := l.users.change (fun u => u.data.fixedCurrency == some n) released
      currencies := l.currencies.erase fun r => r.id == n }
  | category => { l with categories := l.categories.erase fun r => r.id == n }
  | source => { l with sources := l.sources.erase fun r => r.id == n }

/-- Something refers to a row if one of the tables counts a reference. -/
theorem inUse_iff {l : Ledger} {n : Int} {kind : CatalogKind} :
    kind.InUse l n ↔ ∃ c ∈ kind.references l n, c.2 ≠ 0 := by
  cases kind <;>
    simp [InUse, references, count_ne_zero, -ne_eq]

end CatalogKind

/-! ## Counting references -/

section

variable (h : s.Ready) (hi : Intact s.database.ledger) {n : Int} (hid : id.id? = some n)
  (hn : fitsInteger n = true)

include h hi hid hn

theorem exec_currencyReferences : (currencyReferences id).exec s
    = (.ok (CatalogKind.currency.references s.database.ledger n), s) := by
  have hsources : (s.database.ledger.sources.count fun x =>
      (Cell.integer n).isInteger (Source.currencyCell x))
      = s.database.ledger.sources.count fun x => x.data.currency == n :=
    count_congr fun x hx => by
      rw [Source.currencyCell, Row.cell_of_odd_nil x (hi.sources.tidy.proper x hx),
        Cell.isInteger_integer, Bool.beq_comm]
  have hentries : (s.database.ledger.entries.count fun e =>
      (Cell.integer n).isInteger (StoredEntry.currencyCell e))
      = s.database.ledger.entries.count fun e => e.data.currency == n :=
    count_congr fun e he => by
      rw [StoredEntry.currencyCell, Row.cell_of_odd_nil e (hi.entries.proper e he),
        Cell.isInteger_integer, Bool.beq_comm]
  rw [currencyReferences, exec_select Source h, param_of_id hid hn]
  simp only [bind, Except.bind, hsources, hentries]
  rfl

theorem exec_categoryReferences : (categoryReferences id).exec s
    = (.ok (CatalogKind.category.references s.database.ledger n), s) := by
  have hentries : (s.database.ledger.entries.count fun e =>
      (Cell.integer n).isInteger (StoredEntry.categoryCell e))
      = s.database.ledger.entries.count fun e => e.data.category == n :=
    count_congr fun e he => by
      rw [StoredEntry.categoryCell, Row.cell_of_odd_nil e (hi.entries.proper e he),
        Cell.isInteger_integer, Bool.beq_comm]
  rw [categoryReferences, exec_select StoredEntry h, param_of_id hid hn]
  simp only [bind, Except.bind, hentries]
  rfl

/-- An entry that uses a source twice is counted once. -/
theorem exec_sourceReferences : (sourceReferences id).exec s
    = (.ok (CatalogKind.source.references s.database.ledger n), s) := by
  have hentries : (s.database.ledger.entries.count fun e =>
      (StoredEntry.sourceCells e).any (Cell.integer n).isInteger)
      = s.database.ledger.entries.count fun e =>
        e.data.source == n || e.data.secondary == some n :=
    count_congr fun e he => by
      have hodd := hi.entries.proper e he
      rw [StoredEntry.sourceCells, Row.cell_of_odd_nil e hodd, Row.cell_of_odd_nil e hodd,
        List.any_cons, List.any_cons, List.any_nil, Bool.or_false, Cell.isInteger_integer,
        isInteger_integer_ofInt?, Bool.beq_comm]
  rw [sourceReferences, exec_select StoredEntry h, param_of_id hid hn]
  simp only [bind, Except.bind, hentries]
  rfl

end

/-! ## Removing a row of any kind -/

section

variable {ρ : Type} [Catalog ρ] [Revisable ρ] (hs : s.Idle) (hi : Intact s.database.ledger)
  {r : Row ρ} (hr : r ∈ (Relation.table (ρ := ρ) s.database.ledger).rows)
  (hid : id.id? = some r.id) (huid : user.id? = some (Owned.owner r.data))
  {counts : List (String × Nat)}
  (husage : (Catalog.usage ρ id).exec s.start = (.ok counts, s.start))

include hs hi hr hid huid

/-- The row of a user is found. -/
theorem exec_fetch : ∃ a, (fetch ρ user id).exec s.start = (.ok a, s.start) := by
  have hk := Revisable.kept (ρ := ρ) s.database.ledger hi
  obtain ⟨a, ha⟩ := hk.readable r hr
  exact ⟨a, exec_loadOwned (s := s.start) hs.ready hk.tidy (idField ρ) hr hid huid
    ((hk.owned r hr).fits hi.users) ha fun hactive => by cases hactive⟩

include husage

/-- A row that is referred to stays. -/
theorem exec_remove_inUse (hused : ∃ c ∈ counts, c.2 ≠ 0) : ∃ t, (remove ρ user id).exec s
    = (.error (.rejected (.stillReferenced (Catalog.entity ρ) id counts)), t) ∧
      t.database = s.database := by
  obtain ⟨a, hfetch⟩ := exec_fetch hs hi hr hid huid
  have hany : (counts.any fun c => c.2 != 0) = true := by simpa using hused
  have hbody : ∃ body : Op Unit, remove ρ user id
      = logged ("delete_" ++ Catalog.entity ρ) (transaction body) ∧
      body.exec s.start
        = (.error (.rejected (.stillReferenced (Catalog.entity ρ) id counts)), s.start) := by
    refine ⟨_, rfl, ?_⟩
    rw [exec_bind_ok hfetch, exec_bind_ok husage, if_pos hany]
    rfl
  obtain ⟨body, hremove, hbody⟩ := hbody
  rw [hremove, exec_logged, exec_transaction_error hs.not_inBlock hs.breaks hbody]
  exact ⟨_, rfl, rfl⟩

/-- A row that nothing refers to goes, after what is to be done before. -/
theorem exec_remove_unused {m : Ledger} {u v : Session} (hzero : ¬ ∃ c ∈ counts, c.2 ≠ 0)
    (hbefore : (Catalog.beforeDelete ρ id).exec s.start = (.ok (), u))
    (hdelete : (delete ρ id).exec u = (.ok true, v)) (hv : v.Closes)
    (hdb : v.database = s.database.withLedger m) :
    ∃ t, (remove ρ user id).exec s = (.ok (), t) ∧ t.database = s.database.withLedger m := by
  obtain ⟨a, hfetch⟩ := exec_fetch hs hi hr hid huid
  have hany : ¬ (counts.any fun c => c.2 != 0) = true := by simpa using hzero
  have hbody : ∃ body : Op Unit, remove ρ user id
      = logged ("delete_" ++ Catalog.entity ρ) (transaction body) ∧
      ∃ w, body.exec s.start = (.ok (), w) ∧ w.Closes ∧ w.database = v.database := by
    refine ⟨_, rfl, ?_⟩
    rw [exec_bind_ok hfetch, exec_bind_ok husage, if_neg hany, exec_bind_ok hbefore,
      exec_bind_ok hdelete]
    exact ⟨_, rfl, ⟨hv.inside, hv.breaks⟩, rfl⟩
  obtain ⟨body, hremove, w, hbody, hw, hsame⟩ := hbody
  rw [hremove, exec_logged, exec_transaction_ok hs.not_inBlock hs.breaks hbody hw]
  exact ⟨_, rfl, hsame.trans hdb⟩

end

/-! ## The calls -/

/-- What a call to remove a row comes to, whatever the kind: the row goes, or the call is rejected
with the references that there are. -/
def CatalogKind.Comes (kind : CatalogKind) (s : Session) (user id : Value) (n : Int) : Prop :=
  (¬ kind.InUse s.database.ledger n ∧ ∃ t,
    (Call.delete kind user id).run.exec s = (.ok .nothing, t) ∧
    t.database = s.database.withLedger (kind.without s.database.ledger n)) ∨
  kind.InUse s.database.ledger n ∧ ∃ t,
    (Call.delete kind user id).run.exec s = (.error (.rejected
      (.stillReferenced kind.noun id (kind.references s.database.ledger n))), t) ∧
    t.database = s.database

section

variable (hs : s.Idle) (hi : Intact s.database.ledger)

include hs hi

theorem comes_delete {ρ : Type} [Catalog ρ] [Revisable ρ] {kind : CatalogKind} {r : Row ρ}
    (hcall : (Call.delete kind user id).run = (fun _ => Answer.nothing) <$> remove ρ user id)
    (hnoun : Catalog.entity ρ = kind.noun)
    (hr : r ∈ (Relation.table (ρ := ρ) s.database.ledger).rows) (hid : id.id? = some r.id)
    (huid : user.id? = some (Owned.owner r.data))
    (husage : (Catalog.usage ρ id).exec s.start
      = (.ok (kind.references s.database.ledger r.id), s.start))
    (hgone : ¬ kind.InUse s.database.ledger r.id → ∃ u v,
      (Catalog.beforeDelete ρ id).exec s.start = (.ok (), u) ∧
      (delete ρ id).exec u = (.ok true, v) ∧ v.Closes ∧
      v.database = s.database.withLedger (kind.without s.database.ledger r.id)) :
    kind.Comes s user id r.id := by
  rw [CatalogKind.Comes, hcall, ← hnoun]
  by_cases hused : kind.InUse s.database.ledger r.id
  · obtain ⟨t, hrun, ht⟩ := exec_remove_inUse hs hi hr hid huid husage
      (CatalogKind.inUse_iff.1 hused)
    exact .inr ⟨hused, t, by rw [exec_map, hrun], ht⟩
  · obtain ⟨u, v, hbefore, hdelete, hv, hdb⟩ := hgone hused
    obtain ⟨t, hrun, ht⟩ := exec_remove_unused hs hi hr hid huid husage
      (fun h => hused (CatalogKind.inUse_iff.2 h)) hbefore hdelete hv hdb
    exact .inl ⟨hused, t, by rw [exec_map, hrun], ht⟩

theorem comes_category {r : Row Category} (hr : r ∈ s.database.ledger.categories.rows)
    (hid : id.id? = some r.id) (huid : user.id? = some r.data.owner) :
    CatalogKind.category.Comes s user id r.id := by
  refine comes_delete (ρ := Category) hs hi rfl rfl hr hid huid
    (exec_categoryReferences (s := s.start) hs.ready hi hid (hi.categories.tidy.fits r hr))
    fun hfree => ?_
  have hleft : Intact (CatalogKind.category.without s.database.ledger r.id) :=
    intact_withoutCategory hi hid fun e he hcategory =>
      hfree ⟨e, he, (Option.some.inj (hid.symm.trans hcategory)).symm⟩
  exact ⟨s.start, _, rfl,
    exec_delete (ρ := Category) (s := s.start) hs.ready hi hr hid hleft,
    ⟨rfl, hs.ready.breaks⟩, rfl⟩

theorem comes_source {r : Row Source} (hr : r ∈ s.database.ledger.sources.rows)
    (hid : id.id? = some r.id) (huid : user.id? = some r.data.owner) :
    CatalogKind.source.Comes s user id r.id := by
  refine comes_delete (ρ := Source) hs hi rfl rfl hr hid huid
    (exec_sourceReferences (s := s.start) hs.ready hi hid (hi.sources.tidy.fits r hr))
    fun hfree => ?_
  have hleft : Intact (CatalogKind.source.without s.database.ledger r.id) := by
    refine intact_withoutSource hi hid fun e he => ⟨fun hsource => hfree ⟨e, he, .inl ?_⟩,
      fun k hk hsecond => hfree ⟨e, he, .inr ?_⟩⟩
    · exact (Option.some.inj (hid.symm.trans hsource)).symm
    · rw [← hid, hsecond]
      exact hk
  exact ⟨s.start, _, rfl, exec_delete (ρ := Source) (s := s.start) hs.ready hi hr hid hleft,
    ⟨rfl, hs.ready.breaks⟩, rfl⟩

/-- Releasing a currency takes it from the users who report in it, and may log that. -/
theorem exec_releaseCurrency {n : Int} (hid : id.id? = some n) (hn : fitsInteger n = true) :
    ∃ u, (releaseCurrency id).exec s.start = (.ok (), u) ∧ u.Ready ∧ u.Closes ∧
      u.database = s.database.withLedger (s.database.ledger.freed n) := by
  have hclear := exec_clearFixedCurrency (s := s.start) hs.ready hi hid hn
  rw [releaseCurrency, exec_bind_ok hclear]
  split
  · exact ⟨_, rfl, ⟨rfl, hs.layout, hs.fuse, hs.ready.breaks⟩, ⟨rfl, hs.ready.breaks⟩, rfl⟩
  · exact ⟨_, rfl, ⟨rfl, hs.layout, hs.fuse, hs.ready.breaks⟩, ⟨rfl, hs.ready.breaks⟩, rfl⟩

theorem comes_currency {r : Row Currency} (hr : r ∈ s.database.ledger.currencies.rows)
    (hid : id.id? = some r.id) (huid : user.id? = some r.data.owner) :
    CatalogKind.currency.Comes s user id r.id := by
  have hn := hi.currencies.tidy.fits r hr
  refine comes_delete (ρ := Currency) hs hi rfl rfl hr hid huid
    (exec_currencyReferences (s := s.start) hs.ready hi hid hn) fun hfree => ?_
  -- the users are released first, and then nothing refers to the currency
  obtain ⟨u, hrelease, hu, hcloses, hdb⟩ := exec_releaseCurrency hs hi hid hn
  have hl : u.database.ledger = s.database.ledger.freed r.id := by rw [hdb]; rfl
  have hleft : Intact (CatalogKind.currency.without s.database.ledger r.id) :=
    intact_withoutCurrency hi hid
      (fun x hx hcurrency => hfree (.inl
        ⟨x, hx, (Option.some.inj (hid.symm.trans hcurrency)).symm⟩))
      fun e he hcurrency => hfree (.inr
        ⟨e, he, (Option.some.inj (hid.symm.trans hcurrency)).symm⟩)
  have hdelete := exec_delete (ρ := Currency) (s := u) hu (hl ▸ hi.freed r.id)
    (show r ∈ u.database.ledger.currencies.rows from hl ▸ hr) hid (by
      show Intact { u.database.ledger with
        currencies := u.database.ledger.currencies.erase fun x => x.id == r.id }
      rw [hl]
      exact hleft)
  refine ⟨u, _, hrelease, hdelete, ⟨hcloses.inside, hcloses.breaks⟩, ?_⟩
  show u.database.withLedger { u.database.ledger with
    currencies := u.database.ledger.currencies.erase fun x => x.id == r.id } = _
  rw [hl, hdb]
  rfl

end

/-- After any calls, a row of a kind that the user owns can be removed if and only if no row of
another table refers to it, be that of an archived entry or not. If it can, just this row goes, and
whoever reported in a currency that goes reports in none. If not, the call is rejected as restricted
with a message that names every table that refers to the row with the number of its rows that do,
and nothing is changed. -/
theorem Call.delete_exact (hd : Reachable s.database) (ho : s.inTransaction = false)
    (hfuse : s.fuse = none) (hbreaks : s.breaks = none) {u n : Int} (huid : user.id? = some u)
    (hid : id.id? = some n) (kind : CatalogKind) (howns : kind.Owns s.database.ledger u n) :
    (((Call.delete kind user id).run.exec s).1.isOk = true ↔ ¬ kind.InUse s.database.ledger n) ∧
      kind.count s.database.ledger n = 1 ∧
      (¬ kind.InUse s.database.ledger n → ∃ t,
        (Call.delete kind user id).run.exec s = (.ok .nothing, t) ∧
        t.database = s.database.withLedger (kind.without s.database.ledger n)) ∧
      (kind.InUse s.database.ledger n → ∃ e t,
        (Call.delete kind user id).run.exec s = (.error (.rejected e), t) ∧ e.kind = .restrict ∧
        e.message = kind.noun ++ " " ++ id.display ++ " is still referenced by " ++
          ", ".intercalate (((kind.references s.database.ledger n).filter fun c => c.2 != 0).map
            fun c => toString c.2 ++ " " ++ c.1) ∧
        t.database = s.database) := by
  obtain ⟨hlayout, hi⟩ := hd.intact
  have hs : s.Idle := ⟨ho, hlayout, hfuse, hbreaks⟩
  obtain ⟨hcomes, hcount⟩ : kind.Comes s user id n ∧ kind.count s.database.ledger n = 1 := by
    cases kind with
    | currency =>
      obtain ⟨r, hr, rfl, rfl⟩ := howns
      exact ⟨comes_currency hs hi hr hid huid, hi.currencies.tidy.count_id hr⟩
    | category =>
      obtain ⟨r, hr, rfl, rfl⟩ := howns
      exact ⟨comes_category hs hi hr hid huid, hi.categories.tidy.count_id hr⟩
    | source =>
      obtain ⟨r, hr, rfl, rfl⟩ := howns
      exact ⟨comes_source hs hi hr hid huid, hi.sources.tidy.count_id hr⟩
  rcases hcomes with ⟨hfree, t, hrun, ht⟩ | ⟨hused, t, hrun, ht⟩
  · refine ⟨?_, hcount, fun _ => ⟨t, hrun, ht⟩, fun hused => absurd hused hfree⟩
    rw [hrun]
    exact iff_of_true rfl hfree
  · refine ⟨?_, hcount, fun hfree => absurd hused hfree,
      fun _ => ⟨_, t, hrun, rfl, rfl, ht⟩⟩
    rw [hrun]
    exact iff_of_false Bool.false_ne_true (not_not.2 hused)

/-- A first entry, and a currency that nothing is held in but that the user reports in. -/
def spareCurrency : List Call :=
  firstSpending ++ [.createCurrency (.int 1) (.text "USD") (.float 0.5),
    .setFixedCurrency (.int 1) (.int 2)]

theorem typed_spareCurrency : ∀ c ∈ spareCurrency, c.Typed := by
  simp [spareCurrency, firstSpending, registration, Call.Typed, Call.ids, EntryRequest.ids,
    Value.isId, Value.isNull, Value.id?]

/-- The spare currency goes, and the user reports in none; the other one stays. -/
theorem delete_after_spareCurrency :
    let s := newSession.after spareCurrency
    (∃ t, (Call.delete .currency (.int 1) (.int 2)).run.exec s = (.ok .nothing, t) ∧
      t.database.ledger.currencies.rows.map Row.id = [1] ∧
      t.database.ledger.users.rows.map (·.data.fixedCurrency) = [none]) ∧
    ∃ e t, (Call.delete .currency (.int 1) (.int 1)).run.exec s = (.error (.rejected e), t) ∧
      e.message = "currency 1 is still referenced by 1 sources, 1 entries" ∧
      t.database = s.database := by
  intro s
  have hd : Reachable s.database :=
    Reachable.after (s := newSession) .migrated rfl typed_spareCurrency
  obtain ⟨hfree, hused, howns, howns', hstill⟩ :
      (¬ ((∃ x ∈ s.database.ledger.sources.rows, x.data.currency = 2) ∨
        ∃ e ∈ s.database.ledger.entries.rows, e.data.currency = 2)) ∧
      ((∃ x ∈ s.database.ledger.sources.rows, x.data.currency = 1) ∨
        ∃ e ∈ s.database.ledger.entries.rows, e.data.currency = 1) ∧
      (∃ r ∈ s.database.ledger.currencies.rows, r.id = 2 ∧ r.data.owner = 1) ∧
      (∃ r ∈ s.database.ledger.currencies.rows, r.id = 1 ∧ r.data.owner = 1) ∧
      s.inTransaction = false ∧ s.fuse = none ∧ s.breaks = none := by decide +kernel
  obtain ⟨hcurrencies, hfixed, hmessage⟩ :
      (CatalogKind.currency.without s.database.ledger 2).currencies.rows.map Row.id = [1] ∧
      (CatalogKind.currency.without s.database.ledger 2).users.rows.map (·.data.fixedCurrency)
        = [none] ∧
      ("currency" ++ " " ++ (Value.int 1).display ++ " is still referenced by " ++
        ", ".intercalate (((CatalogKind.currency.references s.database.ledger 1).filter fun c =>
          c.2 != 0).map fun c => toString c.2 ++ " " ++ c.1))
        = "currency 1 is still referenced by 1 sources, 1 entries" := by decide +kernel
  clear_value s
  have hone : (Value.int 1).id? = some 1 := rfl
  have htwo : (Value.int 2).id? = some 2 := rfl
  obtain ⟨-, -, hgone, -⟩ :=
    Call.delete_exact hd hstill.1 hstill.2.1 hstill.2.2 hone htwo .currency howns
  obtain ⟨-, -, -, hkept⟩ :=
    Call.delete_exact hd hstill.1 hstill.2.1 hstill.2.2 hone hone .currency howns'
  obtain ⟨t, hrun, ht⟩ := hgone hfree
  obtain ⟨e, v, hrunv, -, hsays, hv⟩ := hkept hused
  exact ⟨⟨t, hrun, by rw [ht]; exact hcurrencies, by rw [ht]; exact hfixed⟩,
    e, v, hrunv, hsays.trans hmessage, hv⟩

end Bookkeeping.Service
