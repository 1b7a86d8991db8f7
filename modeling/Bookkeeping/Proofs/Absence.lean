import Bookkeeping.Proofs.Deletions
import Bookkeeping.Proofs.Lifecycle

/-! # Ids that lead nowhere

Whatever is done with a row starts by looking it up under its id among the rows of the user. If there
is no such row, nothing else is done, and nothing is changed.
-/

namespace Bookkeeping.Service

open Store Op

variable {s : Session} {user id : Value} {u n : Int}

instance {α : Type} (t : Table α) (n : Int) : Decidable (t.Has n) :=
  inferInstanceAs (Decidable (∃ r ∈ t.rows, r.id = n))

/-! ## The calls that are given an id -/

/-- A call that is given the id of a row of a user, by what else it is given. A source is made in the
currency of an id. -/
inductive Handling where
  | get (kind : CatalogKind)
  | rename (kind : CatalogKind) (name : Value)
  | update (name rate : Value)
  | archive (kind : CatalogKind)
  | restore (kind : CatalogKind)
  | delete (kind : CatalogKind)
  | getEntry
  | turn (turn : Turn)
  | fixedCurrency
  | source (name amount : Value)

namespace Handling

/-- The call. -/
def call (user id : Value) : Handling → Call
  | get kind => .get kind user id
  | rename kind name => .rename kind user id name
  | update name rate => .updateCurrency user id name rate
  | archive kind => .archive kind user id
  | restore kind => .restore kind user id
  | delete kind => .delete kind user id
  | getEntry => .getEntry user id
  | turn t => t.call user id
  | fixedCurrency => .setFixedCurrency user id
  | source name amount => .createSource user name id amount

/-- The field that the id is given as. -/
def field : Handling → String
  | get kind | rename kind _ | archive kind | restore kind | delete kind => kind.noun ++ "_id"
  | getEntry | turn _ => "entry_id"
  | update _ _ | fixedCurrency | source _ _ => "currency_id"

/-- Whether the id is that of a row of the user. -/
def Resolves (l : Ledger) (u n : Int) : Handling → Prop
  | get kind | rename kind _ | archive kind | restore kind | delete kind => kind.Owns l u n
  | getEntry | turn _ => l.entries.Owns u n
  | update _ _ | fixedCurrency | source _ _ => l.currencies.Owns u n

/-- What is wrong with what else a call is given, as far as that is found out before the row is
looked up. -/
def earlier? (l : Ledger) (user : Value) (u : Int) : Handling → Option Failure
  | rename _ name => fault? (Check.name "name" name)
  | update name rate =>
    (if name.isNull then none else fault? (Check.name "name" name)).or
      (if rate.isNull then none else fault? (Check.rate "rate_to_fixed" rate))
  | fixedCurrency => if l.users.Has u then none else some (.rejected (.noUser user))
  | source name amount =>
    (fault? (Check.name "name" name)).or
      ((fault? (Check.amount "amount" false amount)).or
        (if l.users.Has u then none else some (.rejected (.noUser user))))
  | get _ | archive _ | restore _ | delete _ | getEntry | turn _ => none

end Handling

section

variable (hs : s.Idle) {e : Failure}

include hs

section

variable {ρ : Type} [Catalog ρ] (h : (fetch ρ user id).Fails s.start e)

include h

theorem fails_rename (name : Value) :
    (Service.rename ρ user id name).Fails s ((fault? (Check.name "name" name)).getD e) :=
  .logged (.checked fun _ _ => .bind (.transaction hs.not_inBlock hs.breaks (h.bind _)) _) _

theorem fails_mark (operation : String) (archived : Bool) :
    (logged operation (mark ρ archived user id)).Fails s e :=
  .logged (.transaction hs.not_inBlock hs.breaks (h.bind _)) _

theorem fails_remove : (remove ρ user id).Fails s e :=
  .logged (.transaction hs.not_inBlock hs.breaks (h.bind _)) _

end

theorem fails_updateCurrency (h : (fetch Currency user id).Fails s.start e) (name rate : Value) :
    (updateCurrency user id name rate).Fails s
      (((if name.isNull then none else fault? (Check.name "name" name)).or
        (if rate.isNull then none else fault? (Check.rate "rate_to_fixed" rate))).getD e) := by
  rw [Option.getD_or]
  exact .logged (.optionally fun _ _ => .optionally fun _ _ =>
    .bind (.transaction hs.not_inBlock hs.breaks (h.bind _)) _) _

section

variable (hi : Intact s.database.ledger) (hv : Vetted s.database.ledger)
  (huid : user.id? = some u) (hu : fitsInteger u = true)

include hi hv huid hu

/-- The user is looked up before anything else is. -/
theorem fails_ofUser {α : Type} {body : Row User → Op α} (h : ∀ a, (body a).Fails s.start e) :
    (requireUser user >>= body).Fails s.start
      ((if s.database.ledger.users.Has u then none else some (.rejected (.noUser user))).getD e) := by
  split
  · rename_i hthere
    obtain ⟨r, hr, rfl⟩ := hthere
    obtain ⟨a, hread⟩ := (hv.users r hr).readable (hi.users.proper r hr)
    exact .after (exec_requireUser (s := s.start) hs.ready hi hr huid hread) (h a)
  · rename_i hnone
    exact .bind (fails_requireUser (s := s.start) hs.ready huid hu hnone) _

variable (h : (loadOwned Currency user id "currency_id" true).Fails s.start e)

include h

theorem fails_chooseFixedCurrency (hnull : id.isNull = false) :
    (chooseFixedCurrency user id).Fails s
      ((if s.database.ledger.users.Has u then none else some (.rejected (.noUser user))).getD e) := by
  refine .logged (.bind (.transaction hs.not_inBlock hs.breaks
    (fails_ofUser hs hi hv huid hu fun _ => ?_)) _) _
  rw [hnull]
  exact h.bind _

theorem fails_createSource (name amount : Value) : (createSource user name id amount).Fails s
    (((fault? (Check.name "name" name)).or ((fault? (Check.amount "amount" false amount)).or
      (if s.database.ledger.users.Has u then none else some (.rejected (.noUser user))))).getD
        e) := by
  rw [Option.getD_or, Option.getD_or]
  exact .logged (.checked fun _ _ => .checked fun _ _ => .bind (.transaction hs.not_inBlock
    hs.breaks (fails_ofUser hs hi hv huid hu fun _ => .bind (h.bind _) _)) _) _

end

end

section

variable (hs : s.Idle) (huid : user.id? = some u) (hu : fitsInteger u = true)
  (hid : id.id? = some n)

include hs huid hu hid

/-- A row that the user does not have is not loaded, be that within a transaction or outside of
any. -/
theorem fails_load {ρ α : Type} [OwnedRecord ρ α]
    (ht : (Relation.table (ρ := ρ) s.database.ledger).Tidy)
    (hnone : ¬ (Relation.table (ρ := ρ) s.database.ledger).Owns u n) (field : String)
    (active : Bool) :
    (loadOwned ρ user id field active).Fails s (unresolved field user id n) ∧
      (loadOwned ρ user id field active).Fails s.start (unresolved field user id n) :=
  ⟨fails_loadOwned hs.breaks hs.layout ht huid hu hid hnone field active,
    fails_loadOwned (s := s.start) hs.ready.breaks hs.layout ht huid hu hid hnone field active⟩

variable (hi : Intact s.database.ledger)

include hi

/-- What starts by fetching a row of a kind fails if the user has no such row. -/
theorem CatalogKind.fails {kind : CatalogKind} (hnone : ¬ kind.Owns s.database.ledger u n)
    {op : (ρ : Type) → [Catalog ρ] → [Shown ρ] → Op Answer} {e : Failure}
    (h : ∀ (ρ : Type) [Catalog ρ] [Shown ρ],
      (fetch ρ user id).Fails s (unresolved (kind.noun ++ "_id") user id n) →
      (fetch ρ user id).Fails s.start (unresolved (kind.noun ++ "_id") user id n) →
      (op ρ).Fails s e) : (kind.run op).Fails s e := by
  cases kind with
  | currency =>
    obtain ⟨hout, hin⟩ := fails_load (ρ := Currency) hs huid hu hid hi.currencies.tidy hnone
      "currency_id" false
    exact h Currency hout hin
  | category =>
    obtain ⟨hout, hin⟩ := fails_load (ρ := Category) hs huid hu hid hi.categories.tidy hnone
      "category_id" false
    exact h Category hout hin
  | source =>
    obtain ⟨hout, hin⟩ := fails_load (ρ := Source) hs huid hu hid hi.sources.tidy hnone
      "source_id" false
    exact h Source hout hin

/-- What a call comes to whose id is not that of a row of the user. -/
theorem Handling.fails (hv : Vetted s.database.ledger) (g : Handling)
    (hnone : ¬ g.Resolves s.database.ledger u n) : (g.call user id).run.Fails s
      ((g.earlier? s.database.ledger user u).getD (unresolved g.field user id n)) := by
  cases g with
  | get kind =>
    exact kind.fails hs huid hu hid hi hnone fun ρ _ _ hout _ =>
      hout.map fun r => Shown.one (some r)
  | rename kind name =>
    exact kind.fails hs huid hu hid hi hnone fun ρ _ _ _ hin =>
      (fails_rename hs hin name).map Shown.one
  | archive kind =>
    exact kind.fails hs huid hu hid hi hnone fun ρ _ _ _ hin =>
      (fails_mark hs hin ("archive_" ++ Catalog.entity ρ) true).map Shown.one
  | restore kind =>
    exact kind.fails hs huid hu hid hi hnone fun ρ _ _ _ hin =>
      (fails_mark hs hin ("restore_" ++ Catalog.entity ρ) false).map Shown.one
  | delete kind =>
    exact kind.fails hs huid hu hid hi hnone fun ρ _ _ _ hin =>
      (fails_remove hs hin).map fun _ => Answer.nothing
  | getEntry =>
    exact (fails_load (ρ := StoredEntry) hs huid hu hid hi.entries hnone "entry_id" false).1.map _
  | turn turn =>
    exact fails_turn hs
      (fails_load (ρ := StoredEntry) hs huid hu hid hi.entries hnone "entry_id" false).2 turn
  | update name rate =>
    have hload := fails_load (ρ := Currency) hs huid hu hid hi.currencies.tidy hnone
      "currency_id" false
    exact (fails_updateCurrency hs hload.2 name rate).map _
  | fixedCurrency =>
    have hload := fails_load (ρ := Currency) hs huid hu hid hi.currencies.tidy hnone
      "currency_id" true
    exact (fails_chooseFixedCurrency hs hi hv huid hu hload.2 (isNull_of_id? hid)).map _
  | source name amount =>
    have hload := fails_load (ρ := Currency) hs huid hu hid hi.currencies.tidy hnone
      "currency_id" true
    exact (fails_createSource hs hi hv huid hu hload.2 name amount).map _

end

/-- After any calls, if the user has no row under an id in the table that a call looks it up in, the
call is rejected as not found with the field of the id, unless something else that it is given is
found wrong before that; and nothing is changed. The lookup knows every id that the store can hold,
be it one that was given to nobody, to a row that is gone or to somebody else's; a larger one cannot
be looked up and is refused for its size. -/
theorem Call.absent_not_found (hd : Serviceable s.database) (ho : s.inTransaction = false)
    (hfuse : s.fuse = none) (hbreaks : s.breaks = none) (huid : user.id? = some u)
    (hu : fitsInteger u = true) (hid : id.id? = some n) (g : Handling)
    (hnone : ¬ g.Resolves s.database.ledger u n) :
    ∃ e t, (g.call user id).run.exec s = (.error e, t) ∧ t.database = s.database ∧
      match g.earlier? s.database.ledger user u with
      | some f => e = f
      | none =>
        (fitsInteger n = true → e = .rejected (.notFound g.field user id)) ∧
        (fitsInteger n = false → e = .misuse .overflow) := by
  obtain ⟨hlayout, hi⟩ := hd.reachable.intact
  obtain ⟨t, hrun, ht, -⟩ := g.fails ⟨ho, hlayout, hfuse, hbreaks⟩ huid hu hid hi hd.vetted hnone
  refine ⟨_, t, hrun, ht, ?_⟩
  cases g.earlier? s.database.ledger user u with
  | some f => rfl
  | none => exact ⟨fun hn => if_pos hn, fun hn => if_neg (by simp [hn])⟩

/-- A first entry, another user, and a category that is gone again. -/
def rentDropped : List Call :=
  firstSpending ++ [.createUser (.text "bob") (.text "battery staple"),
    .createCategory (.int 1) (.text "Rent"), .delete .category (.int 1) (.int 2)]

theorem typed_rentDropped : ∀ c ∈ rentDropped, c.Typed := by
  simp [rentDropped, firstSpending, registration, Call.Typed, Call.ids, EntryRequest.ids, Value.isId,
    Value.isNull, Value.id?]

/-- The other user does not get at the entry, the user does not get at the category that is gone, and
no source is made in a currency of a negative id; a name that is blank is noticed before that. -/
theorem absent_after_rentDropped :
    let s := newSession.after rentDropped
    (∃ t, (Call.deleteEntry (.int 2) (.int 1)).run.exec s
      = (.error (.rejected (.notFound "entry_id" (.int 2) (.int 1))), t) ∧
      t.database = s.database) ∧
    (∃ t, (Call.restore .category (.int 1) (.int 2)).run.exec s
      = (.error (.rejected (.notFound "category_id" (.int 1) (.int 2))), t) ∧
      t.database = s.database) ∧
    (∃ t, (Call.createSource (.int 1) (.text "Bank") (.int (-1)) (.float 0)).run.exec s
      = (.error (.rejected (.notFound "currency_id" (.int 1) (.int (-1)))), t) ∧
      t.database = s.database) ∧
    ∃ t, (Call.createSource (.int 1) (.text " ") (.int (-1)) (.float 0)).run.exec s
      = (.error (.rejected (.outside "name" "cannot be blank" (.text " "))), t) ∧
      t.database = s.database := by
  intro s
  have hd : Serviceable s.database :=
    Serviceable.after (s := newSession) .migrated rfl compact_newSession typed_rentDropped
  obtain ⟨hentry, hcategory, hcurrency, huser, hstill⟩ :
      (¬ ∃ r ∈ s.database.ledger.entries.rows, r.id = 1 ∧ r.data.owner = 2) ∧
      (¬ ∃ r ∈ s.database.ledger.categories.rows, r.id = 2 ∧ r.data.owner = 1) ∧
      (¬ ∃ r ∈ s.database.ledger.currencies.rows, r.id = -1 ∧ r.data.owner = 1) ∧
      (∃ r ∈ s.database.ledger.users.rows, r.id = 1) ∧
      s.inTransaction = false ∧ s.fuse = none ∧ s.breaks = none := by decide +kernel
  clear_value s
  have habsent (user id : Value) {u n : Int} (huid : user.id? = some u) (hu : fitsInteger u = true)
      (hid : id.id? = some n) (g : Handling) (hnone : ¬ g.Resolves s.database.ledger u n) :=
    Call.absent_not_found hd hstill.1 hstill.2.1 hstill.2.2 huid hu hid g hnone
  refine ⟨?_, ?_, ?_, ?_⟩
  · obtain ⟨e, t, hrun, ht, he⟩ :=
      habsent (.int 2) (.int 1) rfl rfl rfl (.turn .remove) hentry
    exact ⟨t, he.1 rfl ▸ hrun, ht⟩
  · obtain ⟨e, t, hrun, ht, he⟩ :=
      habsent (.int 1) (.int 2) rfl rfl rfl (.restore .category) hcategory
    exact ⟨t, he.1 rfl ▸ hrun, ht⟩
  · obtain ⟨e, t, hrun, ht, he⟩ := habsent (.int 1) (.int (-1)) rfl rfl rfl
      (.source (.text "Bank") (.float 0)) hcurrency
    have hok : (Handling.source (.text "Bank") (.float 0)).earlier? s.database.ledger (.int 1) 1
        = none := by
      have hthere : s.database.ledger.users.Has 1 := huser
      rw [Handling.earlier?, if_pos hthere]
      rfl
    rw [hok] at he
    exact ⟨t, he.1 rfl ▸ hrun, ht⟩
  · obtain ⟨e, t, hrun, ht, he⟩ := habsent (.int 1) (.int (-1)) rfl rfl rfl
      (.source (.text " ") (.float 0)) hcurrency
    exact ⟨t, he ▸ hrun, ht⟩

/-- An id that is too large for the store is refused for its size, and not as one that is not
found. -/
theorem get_beyond_store :
    let s := newSession.after [registration]
    Serviceable s.database ∧ s.inTransaction = false ∧ s.fuse = none ∧ s.breaks = none ∧
    ¬ CatalogKind.currency.Owns s.database.ledger 1 9223372036854775808 ∧
    ∃ t, (Call.get .currency (.int 1) (.int 9223372036854775808)).run.exec s
      = (.error (.misuse .overflow), t) := by
  intro s
  have hd : Serviceable s.database :=
    Serviceable.after (s := newSession) .migrated rfl compact_newSession (by
      simp [registration, Call.Typed, Call.ids])
  obtain ⟨hnone, ho, hfuse, hbreaks⟩ :
      (¬ ∃ r ∈ s.database.ledger.currencies.rows, r.id = 9223372036854775808 ∧
        r.data.owner = 1) ∧
      s.inTransaction = false ∧ s.fuse = none ∧ s.breaks = none := by decide +kernel
  obtain ⟨hlayout, hi⟩ := hd.reachable.intact
  have huser : (Value.int 1).id? = some 1 := rfl
  have hid : (Value.int 9223372036854775808).id? = some 9223372036854775808 := rfl
  obtain ⟨t, hrun, -⟩ := Handling.fails ⟨ho, hlayout, hfuse, hbreaks⟩ huser rfl hid hi hd.vetted
    (.get .currency) hnone
  exact ⟨hd, ho, hfuse, hbreaks, hnone, t, hrun⟩

end Bookkeeping.Service
