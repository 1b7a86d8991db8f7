import Mathlib.Logic.Relation
import Bookkeeping.Proofs.Invariants

/-! # How calls are built

Every call is built from statements in a few ways: one thing after another, blocks, looks at the
session, events that are logged. Here these ways are, once and for all, with a grade for how careful
an operation is with the database: what changes nothing may come before a block, and what cannot fail
may follow it. Whatever is to be shown of all calls need only be shown to survive each of these ways.
-/

namespace Bookkeeping.Store

/-- The session that nothing will break off. -/
def Session.calm (s : Session) : Session := { s with fuse := none, breaks := none }

/-- What operations are held to: the setting they run in, the invariants that their statements keep,
which may be any that calls keep, and whether they log anything of their own. -/
structure Terms where
  setting : Setting
  keeps : (Database → Prop) → Prop
  lasting : ∀ I, keeps I → Lasting setting I
  logs : Prop

/-- The terms of calls. -/
def Terms.calls (g : Setting) (logs : Prop := True) : Terms := ⟨g, Lasting g, fun _ h => h, logs⟩

/-- How careful an operation is with the database. -/
inductive Grade where
  /-- It changes nothing and cannot fail. -/
  | sure
  /-- It changes nothing. -/
  | quiet
  /-- It changes nothing if it fails outside of any block. -/
  | whole
  /-- It may change something and fail. -/
  | loose

namespace Grade

/-- Whether an operation of one grade is one of the other. -/
def le : Grade → Grade → Bool
  | sure, _ => true
  | quiet, sure => false
  | quiet, _ => true
  | whole, whole => true
  | _, loose => true
  | _, _ => false

/-- Whether an operation of one grade may come before one of the other in an operation of that other
grade. -/
def before : Grade → Grade → Bool
  | whole, whole => false
  | k, k' => k.le k'

theorem le_trans {k k' l : Grade} (h : k.le k' = true) (h' : k'.le l = true) : k.le l = true := by
  cases k <;> cases k' <;> cases l <;> simp_all [le]

theorem le_of_before {k k' : Grade} (h : k.before k' = true) : k.le k' = true := by
  cases k <;> cases k' <;> simp_all [before, le]

/-- Operations of the one grade may come before operations of the other. -/
class Before (k k' : Grade) : Prop where
  before : k.before k' = true

instance (k : Grade) : sure.Before k := ⟨by cases k <;> rfl⟩

instance (k : Grade) : k.Before loose := ⟨by cases k <;> rfl⟩

instance : quiet.Before quiet := ⟨rfl⟩

instance : quiet.Before whole := ⟨rfl⟩

end Grade

/-- An operation that is built in one of the ways of calls. If it succeeds, something holds of what
it gives. -/
inductive Op.Orderly (T : Terms) : Grade → {α : Type} → Op α → (α → Prop) → Prop
  | pure {k : Grade} {α : Type} {a : α} {Q : α → Prop} (h : Q a) :
    Orderly T k (Pure.pure a : Op α) Q
  | lift {α : Type} (r : Except Failure α) : Orderly T .quiet (Op.lift r) (r = .ok ·)
  | look {k : Grade} {α : Type} {f : Session → Op α} {Q : α → Prop} (calm : ∀ s, f s.calm = f s)
    (h : ∀ s, Orderly T k (f s) Q) : Orderly T k (get >>= f) Q
  | hashed (password : String) :
    Orderly T .sure (hashed password) fun h => ∃ n, h = T.setting.scheme.hash n password
  | emit (h : T.logs) (level : Log.Level) (part : Log.Part) (event : String)
    (fields : List (String × Value)) : Orderly T .sure (emit level part event fields) fun _ => True
  | logged {k : Grade} {α : Type} {op : Op α} {Q : α → Prop} (hlogs : T.logs) (operation : String)
    (h : Orderly T k op Q) : Orderly T k (Service.logged operation op) Q
  | burnFuse : Orderly T .loose burnFuse fun _ => True
  | reading {α : Type} {run : Session → Except Failure (α × Database)}
    (calm : ∀ s, run s.calm = run s) (h : ∀ s a db, run s = .ok (a, db) → db = s.database) :
    Orderly T .quiet (statement run) fun _ => True
  | change {ρ α β : Type} [Persistent ρ α] {deleting : Bool}
    {run : Session → Except Failure (Stored (β × Ledger))} (calm : ∀ s, run s.calm = run s)
    (h : ∀ I, T.keeps I → ∀ s b l, s.setting = T.setting → I s.database →
      run s = .ok (.ok (b, l)) → I (s.database.withLedger l)) :
    Orderly T .loose (change ρ deleting run) fun _ => True
  | abandoning {α : Type} {body : Op α} {Q : α → Prop} (h : Orderly T .loose body Q) :
    Orderly T .loose (abandoning body) Q
  | transaction {α : Type} {body : Op α} {Q : α → Prop} (h : Orderly T .loose body Q) :
    Orderly T .whole (transaction body) Q
  | bind {k k' : Grade} [hk : k.Before k'] {α β : Type} {x : Op α} {f : α → Op β} {Q : α → Prop}
    {R : β → Prop} (hx : Orderly T k x Q) (hf : ∀ a, Q a → Orderly T k' (f a) R) :
    Orderly T k' (x >>= f) R
  | finish {α β : Type} {x : Op α} {f : α → Op β} {Q : α → Prop} {R : β → Prop}
    (hx : Orderly T .whole x Q) (hf : ∀ a, Q a → Orderly T .sure (f a) R) :
    Orderly T .whole (x >>= f) R
  | weaken {k k' : Grade} {α : Type} {op : Op α} {Q R : α → Prop} (h : Orderly T k op Q)
    (hk : k.le k' = true) (hQ : ∀ a, Q a → R a) : Orderly T k' op R

variable {T : Terms} {k : Grade} {α β : Type} {Q : α → Prop} {R : β → Prop}

namespace Op

namespace Orderly

theorem mono {op : Op α} {P : α → Prop} (h : op.Orderly T k P) (hQ : ∀ a, P a → Q a) :
    op.Orderly T k Q :=
  h.weaken (by cases k <;> rfl) hQ

theorem any {op : Op α} (h : op.Orderly T k Q) : op.Orderly T k fun _ => True :=
  h.mono fun _ _ => trivial

/-- Whatever an operation is careful about, it need not be. -/
theorem loosely {op : Op α} (h : op.Orderly T k Q) : op.Orderly T .loose fun _ => True :=
  h.weaken (by cases k <;> rfl) fun _ _ => trivial

theorem whole {op : Op α} (h : op.Orderly T .quiet Q) : op.Orderly T .whole Q :=
  h.weaken rfl fun _ hq => hq

theorem map {x : Op α} (f : α → β) (h : x.Orderly T k Q) :
    (f <$> x).Orderly T k fun _ => True := by
  rw [map_eq_pure_bind]
  cases k with
  | whole => exact h.finish fun _ _ => .pure trivial
  | sure => exact h.bind fun _ _ => .pure trivial
  | quiet => exact h.bind fun _ _ => .pure trivial
  | loose => exact h.bind fun _ _ => .pure trivial

theorem ite {c : Prop} [Decidable c] {x y : Op α} (hx : c → x.Orderly T k Q)
    (hy : ¬c → y.Orderly T k Q) : (if c then x else y).Orderly T k Q := by
  split
  · exact hx ‹_›
  · exact hy ‹_›

/-- What is found out in one of two ways, and then the same after either. -/
theorem either {k' : Grade} [k.Before k'] {c : Prop} [Decidable c] {x y : Op α} {f : α → Op β}
    (hx : c → x.Orderly T k Q) (hy : ¬c → y.Orderly T k Q)
    (hf : ∀ a, Q a → (f a).Orderly T k' R) : (if c then x >>= f else y >>= f).Orderly T k' R :=
  ite (fun h => (hx h).bind hf) fun h => (hy h).bind hf

/-- What is done under a condition only. -/
theorem whether {k' : Grade} [k.Before k'] {c : Prop} [Decidable c] {x : Op α} {y : Op β}
    (hx : c → x.Orderly T k Q) (hy : y.Orderly T k' R) :
    (if c then do let _ ← x; y else y).Orderly T k' R :=
  ite (fun h => (hx h).bind fun _ _ => hy) fun _ => hy

/-- A value that may be missing is checked only if it is there. -/
theorem optionally [Grade.quiet.Before k] {c : Bool} {x : Except Failure α} {f : Option α → Op β}
    (hf : ∀ b, (∀ a ∈ b, x = .ok a) → (f b).Orderly T k R) :
    (if c = true then do let b ← Pure.pure none; f b
      else do let b ← some <$> Op.lift x; f b).Orderly T k R := by
  refine either (k := .quiet) (Q := fun b => ∀ a ∈ b, x = .ok a) (fun _ => ?_) (fun _ => ?_) hf
  · exact .pure (by simp)
  · rw [map_eq_pure_bind]
    refine (lift x).bind fun a ha => .pure fun b hb => ?_
    rwa [← Option.some.inj hb]

/-- An operation that ends with an event. -/
theorem announced (hlogs : T.logs) {x : Op α} (hx : x.Orderly T .whole Q) (level : Log.Level)
    (part : Log.Part) (event : String) (fields : α → List (String × Value)) :
    (do let a ← x; Store.emit level part event (fields a); Pure.pure a).Orderly T .whole
      fun _ => True :=
  hx.finish fun _ _ => (emit hlogs _ _ _ _).bind fun _ _ => .pure trivial

end Orderly

theorem orderly_fail [hk : Grade.quiet.Before k] (e : Failure) : (fail e : Op α).Orderly T k Q :=
  (Orderly.lift (.error e)).weaken (Grade.le_of_before hk.before) fun _ h => by cases h

end Op

open Op

/-! ## Statements on tables -/

section

variable (ρ : Type) [Persistent ρ α]

theorem orderly_select (run : Ledger → Except Failure β) :
    (select ρ run).Orderly T .quiet fun _ => True := by
  refine .reading (fun _ => rfl) fun s b db h => ?_
  obtain ⟨l, -, h⟩ := Service.except_bind_ok_iff.1 h
  obtain ⟨c, -, h⟩ := Service.except_bind_ok_iff.1 h
  cases h
  rfl

/-- What is found is read from a row. -/
theorem orderly_selectOne {γ : Type} (params : Except Failure γ) (p : γ → Row ρ → Bool) :
    (selectOne ρ params p).Orderly T .quiet
      fun found => ∀ a ∈ found, ∃ layout r, Persistent.decode (ρ := ρ) layout r = .ok a := by
  refine (orderly_select ρ _).bind fun found _ => ?_
  cases found with
  | none => exact .pure (by simp)
  | some r =>
    refine .look (fun _ => rfl) fun s => ?_
    rw [map_eq_pure_bind]
    refine (Orderly.lift _).bind fun a ha => .pure fun b hb => ?_
    cases hb
    exact ⟨_, r, ha⟩

theorem orderly_find (id : Value) : (find ρ id).Orderly T .quiet fun _ => True :=
  (orderly_selectOne ρ _ _).any

theorem orderly_selectAll {γ : Type} (params : Except Failure γ)
    (pick : γ → List (Row ρ) → List (Row ρ)) :
    (selectAll ρ params pick).Orderly T .quiet fun _ => True :=
  (orderly_select ρ _).bind fun _ _ => .look (fun _ => rfl) fun _ => (Orderly.lift _).any

theorem orderly_write {deleting : Bool}
    {run : Session → Ledger → Except Failure (Stored (β × Ledger))} (calm : ∀ s, run s.calm = run s)
    (h : ∀ I, T.keeps I → ∀ s b l, s.setting = T.setting → I s.database →
      run s s.database.ledger = .ok (.ok (b, l)) → I (s.database.withLedger l)) :
    (write ρ deleting run).Orderly T .loose fun _ => True := by
  refine .change (fun s => by rw [calm]; rfl) fun I hI s b l hs hi hrun => ?_
  unfold Database.open? at hrun
  split at hrun
  · exact h I hI s b l hs hi hrun
  · cases hrun

/-- Storing a record has to leave a ledger of which the invariants hold. -/
theorem orderly_insert {a : α}
    (h : ∀ I, T.keeps I → ∀ db n l, I db → db.ledger.insert T.setting.enforce
      (Persistent.encode (ρ := ρ) T.setting.now a) = .ok (n, l) → I (db.withLedger l)) :
    (Store.insert ρ a).Orderly T .loose fun _ => True := by
  refine (Orderly.transaction (.abandoning (orderly_write ρ (fun _ => rfl)
    fun I hI s n l hs hi hrun => ?_))).loosely.bind
      fun n _ => (orderly_selectOne ρ _ _).bind fun found _ => ?_
  · rw [← hs] at h
    split at hrun
    · cases hrun
    · obtain ⟨-, -, hrow⟩ := Service.except_bind_ok_iff.1 hrun
      split at hrow
      · cases hrow
      · exact h I hI s.database n l hi (Except.ok.inj hrow)
  · cases found with
    | none => exact orderly_fail _
    | some r => exact .pure trivial

/-- Changing a row has to leave a ledger of which the invariants hold. -/
theorem orderly_update {id : Value} {fields : List (String × Value)}
    (h : ∀ I, T.keeps I → ∀ db cells p n l, I db → paramFields fields = .ok cells →
      db.ledger.update T.setting.enforce p (Ledger.assigned (db.layout.columns (ρ := ρ)) cells)
        = .ok (n, l) → I (db.withLedger l)) :
    (update ρ id fields).Orderly T .loose fun _ => True := by
  refine .ite (fun _ => .pure trivial) fun _ =>
    (orderly_write ρ (fun _ => rfl) fun I hI s n l hs hi hrun => ?_).bind fun n _ => .pure trivial
  rw [← hs] at h
  split at hrun
  · cases hrun
  · obtain ⟨cells, hcells, hrun⟩ := Service.except_bind_ok_iff.1 hrun
    obtain ⟨c, -, hrun⟩ := Service.except_bind_ok_iff.1 hrun
    exact h I hI s.database cells _ n l hi hcells (Except.ok.inj hrun)

/-- The same for a change in which the caller names the columns. -/
theorem orderly_updateNamed {id : Value} {fields : List (String × Value)}
    (h : ∀ I, T.keeps I → ∀ (u : Update) db params p n l, I db →
      db.ledger.update T.setting.enforce p (u.apply (db.layout.columns (ρ := ρ)) params) = .ok (n, l) →
      I (db.withLedger l)) :
    (updateNamed ρ id fields).Orderly T .loose fun _ => True := by
  refine .ite (fun _ => .pure trivial) fun _ =>
    (Orderly.change (fun _ => rfl) fun I hI s n l hs hi hrun => ?_).bind fun n _ => .pure trivial
  rw [← hs] at h
  obtain ⟨_, -, hrun⟩ := Service.except_bind_ok_iff.1 hrun
  obtain ⟨m, hopen, hrun⟩ := Service.except_bind_ok_iff.1 hrun
  obtain ⟨u, -, hrun⟩ := Service.except_bind_ok_iff.1 hrun
  obtain ⟨params, -, hrun⟩ := Service.except_bind_ok_iff.1 hrun
  unfold Database.open? at hopen
  split at hopen
  · cases hopen
    exact h I hI u s.database params _ n l hi (Except.ok.inj hrun)
  · cases hopen

/-- Removing rows has to leave a ledger of which the invariants hold. -/
theorem orderly_erasure {v : Value} {q : Cell → Row ρ → Bool}
    (h : ∀ I, T.keeps I → ∀ db c n l, I db → db.ledger.remove T.setting.enforce (q c) = .ok (n, l) →
      I (db.withLedger l)) :
    (write ρ true fun s l => do
      let c ← param v
      .ok (l.remove s.enforce (q c))).Orderly T .loose fun _ => True := by
  refine orderly_write ρ (fun _ => rfl) fun I hI s n l hs hi hrun => ?_
  rw [← hs] at h
  obtain ⟨c, -, hrun⟩ := Service.except_bind_ok_iff.1 hrun
  exact h I hI s.database _ n l hi (Except.ok.inj hrun)

theorem orderly_delete {new : ρ → Prop} {revises : List (String × Cell) → Prop}
    (h : ∀ I, T.keeps I → Withstands T.setting I ρ new revises) (id : Value) :
    (delete ρ id).Orderly T .loose fun _ => True :=
  (orderly_erasure ρ fun I hI => (h I hI).delete).bind fun _ _ => .pure trivial

end

section

variable (ρ : Type) [OwnedRecord ρ α]

theorem orderly_deleteByUser {new : ρ → Prop} {revises : List (String × Cell) → Prop}
    (h : ∀ I, T.keeps I → WithstandsOwned T.setting I ρ new revises) (user : Value) :
    (deleteByUser ρ user).Orderly T .loose fun _ => True :=
  orderly_erasure ρ fun I hI => (h I hI).deleteByUser

theorem orderly_setArchived {new : ρ → Prop}
    (h : ∀ I, T.keeps I → Withstands T.setting I ρ new OnlyMarks) (id archived : Value) :
    (setArchived ρ id archived).Orderly T .loose fun _ => True :=
  (Orderly.lift _).bind fun _ _ => orderly_update ρ fun I hI db cells p n l hi hc hl =>
    (h I hI).update db cells p n l hi (onlyMarks_single hc) hl

end

theorem orderly_findByName (ρ : Type) [NamedRecord ρ] (user name : Value) :
    (findByName ρ user name).Orderly T .quiet fun _ => True :=
  (Orderly.lift _).bind fun _ _ => (orderly_selectOne ρ _ _).any

theorem orderly_findByUsername (username : Value) :
    (findByUsername username).Orderly T .quiet fun _ => True :=
  (Orderly.lift _).bind fun _ _ => (orderly_selectOne User _ _).any

theorem orderly_setFixedCurrency (user currency : Value) :
    (setFixedCurrency user currency).Orderly T .loose fun _ => True := by
  refine orderly_update User fun I hI db cells p n l hi hc hl => ?_
  obtain ⟨c, -, rfl⟩ := paramFields_single hc
  exact (T.lasting I hI).users.update db _ p n l hi ⟨rfl, fun _ hx => by cases hx⟩ hl

theorem orderly_setEnabled (user enabled : Value) :
    (setEnabled user enabled).Orderly T .loose fun _ => True := by
  refine (Orderly.lift _).bind fun flag _ => orderly_update User fun I hI db cells p n l hi hc hl => ?_
  obtain ⟨c, -, rfl⟩ := paramFields_single hc
  exact (T.lasting I hI).users.update db _ p n l hi ⟨rfl, fun _ hx => by cases hx⟩ hl

theorem orderly_updatePassword (user : Value) {hash : String} (hmade : T.setting.Makes hash) :
    (updatePassword user (.text hash)).Orderly T .loose fun _ => True := by
  refine orderly_update User fun I hI db cells p n l hi hc hl => ?_
  obtain ⟨c, hcell, rfl⟩ := paramFields_single hc
  cases hcell
  exact (T.lasting I hI).users.update db _ p n l hi
    ⟨rfl, fun _ hx => by cases hx; exact ⟨hash, rfl, hmade⟩⟩ hl

theorem orderly_clearFixedCurrency (currency : Value) :
    (clearFixedCurrency currency).Orderly T .loose fun _ => True := by
  refine orderly_write User (fun _ => rfl) fun I hI s n l _ hi hrun => ?_
  obtain ⟨c, -, hrun⟩ := Service.except_bind_ok_iff.1 hrun
  cases hrun
  exact (T.lasting I hI).release s.database _ _ (fun _ => rfl) hi

/-- Whether a source is there at all if no balance has moved. -/
theorem orderly_missing (source delta : Value) :
    (do
      match ← find Source source with
      | none => pure false
      | some _ => Op.reject (.overflow source delta) : Op Bool).Orderly T .quiet fun _ => True := by
  refine (orderly_selectOne Source _ _).bind fun found _ => ?_
  cases found with
  | none => exact .pure trivial
  | some r => exact orderly_fail _

theorem orderly_applyDelta (source delta : Value) :
    (applyDelta source delta).Orderly T .loose fun _ => True := by
  refine Orderly.burnFuse.bind fun _ _ =>
    (orderly_write Source (fun _ => rfl) fun I hI s n l _ hi hrun => ?_).bind fun n _ => ?_
  · obtain ⟨d, -, hrun⟩ := Service.except_bind_ok_iff.1 hrun
    obtain ⟨c, -, hrun⟩ := Service.except_bind_ok_iff.1 hrun
    cases hrun
    exact (T.lasting I hI).shift s.database _ d hi
  · exact .ite (fun _ => .pure trivial) fun _ => (orderly_missing source delta).loosely

theorem orderly_findFiltered (user : Value) (filter : EntryFilter) :
    (findFiltered user filter).Orderly T .quiet fun _ => True := by
  refine (Orderly.lift _).bind fun start _ => (Orderly.lift _).bind fun stop _ =>
    (Orderly.lift _).bind fun kind _ => .look (fun _ => rfl) fun s => .ite (fun _ => ?_) fun _ => ?_
  · exact .reading (fun _ => rfl) fun s a db h => by cases h
  · exact orderly_selectAll StoredEntry _ _

/-! ## What orderly operations do to a session -/

/-- A session before and after a single thing that an orderly operation does to it. -/
inductive Session.Moves (T : Terms) : Session → Session → Prop
  | served {s t : Session} (h : s.Served t) : Moves T s t
  | salted (s : Session) : Moves T s { s with salts := s.salts + 1 }
  | told (h : T.logs) (s : Session) (e : Log.Event) : Moves T s { s with log := s.log ++ [e] }
  | burnt (s : Session) (fuse : Option Nat) : Moves T s { s with fuse }
  | wrote {s : Session} {db : Database} (h : ∀ I, T.keeps I → I s.database → I db) :
    Moves T s { s with database := db }
  | noted (s : Session) (b : Breach) : Moves T s { s with breaches := s.breaches ++ [b] }

/-- A session before and after whatever an orderly operation does to it. -/
abbrev Session.Leads (T : Terms) : Session → Session → Prop :=
  Relation.ReflTransGen (Session.Moves T)

namespace Session

variable {s t : Session}

theorem Served.setting_eq (h : s.Served t) : t.setting = s.setting := by
  cases h with
  | abandon => cases hs : s.standing <;> simp [Session.abandon, Session.setting, hs]
  | rollBack => cases hs : s.standing <;> simp [Session.rollBack, Session.setting, hs]
  | leaveOpen => cases hs : s.standing <;> simp [Session.leaveOpen, Session.setting, hs]
  | _ => rfl

theorem Moves.setting_eq (h : s.Moves T t) : t.setting = s.setting := by
  cases h with
  | served h => exact h.setting_eq
  | _ => rfl

theorem Leads.setting_eq (h : s.Leads T t) : t.setting = s.setting := by
  induction h with
  | refl => rfl
  | tail _ h ih => exact h.setting_eq.trans ih

end Session

section Along

variable {s : Session}

theorem leads_transaction {body : Op α}
    (h : ∀ s : Session, s.setting = T.setting → s.Leads T (body.exec s).2)
    (hs : s.setting = T.setting) : s.Leads T ((transaction body).exec s).2 :=
  -- the relation carries the setting along, so that the body is only asked for sessions with it
  transaction_along (R := fun s t : Session => s.setting = T.setting → s.Leads T t)
    (fun _ _ _ hst htu hs => (hst hs).trans (htu ((hst hs).setting_eq.trans hs)))
    (fun _ _ h _ => .single (.served h)) (fun s hs => h s hs) s hs

theorem leads_abandoning {body : Op α}
    (h : ∀ s : Session, s.setting = T.setting → s.Leads T (body.exec s).2)
    (hs : s.setting = T.setting) : s.Leads T ((abandoning body).exec s).2 :=
  abandoning_along (R := fun s t : Session => s.setting = T.setting → s.Leads T t)
    (fun _ _ _ hst htu hs => (hst hs).trans (htu ((hst hs).setting_eq.trans hs)))
    (fun _ _ h _ => .single (.served h)) (fun s hs => h s hs) s hs

theorem leads_statement {run : Session → Except Failure (α × Database)}
    (h : ∀ (s : Session) a db, s.setting = T.setting → run s = .ok (a, db) →
      ∀ I, T.keeps I → I s.database → I db)
    (hs : s.setting = T.setting) : s.Leads T ((statement run).exec s).2 := by
  refine leads_transaction (fun s hs => ?_) hs
  have hcount : s.Leads T (countStatement.exec s).2 :=
    countStatement_along (fun _ _ _ => Relation.ReflTransGen.trans) (fun _ _ h => .single (.served h)) s
  rw [exec_bind]
  cases hc : countStatement.exec s with
  | mk r t =>
    rw [hc] at hcount
    cases r with
    | error e => exact hcount
    | ok u =>
      simp only [replacing, exec_of]
      cases hr : run t with
      | error e => exact hcount
      | ok p => exact hcount.tail (.wrote (h t p.1 p.2 (hcount.setting_eq.trans hs) hr))

theorem leads_bind {x : Op α} {f : α → Op β} {R : β → Prop}
    (hx : s.Leads T (x.exec s).2 ∧ ∀ a, (x.exec s).1 = .ok a → Q a)
    (hf : ∀ a t, Q a → t.setting = s.setting →
      t.Leads T ((f a).exec t).2 ∧ ∀ b, ((f a).exec t).1 = .ok b → R b) :
    s.Leads T ((x >>= f).exec s).2 ∧ ∀ b, ((x >>= f).exec s).1 = .ok b → R b := by
  obtain ⟨hst, hok⟩ := hx
  rw [exec_bind]
  cases hxs : x.exec s with
  | mk r t =>
    rw [hxs] at hst hok
    cases r with
    | error e => exact ⟨hst, fun b hb => by cases hb⟩
    | ok a =>
      obtain ⟨htu, hR⟩ := hf a t (hok a rfl) hst.setting_eq
      exact ⟨hst.trans htu, hR⟩

theorem leads_change {ρ : Type} [Persistent ρ α] {deleting : Bool}
    {run : Session → Except Failure (Stored (β × Ledger))}
    (h : ∀ I, T.keeps I → ∀ s b l, s.setting = T.setting → I s.database →
      run s = .ok (.ok (b, l)) → I (s.database.withLedger l))
    (hs : s.setting = T.setting) : s.Leads T ((change ρ deleting run).exec s).2 := by
  refine leads_transaction (fun s hs => ?_) hs
  refine (leads_bind (Q := fun _ => True) (R := fun _ => True)
    ⟨leads_statement (fun s r db hs hrun I hI hi => ?_) hs, fun _ _ => trivial⟩
    fun stored t _ _ => ⟨?_, fun _ _ => trivial⟩).1
  · obtain ⟨stored, hr, hrun⟩ := Service.except_bind_ok_iff.1 hrun
    cases stored with
    | error b =>
      cases hrun
      exact hi
    | ok c =>
      cases hrun
      exact h I hI s c.1 c.2 hs hi hr
  · cases stored with
    | ok b => exact .refl
    | error b => exact .single (.noted t b)

/-- An orderly operation does nothing to a session but what such operations do, and what it gives is
as it should be. -/
theorem Op.Orderly.leads {op : Op α} (h : op.Orderly T k Q) (hs : s.setting = T.setting) :
    s.Leads T (op.exec s).2 ∧ ∀ a, (op.exec s).1 = .ok a → Q a := by
  induction h generalizing s with
  | pure h => exact ⟨.refl, fun b hb => by cases hb; exact h⟩
  | lift r => exact ⟨.refl, fun b hb => hb⟩
  | look calm h ih => exact ih s hs
  | hashed password =>
    refine ⟨.single (.salted s), fun b hb => ⟨s.salts, ?_⟩⟩
    cases hb
    rw [← hs]
    rfl
  | emit h level part event fields => exact ⟨.single (.told h s _), fun _ _ => trivial⟩
  | @logged k α op Q hlogs operation h ih =>
    obtain ⟨hst, hok⟩ := ih hs
    rw [Service.exec_logged]
    cases ho : op.exec s with
    | mk r t =>
      rw [ho] at hst hok
      cases r with
      | ok a => exact ⟨hst, hok⟩
      | error e =>
        cases e with
        | rejected r => exact ⟨hst.tail (.told hlogs t _), fun a ha => by cases ha⟩
        | _ => exact ⟨hst, fun a ha => by cases ha⟩
  | burnFuse =>
    rw [Store.burnFuse, exec_of]
    split
    · exact ⟨.refl, fun _ _ => trivial⟩
    · exact ⟨.single (.burnt s _), fun _ _ => trivial⟩
    · exact ⟨.single (.burnt s none), fun _ _ => trivial⟩
  | reading calm h =>
    exact ⟨leads_statement (fun s a db _ hr I _ hi => h s a db hr ▸ hi) hs, fun _ _ => trivial⟩
  | change calm h => exact ⟨leads_change h hs, fun _ _ => trivial⟩
  | @abandoning α body Q h ih =>
    refine ⟨leads_abandoning (fun s hs => (ih hs).1) hs, fun a ha => (ih hs).2 a ?_⟩
    rw [abandoning_ok.1 (Prod.ext ha rfl)]
  | @transaction α body Q h ih =>
    refine ⟨leads_transaction (fun s hs => (ih hs).1) hs, fun a ha => ?_⟩
    obtain ⟨u, hu, hx⟩ := transaction_gives ha
    exact (ih (hu.setting_eq.trans hs)).2 a hx
  | bind hx hf ihx ihf => exact leads_bind (ihx hs) fun a t ha ht => ihf a ha (ht.trans hs)
  | finish hx hf ihx ihf => exact leads_bind (ihx hs) fun a t ha ht => ihf a ha (ht.trans hs)
  | weaken h hk hQ ih => exact ⟨(ih hs).1, fun a ha => hQ a ((ih hs).2 a ha)⟩

/-- What comes after an orderly operation that succeeds goes on in the same setting. -/
theorem Op.Orderly.next {op : Op α} (h : op.Orderly T k Q) (hs : s.setting = T.setting) {a : α}
    {t : Session} (hx : op.exec s = (.ok a, t)) : Q a ∧ t.setting = T.setting := by
  obtain ⟨hleads, hQ⟩ := h.leads hs
  rw [hx] at hleads hQ
  exact ⟨hQ a rfl, hleads.setting_eq.trans hs⟩

end Along

end Bookkeeping.Store
