import Bookkeeping.Proofs.Atomicity
import Bookkeeping.Proofs.Readability
import Bookkeeping.Proofs.SchemaUpkeep
import Bookkeeping.Service.TableCall

/-! # Calls past the operations of the ledger

Whoever goes to the tables directly goes past every check of the ledger's operations. What is left
then are the rules of the schema: as long as references are looked after, they hold after any mix of
calls, and a call on a table that fails has changed nothing.
-/

namespace Bookkeeping.Store

open Service

/-- A database of the full layout in which the rules of the schema hold. -/
structure Upright (db : Database) : Prop where
  layout : db.layout = .full
  sound : Sound db.ledger

/-- A database that calls of the ledger and calls on tables can lead to, in any order and in any
sessions that look after references. In a block the database before it has come about in this way,
too. -/
inductive Attainable : Database → Prop
  | migrated : Attainable .migrated
  | call {s : Session} (c : Call) (hd : Attainable s.database)
    (hb : ∀ before, s.standing = .inside before → Attainable before) (he : s.enforce = true) :
    Attainable (c.run.exec s).2.database
  | tableCall {s : Session} (c : TableCall) (hd : Attainable s.database)
    (hb : ∀ before, s.standing = .inside before → Attainable before) (he : s.enforce = true) :
    Attainable (c.run.exec s).2.database

variable {g : Setting}

/-! ## What calls on tables keep -/

/-- An invariant of databases that changes of any columns of a kind of row keep, where the ids of
rows may be changed as well. -/
def Renumbers (g : Setting) (I : Database → Prop) (ρ : Type) [Relation ρ] : Prop :=
  ∀ (u : Update) db params p n l, I db →
    db.ledger.update g.enforce p (u.apply (db.layout.columns (ρ := ρ)) params) = .ok (n, l) →
    I (db.withLedger l)

/-- Something that holds of every kind of row. -/
structure EveryKind (Q : (ρ : Type) → [Relation ρ] → Prop) : Prop where
  users : Q User
  currencies : Q Currency
  categories : Q Category
  sources : Q Source
  entries : Q StoredEntry

/-- An invariant that outlives every way in which a ledger is written to, whatever the rows and the
cells, as long as the rows keep their ids. -/
structure Enduring (g : Setting) (I : Database → Prop) : Prop where
  users : Withstands g I User (fun _ => True) fun _ => True
  currencies : WithstandsOwned g I Currency (fun _ => True) fun _ => True
  categories : WithstandsOwned g I Category (fun _ => True) fun _ => True
  sources : WithstandsOwned g I Source (fun _ => True) fun _ => True
  entries : WithstandsOwned g I StoredEntry (fun _ => True) fun _ => True
  release : ∀ db p f,
    (∀ r : Row User, f r = r.put "fixed_currency_id" { r.data with fixedCurrency := none }) →
    I db → I (db.withLedger { db.ledger with users := db.ledger.users.change p f })
  shift : ∀ db p d, I db → I (db.withLedger (shiftSources db.ledger p d).2)

variable {α : Type} {I : Database → Prop}

/-- Calls of the ledger write less than calls on tables may. -/
theorem Enduring.lasting (h : Enduring g I) : Lasting g I where
  users := h.users.mono (fun _ _ => trivial) fun _ _ => trivial
  currencies := h.currencies.mono (fun _ _ => trivial) fun _ _ => trivial
  categories := h.categories.mono (fun _ _ => trivial) fun _ _ => trivial
  sources := h.sources.mono (fun _ _ => trivial) fun _ _ => trivial
  entries := h.entries.mono (fun _ _ => trivial) fun _ _ => trivial
  release := h.release
  shift := h.shift

/-- The terms of calls on tables, which log nothing. -/
def Terms.tables (g : Setting) : Terms where
  setting := g
  keeps I := Enduring g I ∧ EveryKind (Renumbers g I)
  lasting _ h := h.1.lasting
  logs := False

theorem orderly_storeRead (ρ : Type) [Persistent ρ α] [Record α] (answer : Row α → Answer)
    (fields : List (String × Value)) {revises : List (String × Cell) → Prop}
    (h : ∀ I, Enduring g I → Withstands g I ρ (fun _ => True) revises) :
    (storeRead ρ answer fields).Orderly (.tables g) .loose fun _ => True :=
  (orderly_recordOf fields).bind fun _ _ => .map answer <|
    orderly_insert (T := .tables g) ρ fun I hI db _ _ hi hl => (h I hI.1).insert db _ _ _ hi trivial hl

/-- Calls on tables are built like calls of the ledger. -/
theorem orderly_tableCall (c : TableCall) : c.run.Orderly (.tables g) .loose fun _ => True := by
  have hnamed (ρ : Type) {α : Type} [Persistent ρ α] (id : Value) (fields : List (String × Value))
      (h : ∀ I, EveryKind (Renumbers g I) → Renumbers g I ρ) :
      (updateNamed ρ id fields).Orderly (.tables g) .loose fun _ => True :=
    orderly_updateNamed (T := .tables g) ρ fun I hI => h I hI.2
  have hmarked (ρ : Type) {α : Type} [OwnedRecord ρ α] (id archived : Value)
      (h : ∀ I, Enduring g I → WithstandsOwned g I ρ (fun _ => True) fun _ => True) :
      (Store.setArchived ρ id archived).Orderly (.tables g) .loose fun _ => True :=
    orderly_setArchived (T := .tables g) ρ
      (fun I hI => (h I hI.1).toWithstands.mono (fun _ ha => ha) fun _ _ => trivial) id archived
  cases c with
  | insert table fields =>
    cases table with
    | users => exact orderly_storeRead User _ fields fun _ h => h.users
    | currencies => exact orderly_storeRead Currency _ fields fun _ h => h.currencies.toWithstands
    | categories => exact orderly_storeRead Category _ fields fun _ h => h.categories.toWithstands
    | sources => exact orderly_storeRead Source _ fields fun _ h => h.sources.toWithstands
    | entries => exact orderly_storeRead StoredEntry _ fields fun _ h => h.entries.toWithstands
  | updateFields table id fields =>
    cases table with
    | users => exact (hnamed User id fields fun _ h => h.users).map _
    | currencies => exact (hnamed Currency id fields fun _ h => h.currencies).map _
    | categories => exact (hnamed Category id fields fun _ h => h.categories).map _
    | sources => exact (hnamed Source id fields fun _ h => h.sources).map _
    | entries => exact (hnamed StoredEntry id fields fun _ h => h.entries).map _
  | setArchived table id archived =>
    cases table with
    | currencies => exact (hmarked Currency id archived fun _ h => h.currencies).map _
    | categories => exact (hmarked Category id archived fun _ h => h.categories).map _
    | sources => exact (hmarked Source id archived fun _ h => h.sources).map _
    | entries => exact (hmarked StoredEntry id archived fun _ h => h.entries).map _
  | delete table id =>
    cases table with
    | users => exact (orderly_delete (T := .tables g) User (fun _ h => h.1.users) id).map _
    | currencies =>
      exact (orderly_delete (T := .tables g) Currency (fun _ h => h.1.currencies.toWithstands) id).map _
    | categories =>
      exact (orderly_delete (T := .tables g) Category (fun _ h => h.1.categories.toWithstands) id).map _
    | sources =>
      exact (orderly_delete (T := .tables g) Source (fun _ h => h.1.sources.toWithstands) id).map _
    | entries =>
      exact (orderly_delete (T := .tables g) StoredEntry (fun _ h => h.1.entries.toWithstands) id).map _
  | deleteByUser table user =>
    cases table with
    | currencies =>
      exact (orderly_deleteByUser (T := .tables g) Currency (fun _ h => h.1.currencies) user).map _
    | categories =>
      exact (orderly_deleteByUser (T := .tables g) Category (fun _ h => h.1.categories) user).map _
    | sources =>
      exact (orderly_deleteByUser (T := .tables g) Source (fun _ h => h.1.sources) user).map _
    | entries =>
      exact (orderly_deleteByUser (T := .tables g) StoredEntry (fun _ h => h.1.entries) user).map _
  | applyDelta source delta => exact (orderly_applyDelta source delta).map _
  | setEnabled user enabled => exact (orderly_setEnabled user enabled).map _
  | setFixedCurrency user currency => exact (orderly_setFixedCurrency user currency).map _
  | clearFixedCurrency currency => exact (orderly_clearFixedCurrency currency).map _
  | updatePassword user hash =>
    exact (orderly_update (T := .tables g) User fun I hI db cells p n l hi _ hl =>
      hI.1.users.update db cells p n l hi trivial hl).map _

/-! ## The rules survive -/

section

variable (ρ : Type) [Relation ρ] [SchemaOf ρ] [LawfulSchema ρ]

theorem withstands_upright (he : g.enforce = true)
    (hdelete : ∀ l (c : Cell) n m, Sound l →
      l.remove true (fun r : Row ρ => c.isInteger (.integer r.id)) = .ok (n, m) → Sound m) :
    Withstands g Upright ρ (fun _ => True) fun _ => True where
  insert db a n l hi _ hl := ⟨hi.layout, hi.sound.insert (he ▸ hl)⟩
  update db cells p n l hi _ hl := by
    refine ⟨hi.layout, hi.sound.update (fun a b ha hb => ?_) (he ▸ hl)⟩
    exact ha.assigned (columns_subset db.layout) hb
  delete db c n l hi hl := ⟨hi.layout, hdelete _ c n l hi.sound (he ▸ hl)⟩

/-- The same for rows with an owner, whose removal may depend on anything. -/
theorem withstandsOwned_upright (ρ : Type) [Owned ρ] [SchemaOf ρ] [LawfulSchema ρ]
    (he : g.enforce = true)
    (hremove : ∀ l m (p : Row ρ → Bool), Sound l → Relation.remove l p = .ok m → Sound m) :
    WithstandsOwned g Upright ρ (fun _ => True) fun _ => True where
  toWithstands := withstands_upright ρ he fun l _ _ m h hm => hremove l m _ h (relation_remove hm)
  deleteByUser _ _ _ l hi hl := ⟨hi.layout, hremove _ l _ hi.sound (relation_remove (he ▸ hl))⟩

end

theorem renumbers_upright (ρ : Type) [Relation ρ] [SchemaOf ρ] [LawfulSchema ρ]
    (he : g.enforce = true) : Renumbers g Upright ρ :=
  fun _ _ _ _ _ _ hi hl => ⟨hi.layout, hi.sound.update (fun _ _ ha hb => ha.apply hb) (he ▸ hl)⟩

/-- The rules of the schema outlive every way in which a ledger is written to. -/
theorem enduring_upright (he : g.enforce = true) : Enduring g Upright where
  users := withstands_upright User he fun _ c _ _ h hm =>
    h.removeUsers (fun a b hab => by rw [hab]) (relation_remove hm)
  currencies := withstandsOwned_upright Currency he fun _ _ _ h hm => h.removeCurrencies hm
  categories := withstandsOwned_upright Category he fun _ _ _ h hm => h.removeCategories hm
  sources := withstandsOwned_upright Source he fun _ _ _ h hm => h.removeSources hm
  entries := withstandsOwned_upright StoredEntry he fun l m p h hm => by
    cases hm
    exact h.removeEntries p
  release _ _ _ hf hi := ⟨hi.layout, hi.sound.release hf⟩
  shift _ p d hi := ⟨hi.layout, hi.sound.shiftSources p d⟩

theorem tables_keep_upright (he : g.enforce = true) : (Terms.tables g).keeps Upright :=
  ⟨enduring_upright he, renumbers_upright User he, renumbers_upright Currency he,
    renumbers_upright Category he, renumbers_upright Source he, renumbers_upright StoredEntry he⟩

theorem upright_migrated : Upright .migrated := ⟨rfl, sound_empty⟩

/-- The rules of the schema hold after any mix of calls. -/
theorem Attainable.upright {db : Database} (h : Attainable db) : Upright db := by
  induction h with
  | migrated => exact upright_migrated
  | call c _ _ he ih ihb => exact (c.upholds (enduring_upright he).lasting ⟨ih, ihb⟩).now
  | tableCall c _ _ he ih ihb =>
    exact ((orderly_tableCall c).upholds (tables_keep_upright he) rfl ⟨ih, ihb⟩).now

/-- Any calls at all may be made one after the other. -/
theorem Attainable.after {s : Session} (hd : Attainable s.database) (ho : s.inBlock = false)
    (he : s.enforce = true) (calls : List Call) : Attainable (s.after calls).database := by
  induction calls generalizing s with
  | nil => exact hd
  | cons c rest ih =>
    have hb : ∀ before, s.standing = .inside before → Attainable before := fun _ hs => by
      rw [Session.inBlock_eq_false.1 ho] at hs
      cases hs
    exact ih (.call c hd hb he) (c.atomic s ho).1
      ((congrArg Setting.enforce (c.setting_run s)).trans he)

/-! ## Calls that fail -/

/-- What a failure may leave behind: the database as it was, unless the engine undoes the transaction
of the block around it, and at most one constraint that is noted, which is then what the failure
reports. -/
structure Session.Spared (s t : Session) (e : Failure) (table : TableName) (deleting : Bool) :
    Prop where
  database : t.database = s.database ∨ s.inBlock = true ∧ Undoes e
  breaches : t.breaches = s.breaches ∨ ∃ b : Breach, t.breaches = s.breaches ++ [b] ∧
    e = .rejected (b.rejection table deleting)

/-- An operation that spares a session if it fails. -/
def Op.Harmless {α : Type} (op : Op α) (table : TableName) (deleting : Bool) (s : Session) : Prop :=
  ∀ e t, op.exec s = (.error e, t) → s.Spared t e table deleting

/-- A session with the database, the setting and the noted constraints of another. -/
structure Session.Resembles (t s : Session) : Prop where
  database : t.database = s.database
  setting : t.setting = s.setting
  breaches : t.breaches = s.breaches
  breaks : s.breaks = none → t.breaks = none

/-- A session that takes over from another one, where that one was among blocks and with as many shifts
left, and is not hindered. -/
structure Session.TakesOver (t s : Session) : Prop where
  standing : t.standing = s.standing
  fuse : t.fuse = s.fuse
  breaks : t.breaks = none

section

open Op

variable {α β : Type} {s t u : Session} {table : TableName} {deleting : Bool}

theorem Session.TakesOver.refl (hb : s.breaks = none) : s.TakesOver s := ⟨rfl, rfl, hb⟩

theorem Session.TakesOver.trans (h : u.TakesOver t) (h' : t.TakesOver s) : u.TakesOver s :=
  ⟨h.standing.trans h'.standing, h.fuse.trans h'.fuse, h.breaks⟩

theorem Session.TakesOver.commit (ho : s.inBlock = false) (h : t.TakesOver s.start) :
    t.commit.TakesOver s :=
  ⟨(Session.inBlock_eq_false.1 ho).symm, h.fuse, Session.hindrance_of_breaks h.breaks⟩

theorem Session.TakesOver.rollBack (ho : s.inBlock = false) (h : t.TakesOver s.start) :
    t.rollBack.TakesOver s := by
  have hin : t.standing = .inside s.database := h.standing
  refine ⟨t.standing_rollBack.trans (Session.inBlock_eq_false.1 ho).symm, ?_, ?_⟩
  · rw [Session.rollBack, hin]
    exact h.fuse
  · rw [Session.rollBack, hin]
    exact h.breaks

theorem Session.Resembles.refl (s : Session) : s.Resembles s := ⟨rfl, rfl, rfl, id⟩

theorem Session.Resembles.trans (h : u.Resembles t) (h' : t.Resembles s) : u.Resembles s :=
  ⟨h.database.trans h'.database, h.setting.trans h'.setting, h.breaches.trans h'.breaches,
    fun hs => h.breaks (h'.breaks hs)⟩

theorem resembles_start (s : Session) : s.start.Resembles s :=
  ⟨rfl, rfl, rfl, Session.hindrance_of_breaks⟩

theorem Session.Spared.of_same {e : Failure} (hd : t.database = s.database)
    (hb : t.breaches = s.breaches) : s.Spared t e table deleting := ⟨.inl hd, .inl hb⟩

theorem harmless_lift (r : Except Failure α) : (lift r).Harmless table deleting s := by
  intro e t hx
  cases hx
  exact .of_same rfl rfl

/-- What is spared by a session that has changed nothing yet. -/
theorem Session.Spared.after {e : Failure} (h : u.Spared t e table deleting)
    (hd : u.database = s.database) (hb : u.breaches = s.breaches) (hs : u.standing = s.standing) :
    s.Spared t e table deleting where
  database := h.database.imp (·.trans hd) (.imp_left (Session.inBlock_congr hs).symm.trans)
  breaches := hb ▸ h.breaches

theorem Op.Harmless.bind {x : Op β} {f : β → Op α} (hx : x.Harmless table deleting s)
    (hf : ∀ b u, x.exec s = (.ok b, u) → ∀ e t, (f b).exec u = (.error e, t) →
      s.Spared t e table deleting) : (x >>= f).Harmless table deleting s := by
  intro e t h
  rw [exec_bind] at h
  cases hxs : x.exec s with
  | mk r u =>
    rw [hxs] at h
    cases r with
    | error e' =>
      cases h
      exact hx e t hxs
    | ok b => exact hf b u hxs e t h

theorem Op.Harmless.lift_bind {r : Except Failure β} {f : β → Op α}
    (h : ∀ b, r = .ok b → (f b).Harmless table deleting s) :
    (lift r >>= f).Harmless table deleting s :=
  (harmless_lift r).bind fun b u hu e t hx => by
    obtain ⟨hr, rfl⟩ := lift_ok hu
    exact h b hr e t hx

theorem Op.Harmless.map {op : Op β} (f : β → α) (h : op.Harmless table deleting s) :
    (f <$> op).Harmless table deleting s := by
  intro e t hx
  rw [exec_map] at hx
  cases ho : op.exec s with
  | mk r u =>
    rw [ho] at hx
    cases r with
    | error e' =>
      cases hx
      exact h e t ho
    | ok b => cases hx

theorem Op.Harmless.yields {op : Op β} (h : op.Harmless table deleting s) (f : β → α) :
    (do let b ← op; pure (f b)).Harmless table deleting s := by
  rw [← map_eq_pure_bind]
  exact h.map f

theorem countStatement_resembles {a : Unit} (h : countStatement.exec s = (.ok a, t)) :
    t.Resembles s := by
  rw [countStatement, exec_of] at h
  split at h <;> cases h
  exact ⟨rfl, rfl, rfl, Session.hindrance_of_breaks⟩

/-- What is found out spares the session if it fails. -/
theorem Op.Orderly.harmless {op : Op α} {T : Terms} {k : Grade} {Q : α → Prop}
    (h : op.Orderly T k Q) (hk : k.le .quiet = true) (hs : s.setting = T.setting) :
    op.Harmless table deleting s := by
  intro e t hx
  obtain ⟨hd, hb⟩ := h.still hk hs
  have hkept := (h.kept hs).stays hx
  rw [hx] at hd hb
  refine ⟨?_, .inl hb⟩
  rcases hkept.standing with hsame | ⟨hlost, before, hin, -⟩
  · exact .inl (hd hsame)
  · exact .inr ⟨Session.inBlock_of_inside hin, loses_error.1 hlost⟩

/-- Within a block a statement that is broken off changes nothing but that the transaction may be
undone. -/
theorem countStatement_spared {e : Failure} (hin : s.inBlock = true)
    (h : countStatement.exec s = (.error e, t)) : s.Spared t e table deleting := by
  rw [countStatement, exec_of] at h
  split at h <;> cases h
  · exact .of_same rfl rfl
  · exact ⟨.inr ⟨hin, .inl rfl⟩, .inl s.breaches_abandon⟩

/-! ### Operations that write -/

variable {run : Session → Except Failure (Stored (β × Ledger))}

/-- An operation that fails and has changed nothing, or leaves the ledger that a statement says. -/
def Op.Writes (op : Op β) (run : Session → Except Failure (Stored (β × Ledger)))
    (table : TableName) (deleting : Bool) (s : Session) : Prop :=
  ∀ r t, op.exec s = (r, t) →
    (∃ e, r = .error e ∧ s.Spared t e table deleting) ∨
    ∃ b l u, r = .ok b ∧ run u = .ok (.ok (b, l)) ∧ u.Resembles s ∧
      t.database = s.database.withLedger l ∧ t.breaches = s.breaches ∧
      (s.breaks = none → t.breaks = none)

/-- What an operation writes in a block, it writes in one of its own. -/
theorem Op.Writes.transaction {body : Op β} (hkept : body.Kept s.start)
    (h : ∀ v : Session, v.inBlock = true → body.Writes run table deleting v) :
    (transaction body).Writes run table deleting s := by
  intro r t hx
  cases hin : s.inBlock with
  | true => exact h s hin r t (by rwa [exec_transaction_inside body hin] at hx)
  | false =>
    cases r with
    | ok b =>
      obtain ⟨u, hu, rfl⟩ := transaction_ok hin hx
      obtain ⟨e, he, -⟩ | ⟨b', l, v, hb, hrun, hv, hd, hbr, hbreaks⟩ := h s.start rfl _ _ hu
      · cases he
      · cases hb
        exact .inr ⟨b, l, v, rfl, hrun, hv.trans (resembles_start s), hd, hbr, fun hs =>
          Session.hindrance_of_breaks (hbreaks (Session.hindrance_of_breaks hs))⟩
    | error e =>
      have hd : t.database = s.database := by
        have hwhole := whole_transaction hin hkept
        rw [Grade.Owes, hx] at hwhole
        exact hwhole rfl
      -- what the body has noted is all that is noted
      have hbody {q : Except Failure β} {u : Session} (hb : body.exec s.start = (q, u)) :
          u.breaches = s.breaches ∨ ∃ b : Breach, u.breaches = s.breaches ++ [b] ∧
            q = .error (.rejected (b.rejection table deleting)) := by
        obtain ⟨e', rfl, hspared⟩ | ⟨b, l, v, rfl, -, -, -, hbr, -⟩ := h s.start rfl _ _ hb
        · rcases hspared.breaches with hbr | ⟨b, hbr, he⟩
          · exact .inl hbr
          · exact .inr ⟨b, hbr, congrArg Except.error he⟩
        · exact .inl hbr
      have hsame {a : β} {u : Session} (hb : body.exec s.start = (.ok a, u)) :
          u.breaches = s.breaches := by
        rcases hbody hb with hbr | ⟨_, -, he⟩
        · exact hbr
        · cases he
      refine .inl ⟨e, rfl, .inl hd, ?_⟩
      cases ending_of_exec hin hx with
      | barred e => exact .inl rfl
      | unbegun e => exact .inl rfl
      | @undone e u hb =>
        rw [u.breaches_rollBack]
        rcases hbody hb with hbr | ⟨b, hbr, he⟩
        · exact .inl hbr
        · exact .inr ⟨b, hbr, Except.error.inj he⟩
      | @lost a u hb => exact .inl (hsame hb :)
      | @putOff a u before hb => exact .inl (u.breaches_leaveOpen.trans (hsame hb))
      | @failed a u before hb => exact .inl (u.breaches_abandon.trans (hsame hb))

/-- If there is no room for a row, the engine may undo the transaction of the block. -/
theorem Op.Writes.abandoning {body : Op β} (hkept : body.Kept s)
    (h : body.Writes run table deleting s) : (abandoning body).Writes run table deleting s := by
  intro r t hx
  obtain ⟨q, u, hb⟩ : ∃ q u, body.exec s = (q, u) := ⟨_, _, rfl⟩
  obtain ⟨v, hv, hend⟩ := exec_abandoning body s
  rw [hb] at hv hend
  obtain ⟨rfl, rfl⟩ := Prod.mk.inj (hv.symm.trans hx)
  rcases hend with rfl | ⟨hroom, rfl⟩
  · exact h _ _ hb
  · obtain rfl : q = .error (.operational noRoom) := hroom
    obtain ⟨e, he, hspared⟩ | ⟨b, l, u, hok, -⟩ := h _ _ hb
    · cases he
      refine .inl ⟨_, rfl, ?_, u.breaches_abandon.symm ▸ hspared.breaches⟩
      cases hin : s.inBlock with
      | true => exact .inr ⟨rfl, .inr rfl⟩
      | false =>
        -- outside of blocks there is no transaction to be undone
        have hout : u.standing = .outside := by
          rcases (hkept.stays hb).standing with hs | ⟨-, before, hs, -⟩
          · exact hs.trans (Session.inBlock_eq_false.1 hin)
          · rw [Session.inBlock_of_inside hs] at hin
            cases hin
        rcases hspared.database with hd | ⟨hs, -⟩
        · exact .inl (by simpa [Session.abandon, hout] using hd)
        · rw [hs] at hin
          cases hin
    · cases hok

end

section

open Op

variable (ρ : Type) {α β : Type} [Persistent ρ α] {s t : Session} {deleting : Bool}
  {run : Session → Except Failure (Stored (β × Ledger))}

theorem writes_change : (change ρ deleting run).Writes run (Relation.name ρ) deleting s := by
  refine .transaction ((Kept.statement _ _).bind fun _ t _ => .obey _ _ _ t) fun v hin r t hx => ?_
  rw [exec_bind, statement, exec_transaction_inside _ hin, exec_bind] at hx
  -- the statement may be broken off, refuse its parameters, break a constraint, or succeed
  cases hc : countStatement.exec v with
  | mk c u =>
    rw [hc] at hx
    cases c with
    | error e =>
      cases hx
      exact .inl ⟨e, rfl, countStatement_spared hin hc⟩
    | ok _ =>
      have hu := countStatement_resembles hc
      simp only [replacing, exec_of] at hx
      cases hr : run u with
      | error e =>
        simp only [hr, bind, Except.bind] at hx
        cases hx
        exact .inl ⟨e, rfl, .of_same hu.database hu.breaches⟩
      | ok stored =>
        cases stored with
        | error b =>
          simp only [hr, bind, Except.bind, obey, exec_of] at hx
          cases hx
          exact .inl ⟨_, rfl, .inl hu.database, .inr ⟨b, by rw [← hu.breaches], rfl⟩⟩
        | ok c =>
          simp only [hr, bind, Except.bind, obey, exec_of] at hx
          cases hx
          exact .inr ⟨c.1, c.2, u, rfl, hr, hu, by rw [← hu.database], hu.breaches, hu.breaks⟩

/-- The same for a statement that works on the rows of its table. -/
theorem write_cases {run : Session → Ledger → Except Failure (Stored (β × Ledger))}
    {r : Except Failure β} (hx : (write ρ deleting run).exec s = (r, t)) :
    (∃ e, r = .error e ∧ s.Spared t e (Relation.name ρ) deleting) ∨
    ∃ b l u, r = .ok b ∧ run u s.database.ledger = .ok (.ok (b, l)) ∧ u.Resembles s ∧
      t.database = s.database.withLedger l ∧ t.breaches = s.breaches ∧
      (s.breaks = none → t.breaks = none) := by
  rcases writes_change ρ _ _ hx with herr | ⟨b, l, u, hr, hrun, hu, hrest⟩
  · exact .inl herr
  · obtain ⟨l', hopen, hrun⟩ := Service.except_bind_ok_iff.1 hrun
    rw [open?_ok hopen, hu.database] at hrun
    exact .inr ⟨b, l, u, hr, hrun, hu, hrest⟩

/-- The same for a statement that needs room for a row. -/
theorem writeRow_cases {run : Session → Ledger → Except Failure (Stored (β × Ledger))}
    {r : Except Failure β}
    (hx : (transaction (abandoning (write ρ deleting run))).exec s = (r, t)) :
    (∃ e, r = .error e ∧ s.Spared t e (Relation.name ρ) deleting) ∨
    ∃ b l u, r = .ok b ∧ run u s.database.ledger = .ok (.ok (b, l)) ∧ u.Resembles s ∧
      t.database = s.database.withLedger l ∧ t.breaches = s.breaches ∧
      (s.breaks = none → t.breaks = none) := by
  have hwrites : (transaction (abandoning (write ρ deleting run))).Writes (fun s => do
      let l ← s.database.open? (Relation.name ρ)
      run s l) (Relation.name ρ) deleting s :=
    .transaction (Kept.change _ _).abandoning fun v _ => .abandoning (Kept.change _ _) (writes_change ρ)
  rcases hwrites _ _ hx with herr | ⟨b, l, u, hr, hrun, hu, hrest⟩
  · exact .inl herr
  · obtain ⟨l', hopen, hrun⟩ := Service.except_bind_ok_iff.1 hrun
    rw [open?_ok hopen, hu.database] at hrun
    exact .inr ⟨b, l, u, hr, hrun, hu, hrest⟩

theorem harmless_change : (change ρ deleting run).Harmless (Relation.name ρ) deleting s := by
  intro e t hx
  rcases writes_change ρ _ _ hx with ⟨e', he, h⟩ | ⟨b, l, u, hr, -⟩
  · cases he
    exact h
  · cases hr

/-! ### Changing and removing rows -/

theorem harmless_update (id : Value) (fields : List (String × Value)) :
    (update ρ id fields).Harmless (Relation.name ρ) false s := by
  unfold update
  split
  · exact harmless_lift (.ok false)
  · exact (harmless_change ρ).yields _

theorem harmless_updateNamed (id : Value) (fields : List (String × Value)) :
    (updateNamed ρ id fields).Harmless (Relation.name ρ) false s := by
  unfold updateNamed
  split
  · exact harmless_lift (.ok false)
  · exact (harmless_change ρ).yields _

theorem harmless_delete (id : Value) : (delete ρ id).Harmless (Relation.name ρ) true s :=
  (harmless_change ρ).yields _

/-! ### Looking at rows -/

/-- A statement that reads and is not broken off gives what it reads off the ledger. -/
theorem exec_select_unbroken (hb : s.breaks = none) (ht : s.database.layout.tables = true)
    (run : Ledger → Except Failure β) :
    ∃ u, (select ρ run).exec s = (run s.database.ledger, u) ∧ u.Resembles s ∧ u.TakesOver s := by
  cases hin : s.inBlock with
  | true => exact ⟨s, exec_select_inside ρ hin hb ht run, .refl s, .refl hb⟩
  | false =>
    have hbegun : s.start.TakesOver s.start := .refl (Session.hindrance_of_breaks hb)
    have hstart := exec_select_inside ρ (s := s.start) rfl (Session.hindrance_of_breaks hb) ht run
    rw [select, statement, exec_transaction_inside _ rfl] at hstart
    rw [select, statement]
    have hledger : s.start.database.ledger = s.database.ledger := rfl
    rw [hledger] at hstart
    cases hr : run s.database.ledger with
    | ok b =>
      rw [hr] at hstart
      have hend := hbegun.commit hin
      exact ⟨_, exec_transaction_ok hin hb hstart (Session.closes_start hb),
        ⟨rfl, rfl, rfl, fun _ => hend.breaks⟩, hend⟩
    | error e =>
      rw [hr] at hstart
      have hend := hbegun.rollBack hin
      exact ⟨_, exec_transaction_error hin hb hstart, ⟨rfl, rfl, rfl, fun _ => hend.breaks⟩, hend⟩

/-- A statement that gives all rows that are picked gives their records. -/
theorem exec_selectAll_unbroken {γ : Type} (hb : s.breaks = none)
    (ht : s.database.layout.tables = true) (params : Except Failure γ)
    (choose : γ → List (Row ρ) → List (Row ρ)) :
    ∃ u, (selectAll ρ params choose).exec s = (do
        let c ← params
        decodeAll s.database.layout (choose c (Relation.table (ρ := ρ) s.database.ledger).rows), u) ∧
      u.Resembles s := by
  obtain ⟨u, hu, hsame, -⟩ := exec_select_unbroken ρ hb ht fun l => do
    let c ← params
    .ok (choose c (Relation.table (ρ := ρ) l).rows)
  refine ⟨u, ?_, hsame⟩
  rw [selectAll, exec_bind, hu]
  cases params with
  | error e => rfl
  | ok c =>
    show (do
      let layout := (← (get : Op Session)).database.layout
      lift (decodeAll layout (choose c (Relation.table s.database.ledger).rows)) :
        Op (List (Row α))).exec u = _
    rw [exec_bind_ok (exec_get u), exec_lift, hsame.database]
    rfl

/-- A condition that is not broken off gives what is read from the row it picks. -/
theorem exec_selectOne_row {γ : Type} (hb : s.breaks = none) (ht : s.database.layout.tables = true)
    (params : Except Failure γ) (p : γ → Row ρ → Bool) :
    ∃ u, (selectOne ρ params p).exec s = (do
        let c ← params
        match (Relation.table (ρ := ρ) s.database.ledger).rows.find? (p c) with
        | none => .ok none
        | some r => some <$> Persistent.decode s.database.layout r, u) ∧
      u.database = s.database ∧ u.TakesOver s := by
  obtain ⟨u, hu, hsame, htakes⟩ := exec_select_unbroken ρ hb ht fun l => do
    let c ← params
    .ok ((Relation.table (ρ := ρ) l).rows.find? (p c))
  refine ⟨u, ?_, hsame.database, htakes⟩
  rw [selectOne, exec_bind, hu]
  cases params with
  | error e => rfl
  | ok c =>
    simp only [bind, Except.bind]
    cases (Relation.table (ρ := ρ) s.database.ledger).rows.find? (p c) with
    | none => rfl
    | some r =>
      show (do
        let layout := (← (get : Op Session)).database.layout
        some <$> lift (Persistent.decode layout r)).exec u = _
      rw [exec_bind_ok (exec_get u), exec_map, exec_lift, hsame.database]
      show _ = (some <$> Persistent.decode s.database.layout r, u)
      cases Persistent.decode (ρ := ρ) s.database.layout r <;> rfl

/-- On a database of the full layout it gives the record. -/
theorem exec_selectOne_unbroken {γ : Type} (hb : s.breaks = none) (hl : s.database.layout = .full)
    (params : Except Failure γ) (p : γ → Row ρ → Bool) :
    ∃ u, (selectOne ρ params p).exec s = (do
      let c ← params
      pick ρ s.database.ledger (p c), u) ∧ u.database = s.database := by
  obtain ⟨u, hu, hd, -⟩ := exec_selectOne_row ρ hb (by rw [hl]; rfl) params p
  rw [hl] at hu
  exact ⟨u, hu, hd⟩

/-- The row of an id that the store can hold is found and read, if there is one. -/
theorem exec_find_fits (hb : s.breaks = none) (ht : s.database.layout.tables = true) {id : Int}
    (hfits : fitsInteger id = true) :
    ∃ u, (find ρ (.int id)).exec s
        = (match (Relation.table (ρ := ρ) s.database.ledger).rows.find? (fun x => x.id == id) with
          | none => .ok none
          | some r => some <$> Persistent.decode s.database.layout r, u) ∧
      u.database = s.database ∧ u.TakesOver s := by
  obtain ⟨u, hu, hrest⟩ :=
    exec_selectOne_row ρ hb ht (param (.int id)) fun c r => c.isInteger (.integer r.id)
  refine ⟨u, ?_, hrest⟩
  rw [find, hu, param_int hfits]
  simp only [bind, Except.bind, Cell.isInteger_integer]

/-- A row that can be read is found under its id. -/
theorem exec_find_unbroken (hb : s.breaks = none) (ht : s.database.layout.tables = true) {r : Row ρ}
    {a : Row α} (hfits : fitsInteger r.id = true)
    (hr : (Relation.table (ρ := ρ) s.database.ledger).rows.find? (fun x => x.id == r.id) = some r)
    (ha : Persistent.decode s.database.layout r = .ok a) :
    ∃ u, (find ρ (.int r.id)).exec s = (.ok (some a), u) := by
  obtain ⟨u, hu, -⟩ := exec_find_fits ρ hb ht hfits
  rw [hr] at hu
  simp only [ha] at hu
  exact ⟨u, hu⟩

/-! ### Storing rows -/

variable [SchemaOf ρ] [LawfulSchema ρ]

/-- The row that was stored last is found under its id. -/
theorem find?_inserted {l m : Ledger} {enforce : Bool} {a : ρ} {n : Int}
    (h : l.insert enforce a = .ok (n, m)) :
    (Relation.table (ρ := ρ) m).rows.find? (fun x => x.id == n) = some ⟨n, a, []⟩ := by
  obtain ⟨rfl, hid, -, -, rfl⟩ := inserted_of_ok h
  have hnone : (Relation.table (ρ := ρ) l).rows.find?
      (fun x => x.id == (Relation.table (ρ := ρ) l).nextId) = none :=
    List.find?_eq_none.2 fun o ho => by simpa using hid o ho
  rw [LawfulSchema.table_withTable, Table.rows_insert, List.find?_append, hnone]
  simp

/-- A new row that can be read is read once it is stored; so it is refused at once or not at all. -/
theorem harmless_insert {a : α} (hb : s.breaks = none) (hl : s.database.layout = .full)
    (hread : ∀ id, ∃ x, Persistent.decode .full
      (⟨id, Persistent.encode (ρ := ρ) s.now a, []⟩ : Row ρ) = .ok x) :
    (Store.insert ρ a).Harmless (Relation.name ρ) false s := by
  rw [insert_eq]
  refine Op.Harmless.bind (fun e t hx => ?_) fun id w hw e t hx => ?_
  · rcases writeRow_cases ρ hx with ⟨e', he, h⟩ | ⟨_, _, _, he, -⟩
    · cases he
      exact h
    · cases he
  · rcases writeRow_cases ρ hw with ⟨e', he, -⟩ | ⟨id', l, u, hid, hrun, hu, hdb, -, hwb⟩
    · cases he
    · cases hid
      -- the row is there now, and finding and reading it cannot fail
      exfalso
      obtain ⟨hins, hfits⟩ : s.database.ledger.insert u.enforce
          (Persistent.encode (ρ := ρ) u.now a) = .ok (id, l) ∧ fitsInteger id = true := by
        unfold insertion at hrun
        split at hrun
        · cases hrun
        · obtain ⟨-, -, hrun⟩ := Service.except_bind_ok_iff.1 hrun
          split at hrun
          · cases hrun
          · rename_i hroom
            have hins := Except.ok.inj hrun
            refine ⟨hins, ?_⟩
            rw [(inserted_of_ok hins).id]
            simpa [Table.isFull] using hroom
      rw [show u.now = s.now from congrArg Setting.now hu.setting] at hins
      obtain ⟨x, hx'⟩ := hread id
      have hfull : w.database.layout = .full := by
        rw [hdb]
        exact hl
      obtain ⟨v, hv⟩ := exec_find_unbroken ρ (hwb hb) (by rw [hfull]; rfl)
        (r := ⟨id, Persistent.encode s.now a, []⟩) hfits (by rw [hdb]; exact find?_inserted ρ hins)
        (by rw [hfull]; exact hx')
      rw [exec_bind_ok hv] at hx
      cases hx

end

/-! ### Shifting balances -/

section

open Op

variable {s : Session}

/-- A shift that moves no balance leaves the ledger as it is. -/
theorem shiftSources_of_none {l : Ledger} {p : Row Source → Bool} {d : Cell}
    (h : (shiftSources l p d).1 = 0) : (shiftSources l p d).2 = l := by
  have hrows := Table.count_eq_zero.1 h
  show { l with sources := l.sources.change _ _ } = l
  rw [Table.change_of_none hrows]

/-- A balance shift that is broken off before it begins has changed nothing. -/
theorem harmless_burnFuse : burnFuse.Harmless .sources false s := by
  intro e t hx
  rw [burnFuse, exec_of] at hx
  split at hx <;> cases hx
  exact .of_same rfl rfl

theorem burnFuse_ok {u : Unit} (hx : burnFuse.exec s = (.ok u, t)) :
    t.database = s.database ∧ t.breaches = s.breaches ∧ t.standing = s.standing := by
  rw [burnFuse, exec_of] at hx
  split at hx <;> cases hx <;> exact ⟨rfl, rfl, rfl⟩

theorem harmless_applyDelta (source delta : Value) :
    (applyDelta source delta).Harmless .sources false s := by
  refine harmless_burnFuse.bind fun _ u hu e t hx => ?_
  obtain ⟨hdu, hbu, hsu⟩ := burnFuse_ok hu
  refine .after ?_ hdu hbu hsu
  refine (harmless_change Source).bind (fun n w hw e t hx => ?_) e t hx
  rcases write_cases Source hw with ⟨e', he, -⟩ | ⟨n', l, v, hn', hrun, -, hdb, hbr, -⟩
  · cases he
  · cases hn'
    split at hx
    · cases hx
    · rename_i hn
      -- no balance has moved, and all that follows is a look at the source
      obtain ⟨d, -, hrun⟩ := Service.except_bind_ok_iff.1 hrun
      obtain ⟨c, -, hrun⟩ := Service.except_bind_ok_iff.1 hrun
      have hshift := Except.ok.inj (Except.ok.inj hrun)
      have hnone := shiftSources_of_none (l := u.database.ledger) (d := d)
        (p := fun r => c.isInteger (.integer r.id)) (by rw [hshift]; exact Nat.eq_zero_of_not_pos hn)
      have hsame : w.database = u.database := by
        rw [hdb, show l = u.database.ledger by rw [← hnone, hshift]]
        rfl
      exact ((orderly_missing (T := .calls w.setting) source delta).harmless rfl rfl e t hx).after
        hsame hbr ((Kept.change _ u).of_ok hw)

end

/-! ### Any call on a table -/

section

variable {s : Session}

theorem harmless_storeRead (ρ : Type) {α : Type} [Persistent ρ α] [Record α] [SchemaOf ρ]
    [LawfulSchema ρ] (answer : Row α → Answer) (fields : List (String × Value))
    (hb : s.breaks = none) (hl : s.database.layout = .full)
    (hread : ∀ item, Record.read (α := α) fields = .ok item → ∀ id, ∃ x, Persistent.decode .full
      (⟨id, Persistent.encode (ρ := ρ) s.now item.data, []⟩ : Row ρ) = .ok x) :
    (storeRead ρ answer fields).Harmless (Relation.name ρ) false s := by
  refine Op.Harmless.lift_bind fun a ha => ?_
  obtain ⟨item, hitem, rfl⟩ := read_of_recordOf ha
  exact (harmless_insert ρ hb hl (hread item hitem)).map answer

/-- A call on a table that fails is harmless; so that a new row can be read, it must be stored at a
proper time and the engine must not break off in between. -/
theorem tableCall_harmless (hl : s.database.layout = .full) (c : TableCall)
    (hinsert : c.isInsertion = true → s.breaks = none ∧ ∃ m : Calendar.Moment, s.now = m.toText) :
    c.run.Harmless c.table c.isDeletion s := by
  cases c with
  | insert table fields =>
    obtain ⟨hb, hnow⟩ := hinsert rfl
    cases table with
    | users =>
      exact harmless_storeRead User _ fields hb hl fun _ h => readable_newUser h
    | currencies =>
      exact harmless_storeRead Currency _ fields hb hl fun _ h => readable_newCurrency h
    | categories =>
      exact harmless_storeRead Category _ fields hb hl fun _ h => readable_newCategory h
    | sources =>
      exact harmless_storeRead Source _ fields hb hl fun _ h => readable_newSource h
    | entries =>
      exact harmless_storeRead StoredEntry _ fields hb hl fun _ h => readable_readEntry h hnow
  | updateFields table id fields => cases table <;> exact (harmless_updateNamed _ id fields).map _
  | setArchived table id archived =>
    cases table <;>
      exact Op.Harmless.map _ (Op.Harmless.lift_bind fun _ _ => harmless_update _ id _)
  | delete table id => cases table <;> exact (harmless_delete _ id).map _
  | deleteByUser table user => cases table <;> exact (harmless_change _).map _
  | applyDelta source delta => exact (harmless_applyDelta source delta).map _
  | setEnabled user enabled =>
    exact Op.Harmless.map _ (Op.Harmless.lift_bind fun _ _ => harmless_update User user _)
  | setFixedCurrency user currency => exact (harmless_update User user _).map _
  | clearFixedCurrency currency => exact (harmless_change User).map _
  | updatePassword user hash => exact (harmless_update User user _).map _

end

/-! ## What a refused constraint is reported as -/

/-- The kind of rejection that a constraint is reported as. -/
def Breach.kind (deleting : Bool) : Breach → RejectionKind
  | .empty _ _ => .nullConstraint
  | .domain _ => .check
  | .duplicate _ => .unique
  | .reference => if deleting then .restrict else .foreignKey
  | .mismatch => .ledger

/-- How a text starts is seen from its first part, if that is long enough. -/
theorem startsWith_append (s start rest : String)
    (h : start.toList.length ≤ s.toList.length) :
    Rejection.startsWith (s ++ rest) start = Rejection.startsWith s start := by
  unfold Rejection.startsWith
  rw [String.toList_append, Bool.eq_iff_iff, List.isPrefixOf_iff_prefix, List.isPrefixOf_iff_prefix]
  exact ⟨fun hp => List.prefix_of_prefix_length_le hp (List.prefix_append _ _) h,
    fun hp => hp.trans (List.prefix_append _ _)⟩

theorem kind_ofConstraint (message table : String) (deleting : Bool) :
    (Rejection.ofConstraint message table deleting).kind =
      if Rejection.startsWith message "UNIQUE" then .unique
      else if Rejection.startsWith message "NOT NULL" then .nullConstraint
      else if Rejection.startsWith message "CHECK" then .check
      else if Rejection.startsWith message "FOREIGN KEY" then
        if deleting then .restrict else .foreignKey
      else .ledger := by
  unfold Rejection.ofConstraint
  split_ifs <;> rfl

/-- How the message of a breach starts. -/
theorem startsWith_message {b : Breach} {s rest : String} (hb : b.message = s ++ rest)
    (start : String) (h : start.toList.length ≤ s.toList.length) :
    Rejection.startsWith b.message start = Rejection.startsWith s start := by
  rw [hb, startsWith_append s start rest h]

theorem kind_rejection (b : Breach) (table : TableName) (deleting : Bool) :
    (b.rejection table deleting).kind = b.kind deleting := by
  rw [Breach.rejection, kind_ofConstraint]
  cases b with
  | empty t column =>
    have hb : (Breach.empty t column).message
        = "NOT NULL constraint failed: " ++ (t.text ++ ("." ++ column)) := by
      rw [← String.append_assoc, ← String.append_assoc]
      exact rfl
    have hunique := (startsWith_message hb "UNIQUE" (by decide)).trans (c := false) rfl
    have hnull := (startsWith_message hb "NOT NULL" (by decide)).trans (c := true) rfl
    simp only [hunique, hnull, Bool.false_eq_true, if_false, if_true]
    rfl
  | domain condition =>
    have hb : (Breach.domain condition).message = "CHECK constraint failed: " ++ condition := rfl
    have hunique := (startsWith_message hb "UNIQUE" (by decide)).trans (c := false) rfl
    have hnull := (startsWith_message hb "NOT NULL" (by decide)).trans (c := false) rfl
    have hcheck := (startsWith_message hb "CHECK" (by decide)).trans (c := true) rfl
    simp only [hunique, hnull, hcheck, Bool.false_eq_true, if_false, if_true]
    rfl
  | duplicate columns =>
    have hb : (Breach.duplicate columns).message = "UNIQUE constraint failed: " ++ columns := rfl
    have hunique := (startsWith_message hb "UNIQUE" (by decide)).trans (c := true) rfl
    simp only [hunique, if_true]
    rfl
  | reference => cases deleting <;> rfl
  | mismatch => rfl

/-! ## Any mix of calls -/

/-- After any mix of calls on the ledger and on its tables every row is as the schema asks. A call on
a table that fails then leaves the database as it was, if the engine does not undo the transaction of
the block around it. If it was refused for a constraint, that is what it reports, by the kind of the
constraint; and a transaction of its own stays open only if its commit was refused. -/
theorem Attainable.keeps_schema {db : Database} (h : Attainable db) :
    db.ledger.Obeys ∧ ∀ (s : Session) (c : TableCall) (e : Failure) (t : Session),
      s.database = db →
      (c.isInsertion = true → s.breaks = none ∧ ∃ m : Calendar.Moment, s.now = m.toText) →
      c.run.exec s = (.error e, t) → (s.inBlock = true → ¬Undoes e) →
      t.database = s.database ∧
      (s.isPending = false → t.isPending = true → e = Trouble.lock.failure) ∧
      (t.breaches = s.breaches ∨
        ∃ (b : Breach) (r : Rejection), t.breaches = s.breaches ++ [b] ∧ e = .rejected r ∧
          r = b.rejection c.table c.isDeletion ∧ r.kind = b.kind c.isDeletion) := by
  refine ⟨h.upright.sound.obeys, fun s c e t hd hinsert hx hblock => ?_⟩
  obtain ⟨hdb, hbreaches⟩ := tableCall_harmless (hd ▸ h.upright.layout) c hinsert e t hx
  have hputs := (orderly_tableCall (g := s.setting) c).putsOff rfl
  rw [Op.PutsOff, hx] at hputs
  refine ⟨hdb.resolve_right fun h => hblock h.1 h.2,
    fun hs ht => Except.error.inj (hputs hs ht), hbreaches.imp_right ?_⟩
  rintro ⟨b, hb, he⟩
  exact ⟨b, _, hb, he, rfl, kind_rejection b _ _⟩

/-- The currency of a source does not leave its table; the attempt changes nothing and is reported as
a removal that is blocked. -/
theorem currency_of_source_stays :
    let s := newSession.after firstSpending
    let t := ((TableCall.delete .currencies (.int 1)).run.exec s).2
    s.database.ledger.Obeys ∧ s.database.ledger.currencies.rows.length = 1 ∧
      t.database = s.database ∧ t.breaches = s.breaches ++ [.reference] ∧
      ∃ r : Rejection, ((TableCall.delete .currencies (.int 1)).run.exec s).1 = .error (.rejected r) ∧
        r.kind = .restrict := by
  intro s t
  have hd : Attainable s.database := Attainable.after (s := newSession) .migrated rfl rfl firstSpending
  have hrows : s.database.ledger.currencies.rows.length = 1 := by decide +kernel
  have hbreaches : t.breaches = s.breaches ++ [.reference] := by decide +kernel
  have hx : ((TableCall.delete .currencies (.int 1)).run.exec s).1.isOk = false := by decide +kernel
  have hout : s.inBlock = false := by decide +kernel
  clear_value s
  obtain ⟨hobeys, hfails⟩ := Attainable.keeps_schema hd
  cases he : ((TableCall.delete .currencies (.int 1)).run.exec s).1 with
  | ok a =>
    rw [he] at hx
    cases hx
  | error e =>
    obtain ⟨hdb, -, hnone | ⟨b, r, hb, hr, -, hkind⟩⟩ :=
      hfails s (.delete .currencies (.int 1)) e t rfl (fun h => by cases h) (Prod.ext he rfl)
        fun hin => by rw [hout] at hin; cases hin
    · rw [hbreaches] at hnone
      exact absurd hnone (by simp)
    · obtain rfl : Breach.reference = b := by simpa [hbreaches] using hb
      exact ⟨hobeys, hrows, hdb, hbreaches, r, congrArg Except.error hr, hkind⟩

/-- A call on a table that fails may leave traces. If the ids of a table have run out, the engine undoes
the whole block for the row that it has no room for, and what was stored before is gone. And a new row
stays if it cannot be read back. -/
theorem failing_insert_leaves_traces :
    let enable := TableCall.setEnabled (.int 1) (.bool true)
    let rent := TableCall.insert .categories [("user_id", .int 1), ("name", .text "Rent")]
    let s := newSession.after [.registerUser (.text "ann") (.text "secret") (.text "USD")]
    let l := s.database.ledger
    let used := { l with categories := { l.categories with lastId := 9223372036854775807 } }
    let block := { s with database := s.database.withLedger used }.start
    let enabled := (enable.run.exec block).2
    let full := rent.run.exec enabled
    let unread := rent.run.exec { s with breaks := some (.trouble 3 .lock) }
    full.1.isOk = false ∧ enabled.database.ledger.users.rows.map (·.data.enabled) = [true] ∧
      full.2.database.ledger.users.rows.map (·.data.enabled) = [false] ∧
      unread.1.isOk = false ∧ l.categories.rows.length = 0 ∧
      unread.2.database.ledger.categories.rows.length = 1 ∧ unread.2.inTransaction = false := by
  decide +kernel

end Bookkeeping.Store
