import Bookkeeping.Proofs.Twins

/-! # Sessions that differ in passwords only

Operations are compared two at a time. Run in sessions whose databases are twins they fail alike, or
have answers that correspond, and leave such sessions behind, with the same events in their logs.
-/

namespace Bookkeeping.Store

variable {p : Pairing} {α β γ δ : Type}

/-- Databases whose ledgers are twins. -/
structure Database.Twin (p : Pairing) (db db' : Database) : Prop where
  layout : db'.layout = db.layout
  history : db'.history = db.history
  ledger : db.ledger.Twin p db'.ledger

/-- The same place among blocks, with such databases before them. -/
inductive Standing.Twin (p : Pairing) : Standing → Standing → Prop
  | outside : Twin p .outside .outside
  | inside {db db' : Database} (h : db.Twin p db') : Twin p (.inside db) (.inside db')
  | bereft : Twin p .bereft .bereft

/-- The same hindrance. Nothing looks at what a transaction that is put off has changed. -/
inductive Hindrance.Same : Option Hindrance → Option Hindrance → Prop
  | none : Same .none .none
  | trouble (n : Nat) (t : Trouble) : Same (some (.trouble n t)) (some (.trouble n t))
  | pending (db db' : Database) : Same (some (.pending db)) (some (.pending db'))

theorem Hindrance.Same.refl (h : Option Hindrance) : Hindrance.Same h h := by
  rcases h with _ | _ | _
  · exact .none
  · exact .trouble _ _
  · exact .pending _ _

/-- Sessions on such databases that keep passwords in two ways, and have come to the same so far. -/
structure Session.Twin (p : Pairing) (s t : Session) : Prop where
  database : s.database.Twin p t.database
  left : s.scheme = p.left
  right : t.scheme = p.right
  enforce : t.enforce = s.enforce
  now : t.now = s.now
  path : t.path = s.path
  standing : s.standing.Twin p t.standing
  boundaries : t.boundaries = s.boundaries
  fuse : t.fuse = s.fuse
  breaks : Hindrance.Same s.breaks t.breaks
  breaches : t.breaches = s.breaches
  log : t.log = s.log

theorem Database.twin_migrated : Database.Twin p .migrated .migrated := ⟨rfl, rfl, .nil, rfl, rfl⟩

namespace Op

/-- Operations that come to the same in twin sessions. -/
def Twin (p : Pairing) (R : α → β → Prop) (x : Op α) (y : Op β) : Prop :=
  ∀ s t : Session, s.Twin p t →
    Matches R (x.exec s).1 (y.exec t).1 ∧ (x.exec s).2.Twin p (y.exec t).2

variable {R : α → β → Prop} {S : γ → δ → Prop}

theorem twin_lift {x : Except Failure α} {y : Except Failure β} (h : Matches R x y) :
    Twin p R (lift x) (lift y) := fun _ _ hst => ⟨h, hst⟩

theorem twin_same (x : Except Failure α) : Twin p Eq (lift x) (lift x) := twin_lift (.refl x)

theorem twin_pure {a : α} {b : β} (h : R a b) : Twin p R (pure a) (pure b) :=
  fun _ _ hst => ⟨.ok h, hst⟩

theorem twin_fail (e : Failure) : Twin p R (fail e) (fail e) := twin_lift (.error e)

theorem twin_get : Twin p (Session.Twin p) get get := fun _ _ hst => ⟨.ok hst, hst⟩

theorem Twin.bind {x : Op α} {y : Op β} {f : α → Op γ} {g : β → Op δ} (h : Twin p R x y)
    (hf : ∀ a b, R a b → Twin p S (f a) (g b)) : Twin p S (x >>= f) (y >>= g) := by
  intro s t hst
  obtain ⟨hresult, hstate⟩ := h s t hst
  rw [exec_bind, exec_bind]
  cases hx : x.exec s with
  | mk r s' =>
    cases hy : y.exec t with
    | mk r' t' =>
      rw [hx, hy] at hresult hstate
      cases hresult with
      | ok hab => exact hf _ _ hab s' t' hstate
      | error e => exact ⟨.error e, hstate⟩

/-- The same after the same. -/
theorem Twin.next {x y : Op α} {f : α → Op γ} {g : α → Op δ} (h : Twin p Eq x y)
    (hf : ∀ a, Twin p S (f a) (g a)) : Twin p S (x >>= f) (y >>= g) :=
  h.bind fun a _ hab => hab ▸ hf a

theorem Twin.map {x : Op α} {y : Op β} {f : α → γ} {g : β → δ} (h : Twin p R x y)
    (hf : ∀ a b, R a b → S (f a) (g b)) : Twin p S (f <$> x) (g <$> y) := by
  rw [map_eq_pure_bind, map_eq_pure_bind]
  exact h.bind fun a b hab => twin_pure (hf a b hab)

theorem Twin.ite {c : Prop} [Decidable c] {x x' : Op α} {y y' : Op β} (hx : Twin p R x y)
    (hy : Twin p R x' y') : Twin p R (if c then x else x') (if c then y else y') := by
  split
  · exact hx
  · exact hy

/-- What comes after one of two ways to find something out. -/
theorem Twin.either {c : Prop} [Decidable c] {x x' : Op α} {y y' : Op β} {f : α → Op γ}
    {g : β → Op δ} (hx : c → Twin p R x y) (hx' : ¬ c → Twin p R x' y')
    (hf : ∀ a b, R a b → Twin p S (f a) (g b)) :
    Twin p S (if c then do let a ← x; f a else do let a ← x'; f a)
      (if c then do let b ← y; g b else do let b ← y'; g b) := by
  split
  · rename_i h
    exact (hx h).bind hf
  · rename_i h
    exact (hx' h).bind hf

/-- What comes after a value that is checked only if it is there. -/
theorem twin_optionally {c : Bool} {x : Except Failure β} {f : Option β → Op γ} {g : Option β → Op δ}
    (hf : ∀ b, Twin p S (f b) (g b)) :
    Twin p S (if c = true then do let b ← pure none; f b else do let b ← some <$> lift x; f b)
      (if c = true then do let b ← pure none; g b else do let b ← some <$> lift x; g b) :=
  .either (R := Eq) (fun _ => twin_pure rfl) (fun _ => (twin_same x).map fun _ _ h => h ▸ rfl)
    fun _ _ h => h ▸ hf _

/-- What comes after something that is done under a condition only. -/
theorem Twin.whether {c : Prop} [Decidable c] {x : Op α} {y : Op β} {f : Op γ} {g : Op δ}
    (hx : Twin p R x y) (hf : Twin p S f g) :
    Twin p S (if c then do let _ ← x; f else f) (if c then do let _ ← y; g else g) :=
  .ite (hx.bind fun _ _ _ => hf) hf

end Op

open Op

/-! ## Transactions and statements -/

namespace Session.Twin

variable {s t : Session}

theorem inBlock (h : s.Twin p t) : t.inBlock = s.inBlock := by
  have hs := h.standing
  unfold Session.inBlock
  generalize s.standing = x at hs
  generalize t.standing = y at hs
  cases hs <;> rfl

theorem isPending (h : s.Twin p t) : t.isPending = s.isPending := by
  have hb := h.breaks
  unfold Session.isPending
  generalize s.breaks = x at hb
  generalize t.breaks = y at hb
  cases hb <;> rfl

theorem trouble? (h : s.Twin p t) : t.trouble? = s.trouble? := by
  have hb := h.breaks
  unfold Session.trouble?
  generalize s.breaks = x at hb
  generalize t.breaks = y at hb
  cases hb <;> rfl

theorem hindrance (h : s.Twin p t) : Hindrance.Same s.hindrance t.hindrance := by
  have hb := h.breaks
  unfold Session.hindrance
  generalize s.breaks = x at hb
  generalize t.breaks = y at hb
  cases hb with
  | none => exact .none
  | trouble n t => cases n <;> exact .trouble _ t
  | pending db db' => exact .pending db db'

theorem start (h : s.Twin p t) : s.start.Twin p t.start :=
  { h with
    standing := .inside h.database
    breaks := h.hindrance
    boundaries := by rw [Session.start, Session.start, h.boundaries] }

theorem commit (h : s.Twin p t) : s.commit.Twin p t.commit :=
  { h with
    standing := .outside
    breaks := h.hindrance
    boundaries := by rw [Session.commit, Session.commit, h.boundaries] }

theorem leave (h : s.Twin p t) : s.leave.Twin p t.leave := { h with standing := .outside }

theorem freed (h : s.Twin p t) :
    Session.Twin p { s with breaks := .none } { t with breaks := .none } := { h with breaks := .none }

theorem abandon (h : s.Twin p t) : s.abandon.Twin p t.abandon := by
  have hs := h.standing
  unfold Session.abandon
  generalize hx : s.standing = x at hs
  generalize hy : t.standing = y at hs
  cases hs with
  | outside | bereft => exact h
  | inside hdb => exact { h with database := hdb, standing := .bereft }

theorem rollBack (h : s.Twin p t) : s.rollBack.Twin p t.rollBack := by
  have hs := h.standing
  have hlog : t.log ++ [rollbackEvent t.path] = s.log ++ [rollbackEvent s.path] := by
    rw [h.log, h.path]
  unfold Session.rollBack
  generalize hx : s.standing = x at hs
  generalize hy : t.standing = y at hs
  cases hs with
  | outside | bereft => exact { h with standing := .outside, log := hlog }
  | inside hdb =>
    exact { h with
      database := hdb
      standing := .outside
      log := hlog
      boundaries := congrArg (· ++ _) h.boundaries }

theorem leaveOpen (h : s.Twin p t) : s.leaveOpen.Twin p t.leaveOpen := by
  have hs := h.standing
  unfold Session.leaveOpen
  generalize hx : s.standing = x at hs
  generalize hy : t.standing = y at hs
  cases hs with
  | outside | bereft => exact h
  | inside hdb =>
    exact { h with database := hdb, standing := .outside, breaks := .pending _ _ }

end Session.Twin

theorem twin_openBlock : Twin p Eq openBlock openBlock := by
  intro s t hst
  simp only [openBlock, exec_of, hst.isPending, hst.trouble?]
  split
  · exact ⟨.error _, hst⟩
  · split
    · exact ⟨.ok rfl, hst.start⟩
    · exact ⟨.error _, hst.freed⟩

theorem twin_closeBlock : Twin p Eq closeBlock closeBlock := by
  intro s t hst
  have hs := hst.standing
  simp only [closeBlock, exec_of, hst.trouble?]
  generalize s.standing = x at hs
  generalize t.standing = y at hs
  cases hs with
  | outside => exact ⟨.ok rfl, hst.commit⟩
  | bereft => exact ⟨.error _, hst.leave⟩
  | inside h =>
    rcases s.trouble? with _ | _ | _
    · exact ⟨.ok rfl, hst.commit⟩
    · exact ⟨.error _, hst.leaveOpen⟩
    · exact ⟨.error _, hst.abandon.leave.freed⟩

section

variable {R : α → β → Prop} {x : Op α} {y : Op β}

theorem Op.Twin.undoing (h : Twin p R x y) : Twin p R (undoing x) (undoing y) := by
  intro s t hst
  obtain ⟨hresult, hstate⟩ := h s t hst
  rw [exec_undoing, exec_undoing]
  cases hx : x.exec s with
  | mk r s' =>
    cases hy : y.exec t with
    | mk r' t' =>
      rw [hx, hy] at hresult hstate
      cases hresult with
      | ok hab => exact ⟨.ok hab, hstate⟩
      | error e => exact ⟨.error e, hstate.rollBack⟩

theorem Op.Twin.transaction (h : Twin p R x y) : Twin p R (transaction x) (transaction y) := by
  intro s t hst
  cases hin : s.inBlock with
  | true =>
    rw [exec_transaction_inside x hin, exec_transaction_inside y (hst.inBlock.trans hin)]
    exact h s t hst
  | false =>
    rw [exec_transaction_outside x hin, exec_transaction_outside y (hst.inBlock.trans hin)]
    exact (twin_openBlock.next fun _ => h.undoing.bind fun a b hab =>
      twin_closeBlock.next fun _ => twin_pure hab) s t hst

theorem Op.Twin.abandoning (h : Twin p R x y) : Twin p R (abandoning x) (abandoning y) := by
  intro s t hst
  obtain ⟨hresult, hstate⟩ := h s t hst
  rw [Store.abandoning, Store.abandoning, exec_of, exec_of]
  cases hx : x.exec s with
  | mk r s' =>
    cases hy : y.exec t with
    | mk r' t' =>
      rw [hx, hy] at hresult hstate
      cases hresult with
      | ok hab => exact ⟨.ok hab, hstate⟩
      | error e =>
        cases e with
        | operational m =>
          refine ⟨.error _, ?_⟩
          dsimp only
          split
          · exact hstate.abandon
          · exact hstate
        | _ => exact ⟨.error _, hstate⟩

end

theorem twin_countStatement : Twin p Eq countStatement countStatement := by
  intro s t hst
  simp only [countStatement, exec_of, hst.trouble?]
  split
  · exact ⟨.ok rfl, { hst with breaks := hst.hindrance }⟩
  · exact ⟨.error _, hst.freed⟩
  · exact ⟨.error _, hst.abandon.freed⟩

/-- The same result, with databases that are twins. -/
def Database.TwinResult (p : Pairing) (R : α → β → Prop) (x : α × Database) (y : β × Database) :
    Prop :=
  R x.1 y.1 ∧ x.2.Twin p y.2

theorem twin_statement {R : α → β → Prop} {run : Session → Except Failure (α × Database)}
    {run' : Session → Except Failure (β × Database)}
    (h : ∀ s t : Session, s.Twin p t → Matches (Database.TwinResult p R) (run s) (run' t)) :
    Twin p R (statement run) (statement run') := by
  refine (twin_countStatement.next fun _ => ?_).transaction
  intro s t hst
  have hrun := h s t hst
  simp only [replacing, exec_of]
  cases hr : run s with
  | error e =>
    rw [hr] at hrun
    cases hr' : run' t with
    | error e' =>
      rw [hr'] at hrun
      cases hrun
      exact ⟨.error e, hst⟩
    | ok b =>
      rw [hr'] at hrun
      cases hrun
  | ok a =>
    rw [hr] at hrun
    cases hr' : run' t with
    | error e' =>
      rw [hr'] at hrun
      cases hrun
    | ok b =>
      rw [hr'] at hrun
      cases hrun with
      | ok hab => exact ⟨.ok hab.1, { hst with database := hab.2 }⟩

theorem twin_obey {R : α → β → Prop} {x : Stored α} {y : Stored β} (table : TableName)
    (deleting : Bool) (h : Matches R x y) : Twin p R (obey table deleting x) (obey table deleting y) := by
  intro s t hst
  cases h with
  | ok h => exact ⟨.ok h, hst⟩
  | error b => exact ⟨.error _, { hst with breaches := congrArg (· ++ [b]) hst.breaches }⟩

theorem twin_emit (level : Log.Level) (part : Log.Part) (event : String)
    (fields : List (String × Value)) :
    Twin p Eq (emit level part event fields) (emit level part event fields) :=
  fun _ _ hst => ⟨.ok rfl, { hst with log := congrArg (· ++ _) hst.log }⟩

theorem twin_burnFuse : Twin p Eq burnFuse burnFuse := by
  intro s t hst
  simp only [burnFuse, exec_of, hst.fuse]
  split
  · exact ⟨.ok rfl, hst⟩
  · exact ⟨.ok rfl, { hst with fuse := rfl }⟩
  · exact ⟨.error _, { hst with fuse := rfl }⟩

/-- Passwords are kept as hashes that stand for each other. -/
theorem twin_hashed {a b : String} {R : String → String → Prop}
    (h : ∀ n n', R (p.left.hash n a) (p.right.hash n' b)) : Twin p R (hashed a) (hashed b) := by
  intro s t hst
  rw [exec_hashed, exec_hashed, hst.left, hst.right]
  exact ⟨.ok (h _ _), { hst with left := rfl, right := rfl }⟩

/-! ## Statements on tables -/

theorem Database.Twin.open? {db db' : Database} (h : db.Twin p db') (name : TableName) :
    Matches (Ledger.Twin p) (db.open? name) (db'.open? name) := by
  rw [Database.open?, Database.open?, h.layout]
  split
  · exact .ok h.ledger
  · exact .error _

section

variable (ρ : Type) [Persistent ρ α]

theorem twin_select {R : β → γ → Prop} {run : Ledger → Except Failure β}
    {run' : Ledger → Except Failure γ}
    (h : ∀ l l', l.Twin p l' → Matches R (run l) (run' l')) :
    Twin p R (select ρ run) (select ρ run') :=
  twin_statement fun _ _ hst => (hst.database.open? _).bind fun l l' hl =>
    (h l l' hl).bind fun _ _ hab => .ok ⟨hab, hst.database⟩

/-- A change of a ledger, which may break a constraint. -/
theorem twin_write {deleting : Bool} {run run' : Session → Ledger → Except Failure (Stored (β × Ledger))}
    (h : ∀ s t l l', s.Twin p t → l.Twin p l' →
      Matches (Matches (Ledger.TwinResult p)) (run s l) (run' t l')) :
    Twin p Eq (write ρ deleting run) (write ρ deleting run') := by
  refine ((twin_statement (R := Matches Eq) fun s t hst => ?_).bind fun _ _ hab =>
    twin_obey _ _ hab).transaction
  refine ((hst.database.open? _).bind fun l l' hl => h s t l l' hst hl).bind fun r r' hr => ?_
  cases hr with
  | ok hl =>
    refine .ok ⟨.ok hl.1, { hst.database with ledger := hl.2 }⟩
  | error b => exact .ok ⟨.error b, hst.database⟩

/-- The records of rows are read in the layout that both databases have. -/
theorem twin_decoded {R : β → γ → Prop} {read : Layout → Except Failure β}
    {read' : Layout → Except Failure γ} (h : ∀ layout, Matches R (read layout) (read' layout)) :
    Twin p R (do let layout := (← get).database.layout; lift (read layout))
      (do let layout := (← get).database.layout; lift (read' layout)) :=
  twin_get.bind fun s t hst => by
    dsimp only
    rw [hst.database.layout]
    exact twin_lift (h _)

end

section

open Ledger

variable (ρ : Type) [Persistent ρ α] [Unhashed ρ]

theorem twin_selectOne (params : Except Failure γ) (q : γ → Row ρ → Bool) :
    Twin p Eq (selectOne ρ params q) (selectOne ρ params q) := by
  refine (twin_select ρ (R := Eq) fun l l' hl => ?_).next fun found => ?_
  · rw [Unhashed.table hl]
    exact .refl _
  · cases found with
    | none => exact twin_pure rfl
    | some r =>
      refine twin_get.bind fun s t hst => ?_
      dsimp only
      rw [hst.database.layout]
      exact (twin_same _).map fun _ _ h => h ▸ rfl

theorem twin_selectAll (params : Except Failure γ) (pick : γ → List (Row ρ) → List (Row ρ)) :
    Twin p Eq (selectAll ρ params pick) (selectAll ρ params pick) := by
  refine (twin_select ρ (R := Eq) fun l l' hl => ?_).next fun rows =>
    twin_decoded fun layout => .refl (decodeAll layout rows)
  rw [Unhashed.table hl]
  exact .refl _

theorem twin_find (id : Value) : Twin p Eq (find ρ id) (find ρ id) := twin_selectOne ρ _ _

theorem twin_insert (a : α) : Twin p Eq (insert ρ a) (insert ρ a) := by
  refine (twin_write ρ fun s t l l' hst hl => ?_).abandoning.transaction.next
    fun id => (twin_find ρ _).next fun found => ?_
  · rw [hst.database.layout, hst.now, hst.enforce, Unhashed.table hl]
    split
    · exact .error _
    · refine (Matches.refl _).bind fun _ _ _ => ?_
      split
      · exact .error _
      · exact .ok (hl.insert _)
  · cases found with
    | none => exact twin_fail _
    | some r => exact twin_pure rfl

theorem twin_update (id : Value) (fields : List (String × Value)) :
    Twin p Eq (update ρ id fields) (update ρ id fields) := by
  refine .ite (twin_pure rfl) ((twin_write ρ fun s t l l' hst hl => ?_).next fun n => twin_pure rfl)
  rw [hst.database.layout, hst.enforce]
  split
  · exact .error _
  · exact (Matches.refl _).bind fun cells _ hcells => hcells ▸ (Matches.refl _).bind
      fun c _ hc => hc ▸ .ok (hl.update _ _)

theorem twin_delete (id : Value) : Twin p Eq (delete ρ id) (delete ρ id) := by
  refine (twin_write ρ fun s t l l' hst hl => ?_).next fun n => twin_pure rfl
  rw [hst.enforce]
  exact (Matches.refl _).bind fun c _ hc => hc ▸ .ok (hl.remove _)

end

section

open Ledger

variable (ρ : Type) [OwnedRecord ρ α] [Unhashed ρ]

theorem twin_setArchived (id archived : Value) :
    Twin p Eq (setArchived ρ id archived) (setArchived ρ id archived) :=
  (twin_same _).next fun _ => twin_update ρ id _

theorem twin_deleteByUser (user : Value) :
    Twin p Eq (deleteByUser ρ user) (deleteByUser ρ user) :=
  twin_write ρ fun s t l l' hst hl => by
    rw [hst.enforce]
    exact (Matches.refl _).bind fun c _ hc => hc ▸ .ok (hl.remove _)

end

theorem twin_findByName (ρ : Type) [NamedRecord ρ] [Ledger.Unhashed ρ] (user name : Value) :
    Twin p Eq (findByName ρ user name) (findByName ρ user name) :=
  (twin_same _).next fun _ => twin_selectOne ρ _ _

/-- What is counted in the tables of sources and entries. -/
theorem twin_counts (ρ : Type) [Persistent ρ α] {run : Ledger → Except Failure β}
    (h : ∀ l users, run { l with users } = run l) : Twin p Eq (select ρ run) (select ρ run) :=
  twin_select ρ fun l l' hl => by
    have hsame := h l l'.users
    rw [hl.rest, hsame]
    exact .refl _

theorem twin_applyDelta (source delta : Value) :
    Twin p Eq (applyDelta source delta) (applyDelta source delta) := by
  refine twin_burnFuse.next fun _ => (twin_write Source fun s t l l' hst hl => ?_).next fun n =>
    .ite (twin_pure rfl) ((twin_find Source source).next fun found => ?_)
  · refine (Matches.refl _).bind fun d _ hd => hd ▸ (Matches.refl _).bind fun c _ hc => hc ▸ ?_
    rw [shiftSources, shiftSources, hl.sources]
    exact .ok (.ok ⟨rfl, hl.withSources _⟩)
  · cases found with
    | none => exact twin_pure rfl
    | some r => exact twin_fail _

theorem twin_findFiltered (user : Value) (filter : EntryFilter) :
    Twin p Eq (findFiltered user filter) (findFiltered user filter) := by
  refine (twin_same _).next fun start => (twin_same _).next fun stop => (twin_same _).next fun kind =>
    twin_get.bind fun s t hst => ?_
  dsimp only
  rw [hst.database.layout]
  exact .ite (twin_statement fun _ _ _ => .error _) (twin_selectAll StoredEntry _ _)

/-! ## Statements on users -/

/-- A row that is looked up without looking at hashes. -/
theorem twin_selectUser (params : Except Failure γ) {q : γ → Row User → Bool}
    (hq : ∀ c r k, q c (r.rehashed k) = q c r) :
    Twin p (Option.Rel (UserTwin p)) (selectOne User params q) (selectOne User params q) := by
  refine (twin_select User (R := Option.Rel (UserTwin p)) fun l l' hl => ?_).bind fun r r' hr => ?_
  · exact (Matches.refl _).bind fun c _ hc => hc ▸ .ok (UserTwin.find? hl.users (hq c))
  · cases hr with
    | none => exact twin_pure .none
    | some hr =>
      refine twin_get.bind fun s t hst => ?_
      dsimp only
      rw [hst.database.layout]
      exact (twin_lift (hr.decode _)).map fun _ _ h => .some h

theorem twin_findUser (id : Value) :
    Twin p (Option.Rel (UserTwin p)) (find User id) (find User id) :=
  twin_selectUser _ fun _ _ _ => rfl

theorem twin_findByUsername (username : Value) :
    Twin p (Option.Rel (UserTwin p)) (findByUsername username) (findByUsername username) :=
  (twin_same _).next fun _ => twin_selectUser _ fun _ _ _ => rfl

/-- New accounts that differ in their hashes are stored under the same id. -/
theorem twin_insertUser {u : User} {k : String} (hash : ∀ id, p.Paired id u.passwordHash k) :
    Twin p (UserTwin p) (insert User u) (insert User { u with passwordHash := k }) := by
  refine (twin_write User fun s t l l' hst hl => ?_).abandoning.transaction.next
    fun id => (twin_findUser _).bind fun r r' hr => ?_
  · have hfull : (Relation.table (ρ := User) l').isFull = (Relation.table (ρ := User) l).isFull := by
      show (!fitsInteger l'.users.nextId) = !fitsInteger l.users.nextId
      rw [hl.nextId]
    rw [hst.database.layout, hst.enforce, hfull]
    split
    · exact .error _
    · refine (Matches.refl (storable User u)).bind fun _ _ _ => ?_
      split
      · exact .error _
      · exact .ok (hl.insertUser (hash _))
  · cases hr with
    | none => exact twin_fail _
    | some hr => exact twin_pure hr

@[simp] theorem columns_user (layout : Layout) :
    layout.columns (ρ := User) = Relation.columns := by
  obtain ⟨_, target, _, _⟩ := layout
  cases target <;> rfl

/-- One column of a row is changed, to values that are stored alike. -/
theorem twin_updateUser (user : Value) {name : String} {v v' : Value}
    (h : Matches (fun c c' => UserTwin.Changes p (Ledger.assigned Relation.columns [(name, c)])
        (Ledger.assigned Relation.columns [(name, c')])) (param v) (param v')) :
    Twin p Eq (update User user [(name, v)]) (update User user [(name, v')]) := by
  refine .ite (twin_pure rfl) ((twin_write User fun s t l l' hst hl => ?_).next fun n =>
    twin_pure rfl)
  have hmissing : missingColumn? User s.database.layout [(name, v')]
      = missingColumn? User s.database.layout [(name, v)] := rfl
  rw [hst.database.layout, hst.enforce, columns_user, hmissing]
  split
  · exact .error _
  · have hcells : Matches (fun cells cells' => UserTwin.Changes p
        (Ledger.assigned Relation.columns cells) (Ledger.assigned Relation.columns cells'))
        (paramFields [(name, v)]) (paramFields [(name, v')]) := h.bind fun c c' hc => .ok hc
    exact hcells.bind fun cells cells' hc => (Matches.refl _).bind
      fun d _ hd => hd ▸ .ok (hl.updateUser (fun _ _ => rfl) hc)

theorem twin_setFixedCurrency (user currency : Value) :
    Twin p Eq (setFixedCurrency user currency) (setFixedCurrency user currency) := by
  refine twin_updateUser user ((Matches.refl (param currency)).mono fun c _ hc r r' hr => hc ▸ ?_)
  rw [assigned_single rfl, assigned_single rfl]
  cases hr with
  | rehashed visible hash =>
    have hr := UserTwin.rehashed visible hash
    unfold Column.store
    show Matches _ (Column.put _ c.asInteger _ >>= _) (Column.put _ c.asInteger _ >>= _)
    cases c.asInteger with
    | null => exact .ok ⟨hr.put "fixed_currency_id" (u := { r.data with fixedCurrency := none }) hash, rfl⟩
    | integer n =>
      exact .ok ⟨hr.put "fixed_currency_id" (u := { r.data with fixedCurrency := some n }) hash, rfl⟩
    | real x => exact .ok ⟨hr.keep (by decide) _, rfl⟩
    | text s => exact .ok ⟨hr.keep (by decide) _, rfl⟩

/-- Only 0 and 1 are stored as a flag, whatever else is in the row. -/
theorem assigned_flag (c : Cell) :
    (∃ b, ∀ r : Row User, Ledger.assigned Relation.columns [("enabled", c)] r = .error b) ∨
      ∃ enabled, ∀ r : Row User, Ledger.assigned Relation.columns [("enabled", c)] r
        = .ok (r.put "enabled" { r.data with enabled }) := by
  have hsingle (r : Row User) : Ledger.assigned Relation.columns [("enabled", c)] r
      = (Column.flag .users "enabled" (·.enabled) fun enabled u => { u with enabled }).store c r :=
    assigned_single rfl c r
  simp only [hsingle, Column.store, Column.flag, Cell.convert]
  cases c.asInteger with
  | integer n =>
    by_cases h0 : n = 0
    · exact .inr ⟨false, fun _ => by rw [h0]; rfl⟩
    · by_cases h1 : n = 1
      · exact .inr ⟨true, fun _ => by rw [h1]; rfl⟩
      · exact .inl ⟨.domain (Breach.flagCondition "enabled"), fun _ => by
          simp [h0, h1, bind, Except.bind]⟩
  | _ => exact .inl ⟨_, fun _ => rfl⟩

theorem twin_setEnabled (user enabled : Value) :
    Twin p Eq (setEnabled user enabled) (setEnabled user enabled) := by
  refine (twin_same _).next fun flag =>
    twin_updateUser user ((Matches.refl (param (.int flag))).mono fun c _ hc r r' hr => hc ▸ ?_)
  obtain ⟨b, hb⟩ | ⟨enabled, hb⟩ := assigned_flag c
  · rw [hb, hb]
    exact .error b
  · rw [hb, hb]
    cases hr with
    | rehashed visible hash =>
      exact .ok ⟨(UserTwin.rehashed visible hash).put "enabled" (u := { r.data with enabled }) hash,
        rfl⟩

theorem twin_updatePassword (user : Value) {h k : String} (hash : ∀ id, p.Paired id h k) :
    Twin p Eq (updatePassword user (.text h)) (updatePassword user (.text k)) := by
  refine twin_updateUser user (.ok fun r r' hr => ?_)
  rw [assigned_single rfl, assigned_single rfl]
  cases hr with
  | rehashed visible old =>
    exact .ok ⟨(UserTwin.rehashed visible old).put "password"
      (u := { r.data with passwordHash := h }) (hash _), rfl⟩

theorem twin_deleteUser (user : Value) : Twin p Eq (delete User user) (delete User user) := by
  refine (twin_write User fun s t l l' hst hl => ?_).next fun n => twin_pure rfl
  rw [hst.enforce]
  exact (Matches.refl _).bind fun c _ hc => hc ▸ .ok (hl.removeUser fun _ _ => rfl)

theorem twin_clearFixedCurrency (currency : Value) :
    Twin p Eq (clearFixedCurrency currency) (clearFixedCurrency currency) := by
  refine twin_write User fun s t l l' hst hl => (Matches.refl _).bind fun c _ hc => hc ▸ ?_
  have hcount := (UserTwin.filter (q := fun r => c.isInteger
    (r.cell "fixed_currency_id" (.ofInt? r.data.fixedCurrency))) hl.users fun _ _ => rfl).length_eq
  refine .ok (.ok ⟨hcount, hl.withUsers (UserTwin.change hl.users (fun _ _ => rfl) fun r r' hr => ?_)
    hl.lastId⟩)
  cases hr with
  | rehashed visible hash =>
    exact (UserTwin.rehashed visible hash).put "fixed_currency_id"
      (u := { r.data with fixedCurrency := none }) hash

end Bookkeeping.Store
