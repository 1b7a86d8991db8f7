import Bookkeeping.Proofs.Atomicity
import Bookkeeping.Proofs.Effects

/-! # Runs side by side

An operation is run twice, on two databases that have the same rows of some users. If it looks at
the rows of these users only, the runs give the same answer or the same failure, leave databases
that again have the same rows of these users, and do nothing to the rows of anybody else.

The two databases may also be one, and the runs may differ in whether references are looked at. So
what is said of two runs here tells at once who sees and who changes what, that constraints make no
difference, and what is left when an operation fails.
-/

namespace Bookkeeping.Store

open Op Session Calendar

/-! ## Sessions side by side -/

/-- What two runs are compared by. -/
structure Scope where
  /-- The users whose rows are the same in both databases. -/
  sees : Int → Bool
  /-- Whether no statement is to be refused for a constraint. -/
  strict : Prop
  /-- Whether clocks show proper times, so that what is stored can be read. -/
  timely : Prop
  /-- The failures that may come after something was written. -/
  late : Failure → Prop

variable {v : Scope} {s s' t t' : Session}

/-- Two intact databases that have the same rows of the users in view. -/
structure Database.Beside (v : Scope) (db db' : Database) : Prop where
  layout : db.layout = .full ∧ db'.layout = .full
  intact : Intact db.ledger
  intact' : Intact db'.ledger
  alike : Ledger.Alike v.sees db.ledger db'.ledger

/-- Two sessions that are at the same place among blocks. If their transactions are undone, their
databases are side by side again. -/
inductive Standing.Beside (v : Scope) : Standing → Standing → Prop
  | outside : Beside v .outside .outside
  | inside {before before' : Database} (h : before.Beside v before') :
    Beside v (.inside before) (.inside before')
  | bereft : Beside v .bereft .bereft

theorem Database.Beside.relate {w : Scope} {db db' : Database} (h : db.Beside v db')
    (hsees : w.sees = v.sees) : db.Beside w db' :=
  { h with alike := hsees ▸ h.alike }

theorem Standing.Beside.relate {w : Scope} {x y : Standing} (h : x.Beside v y)
    (hsees : w.sees = v.sees) : x.Beside w y := by
  cases h with
  | outside => exact .outside
  | inside h => exact .inside (h.relate hsees)
  | bereft => exact .bereft

/-- Two sessions that go through the same: nothing will break them off, and they have the same
passwords and clocks. -/
structure Session.Paired (v : Scope) (s s' : Session) : Prop where
  fuse : s.fuse = none ∧ s'.fuse = none
  breaks : s.breaks = none ∧ s'.breaks = none
  standing : s.standing.Beside v s'.standing
  scheme : s'.scheme = s.scheme
  salts : s'.salts = s.salts
  now : s'.now = s.now

/-- Two sessions that go through the same, with their databases side by side. -/
structure Session.Beside (v : Scope) (s s' : Session) : Prop extends Paired v s s',
    Database.Beside v s.database s'.database where
  timely : v.timely → ∃ m : Moment, s.now = m.toText

/-- A session after another one: within the same transaction, if any, and without new breaches. -/
structure Session.Follows (v : Scope) (s t : Session) : Prop where
  standing : t.standing = s.standing
  breaches : v.strict → t.breaches = s.breaches

/-- A session after something that has failed in another one, which may have made the engine undo
the transaction. -/
structure Session.Fallen (v : Scope) (s t : Session) : Prop where
  standing : t.standing = s.standing ∨ s.inBlock = true ∧ t.standing = .bereft
  breaches : v.strict → t.breaches = s.breaches

/-- A session after another one, with the same database. -/
structure Session.Still (s t : Session) : Prop where
  database : t.database = s.database
  standing : t.standing = s.standing
  breaches : t.breaches = s.breaches

namespace Session

/-- A block can be committed as long as its transaction is there. -/
theorem closes_of_standing (h : t.standing = s.start.standing) (hb : t.breaks = none) : t.Closes :=
  ⟨by rw [isOpen, h]; rfl, hb⟩

theorem Follows.refl (s : Session) : s.Follows v s := ⟨rfl, fun _ => rfl⟩

theorem Follows.trans {u : Session} (h : s.Follows v t) (h' : t.Follows v u) : s.Follows v u :=
  ⟨h'.standing.trans h.standing, fun hv => (h'.breaches hv).trans (h.breaches hv)⟩

theorem Follows.inBlock (h : s.Follows v t) (hin : s.inBlock = true) : t.inBlock = true :=
  (inBlock_congr h.standing).trans hin

theorem Follows.fallen (h : s.Follows v t) : s.Fallen v t := ⟨.inl h.standing, h.breaches⟩

theorem Follows.trans_fallen {u : Session} (h : s.Follows v t) (h' : t.Fallen v u) :
    s.Fallen v u where
  standing := by
    rw [← h.standing, ← inBlock_congr h.standing]
    exact h'.standing
  breaches hv := (h'.breaches hv).trans (h.breaches hv)

theorem Fallen.inBlock (h : s.Fallen v t) (hin : s.inBlock = true) : t.inBlock = true := by
  rcases h.standing with hs | ⟨-, hs⟩
  · exact (inBlock_congr hs).trans hin
  · rw [Session.inBlock, hs]

/-- Outside of blocks there is no transaction to be undone. -/
theorem Fallen.follows (h : s.Fallen v t) (ho : s.inBlock = false) : s.Follows v t := by
  refine ⟨h.standing.resolve_right ?_, h.breaches⟩
  rintro ⟨hin, -⟩
  rw [ho] at hin
  cases hin

theorem Follows.commit (h : s.start.Follows v t) (ho : s.inBlock = false) : s.Follows v t.commit :=
  ⟨(inBlock_eq_false.1 ho).symm, h.breaches⟩

theorem Fallen.rollBack (h : s.start.Fallen v t) (ho : s.inBlock = false) :
    s.Fallen v t.rollBack where
  standing := by
    rw [standing_rollBack]
    exact .inl (inBlock_eq_false.1 ho).symm
  breaches hv := (breaches_rollBack t).trans (h.breaches hv)

/-- If the operation of a block has left the database alone, its end does as well. -/
theorem Fallen.database_rollBack (h : s.start.Fallen v t) (hd : t.database = s.database) :
    t.rollBack.database = s.database := by
  rcases h.standing with ht | ⟨-, ht⟩
  · rw [Session.rollBack, ht]
    rfl
  · rw [Session.rollBack, ht]
    exact hd

theorem Still.refl (s : Session) : s.Still s := ⟨rfl, rfl, rfl⟩

theorem Still.trans {u : Session} (h : s.Still t) (h' : t.Still u) : s.Still u :=
  ⟨h'.database.trans h.database, h'.standing.trans h.standing, h'.breaches.trans h.breaches⟩

theorem Still.follows (h : s.Still t) : s.Follows v t := ⟨h.standing, fun _ => h.breaches⟩

theorem Still.commit (h : s.start.Still t) (ho : s.inBlock = false) : s.Still t.commit :=
  ⟨h.database, (inBlock_eq_false.1 ho).symm, h.breaches⟩

theorem Still.rollBack (h : s.start.Still t) (ho : s.inBlock = false) : s.Still t.rollBack where
  database := by
    rw [Session.rollBack, h.standing]
    rfl
  standing := by rw [standing_rollBack, inBlock_eq_false.1 ho]
  breaches := (breaches_rollBack t).trans h.breaches

theorem Still.inBlock (h : s.Still t) (hin : s.inBlock = true) : t.inBlock = true :=
  (inBlock_congr h.standing).trans hin

/-- Where two sessions that go through the same may be. -/
theorem Paired.places (h : s.Paired v s') :
    (s.standing = .outside ∧ s'.standing = .outside) ∨
      (∃ before before', s.standing = .inside before ∧ s'.standing = .inside before' ∧
        before.Beside v before') ∨
      s.standing = .bereft ∧ s'.standing = .bereft := by
  have hstanding := h.standing
  generalize s.standing = x, s'.standing = y at hstanding
  cases hstanding with
  | outside => exact .inl ⟨rfl, rfl⟩
  | inside hb => exact .inr (.inl ⟨_, _, rfl, rfl, hb⟩)
  | bereft => exact .inr (.inr ⟨rfl, rfl⟩)

theorem Paired.inBlock (h : s.Paired v s') : s'.inBlock = s.inBlock := by
  obtain ⟨hs, hs'⟩ | ⟨_, _, hs, hs', -⟩ | ⟨hs, hs'⟩ := h.places <;>
    rw [Session.inBlock, Session.inBlock, hs, hs']

/-- Sessions stay side by side as long as their databases stay the same. -/
theorem Beside.of_database_eq (h : s.Beside v s') (hd : t.database = s.database)
    (hd' : t'.database = s'.database) (hp : t.Paired v t')
    (hnow : v.timely → ∃ m : Moment, t.now = m.toText) : t.Beside v t' where
  toPaired := hp
  toBeside := by rw [hd, hd']; exact h.toBeside
  timely := hnow

theorem Beside.ready (h : s.Beside v s') (hin : s.inBlock = true) : s.Ready :=
  ⟨hin, h.layout.1, h.fuse.1, h.breaks.1⟩

theorem Beside.ready' (h : s.Beside v s') (hin : s.inBlock = true) : s'.Ready :=
  ⟨h.inBlock.trans hin, h.layout.2, h.fuse.2, h.breaks.2⟩

/-- Sessions side by side begin transactions side by side. -/
theorem Beside.start (h : s.Beside v s') : s.start.Beside v s'.start :=
  { h with
    breaks := ⟨hindrance_of_breaks h.breaks.1, hindrance_of_breaks h.breaks.2⟩
    standing := .inside h.toBeside }

/-- Sessions side by side commit their transactions side by side. -/
theorem Beside.commit (h : s.Beside v s') : s.commit.Beside v s'.commit :=
  { h with
    breaks := ⟨hindrance_of_breaks h.breaks.1, hindrance_of_breaks h.breaks.2⟩
    standing := .outside }

theorem Paired.rollBack (h : s.Paired v s') : s.rollBack.Paired v s'.rollBack := by
  obtain ⟨hs, hs'⟩ | ⟨_, _, hs, hs', -⟩ | ⟨hs, hs'⟩ := h.places <;>
    simp only [Session.rollBack, hs, hs'] <;> exact { h with standing := .outside }

/-- Whatever has been done in a block, it can be undone. -/
theorem Beside.rollBack (h : s.Beside v s') : s.rollBack.Beside v s'.rollBack := by
  obtain ⟨hs, hs'⟩ | ⟨_, _, hs, hs', hb⟩ | ⟨hs, hs'⟩ := h.places <;>
    simp only [Session.rollBack, hs, hs']
  · exact { h with standing := .outside }
  · exact { h.toPaired, hb with standing := .outside, timely := h.timely }
  · exact { h with standing := .outside }

theorem Beside.abandon (h : s.Beside v s') : s.abandon.Beside v s'.abandon := by
  obtain ⟨hs, hs'⟩ | ⟨_, _, hs, hs', hb⟩ | ⟨hs, hs'⟩ := h.places <;>
    simp only [Session.abandon, hs, hs']
  · exact h
  · exact { h.toPaired, hb with standing := .bereft, timely := h.timely }
  · exact h

theorem fallen_abandon (hin : s.inBlock = true) : s.Fallen v s.abandon := by
  refine ⟨?_, fun _ => breaches_abandon s⟩
  cases hs : s.standing with
  | outside => exact .inl (by simp [Session.abandon, hs])
  | inside before => exact .inr ⟨hin, by simp [Session.abandon, hs]⟩
  | bereft => exact .inl (by simp [Session.abandon, hs])

/-- What may fail late does not matter to whether sessions are side by side. -/
theorem Beside.relate {w : Scope} (h : s.Beside v s') (hsees : w.sees = v.sees)
    (htimely : w.timely → v.timely) : s.Beside w s' :=
  { h with
    toBeside := h.toBeside.relate hsees
    standing := h.standing.relate hsees
    timely := fun hw => h.timely (htimely hw) }

/-- What the two databases have in common of one table. -/
theorem Beside.table {ρ α : Type} [Persistent ρ α] [Held ρ] [Parted ρ] (h : s.Beside v s') :
    Table.Alike (fun r : Row ρ => v.sees (Held.holder r)) (Relation.table s.database.ledger)
      (Relation.table s'.database.ledger) :=
  Parted.each h.alike

end Session

/-! ## Operations side by side -/

/-- Two runs of an operation agree. They succeed with the same answer, and then they have changed
the rows of users in view only, and in the same way; or they fail in the same way. An operation that
is sure fails late if it fails at all; any other one may also fail as long as nothing is written. -/
inductive Agrees (v : Scope) (sure : Bool) {α : Type} (op : Op α) (s s' : Session) : Prop
  | ok {a : α} {t t' : Session} (run : op.exec s = (.ok a, t)) (run' : op.exec s' = (.ok a, t'))
      (beside : t.Beside v t') (follows : s.Follows v t) (follows' : s'.Follows v t')
      (same : Ledger.Same (fun n => !v.sees n) s.database.ledger t.database.ledger)
  | error {e : Failure} {t t' : Session} (run : op.exec s = (.error e, t))
      (run' : op.exec s' = (.error e, t')) (paired : t.Paired v t') (fallen : s.Fallen v t)
      (fallen' : s'.Fallen v t')
      (kept : v.timely → t.Beside v t' ∧ (v.late e ∨
        sure = false ∧ t.database = s.database ∧ t'.database = s'.database))

/-- Two runs of an operation that only looks give the same. -/
inductive Consults (v : Scope) {α : Type} (op : Op α) (s s' : Session) : Prop
  | intro {r : Except Failure α} {t t' : Session} (run : op.exec s = (r, t))
      (run' : op.exec s' = (r, t')) (beside : t.Beside v t') (still : s.Still t)
      (still' : s'.Still t')

section

variable {α β : Type} {sure : Bool}

/-! ### Operations that write nothing -/

theorem consults_of_eq {op : Op α} {r : Except Failure α} (h : s.Beside v s')
    (run : op.exec s = (r, s)) (run' : op.exec s' = (r, s')) : Consults v op s s' :=
  .intro run run' h (.refl s) (.refl s')

theorem consults_lift (h : s.Beside v s') (r : Except Failure α) : Consults v (lift r) s s' :=
  consults_of_eq h rfl rfl

theorem consults_pure (h : s.Beside v s') (a : α) : Consults v (pure a) s s' :=
  consults_of_eq h rfl rfl

theorem consults_fail (h : s.Beside v s') (e : Failure) : Consults v (fail e : Op α) s s' :=
  consults_of_eq h rfl rfl

theorem consults_emit (h : s.Beside v s') (level : Log.Level) (part : Log.Part) (event : String)
    (fields : List (String × Value)) : Consults v (emit level part event fields) s s' :=
  .intro (exec_emit level part event fields s) (exec_emit level part event fields s')
    (h.of_database_eq rfl rfl { h.toPaired with } h.timely)
    ⟨rfl, rfl, rfl⟩ ⟨rfl, rfl, rfl⟩

theorem consults_hashed (h : s.Beside v s') (password : String) :
    Consults v (hashed password) s s' := by
  have hrun' : (hashed password).exec s'
      = (.ok (s.scheme.hash s.salts password), { s' with salts := s'.salts + 1 }) := by
    rw [exec_hashed, h.scheme, h.salts]
  have hsalts : s'.salts + 1 = s.salts + 1 := congrArg (· + 1) h.salts
  have hp : Session.Paired v { s with salts := s.salts + 1 } { s' with salts := s'.salts + 1 } :=
    { h.toPaired with salts := hsalts }
  exact .intro (exec_hashed password s) hrun' (h.of_database_eq rfl rfl hp h.timely)
    ⟨rfl, rfl, rfl⟩ ⟨rfl, rfl, rfl⟩

/-- What is done with a session may depend on it in so far as both sessions agree. -/
theorem consults_get {f : Session → Op α} (hf : Consults v (f s) s s')
    (heq : (f s').exec s' = (f s).exec s') : Consults v (get >>= f) s s' := by
  obtain ⟨run, run', beside, still, still'⟩ := hf
  exact .intro (by rw [exec_bind, exec_get]; exact run)
    (by rw [exec_bind, exec_get]; exact heq.trans run') beside still still'

theorem Consults.bind {x : Op α} {f : α → Op β} (hx : Consults v x s s')
    (hf : ∀ a t t', x.exec s = (.ok a, t) → x.exec s' = (.ok a, t') → t.Beside v t' → s.Still t →
      s'.Still t' → Consults v (f a) t t') : Consults v (x >>= f) s s' := by
  obtain ⟨run, run', beside, still, still'⟩ := hx
  rename_i r t t'
  cases r with
  | error e =>
    exact .intro (exec_bind_error run) (exec_bind_error run') beside still still'
  | ok a =>
    obtain ⟨hrun, hrun', hbeside, hstill, hstill'⟩ := hf a t t' run run' beside still still'
    exact .intro ((exec_bind_ok run).trans hrun) ((exec_bind_ok run').trans hrun') hbeside
      (still.trans hstill) (still'.trans hstill')

theorem Consults.map {x : Op α} (f : α → β) (hx : Consults v x s s') : Consults v (f <$> x) s s' := by
  rw [map_eq_pure_bind]
  exact hx.bind fun a t t' _ _ h _ _ => consults_pure h (f a)

theorem Consults.ite {c : Prop} [Decidable c] {x y : Op α} (hx : Consults v x s s')
    (hy : Consults v y s s') : Consults v (if c then x else y) s s' := by
  split
  · exact hx
  · exact hy

/-- What comes after one of two ways to find something out. -/
theorem Consults.either {c : Prop} [Decidable c] {x y : Op α} {k : α → Op β}
    (hx : Consults v x s s') (hy : Consults v y s s')
    (hk : ∀ a t t', t.Beside v t' → Consults v (k a) t t') :
    Consults v (if c then do let a ← x; k a else do let a ← y; k a) s s' :=
  .ite (hx.bind fun a t t' _ _ ht _ _ => hk a t t' ht)
    (hy.bind fun a t t' _ _ ht _ _ => hk a t t' ht)

/-- Both runs start and end a transaction of their own where there is none yet. -/
theorem Consults.outermost {body : Op α} (hb : Consults v (transaction body) s.start s'.start)
    (h : s.Beside v s') (ho : s.inBlock = false) : Consults v (transaction body) s s' := by
  have ho' : s'.inBlock = false := h.inBlock.trans ho
  obtain ⟨run, run', beside, still, still'⟩ := hb
  rename_i r t t'
  rw [exec_transaction_inside body (s := s.start) rfl] at run
  rw [exec_transaction_inside body (s := s'.start) rfl] at run'
  cases r with
  | ok a =>
    exact .intro
      (exec_transaction_ok ho h.breaks.1 run (closes_of_standing still.standing beside.breaks.1))
      (exec_transaction_ok ho' h.breaks.2 run' (closes_of_standing still'.standing beside.breaks.2))
      beside.commit (still.commit ho) (still'.commit ho')
  | error e =>
    exact .intro (exec_transaction_error ho h.breaks.1 run)
      (exec_transaction_error ho' h.breaks.2 run') beside.rollBack (still.rollBack ho)
      (still'.rollBack ho')

/-! ### Operations in general -/

theorem Consults.agrees {op : Op α} (h : Consults v op s s') : Agrees v false op s s' := by
  obtain ⟨run, run', beside, still, still'⟩ := h
  rename_i r t t'
  cases r with
  | ok a =>
    exact .ok run run' beside still.follows still'.follows (by rw [still.database]; exact .refl _ _)
  | error e =>
    exact .error run run' beside.toPaired still.follows.fallen still'.follows.fallen
      fun _ => ⟨beside, .inr ⟨rfl, still.database, still'.database⟩⟩

/-- Operations that do the same on both sessions agree alike. -/
theorem Agrees.of_exec_eq {op op' : Op α} (h : Agrees v sure op s s')
    (heq : op'.exec s = op.exec s) (heq' : op'.exec s' = op.exec s') : Agrees v sure op' s s' := by
  cases h with
  | ok run run' beside follows follows' same =>
    exact .ok (heq.trans run) (heq'.trans run') beside follows follows' same
  | error run run' paired fallen fallen' kept =>
    exact .error (heq.trans run) (heq'.trans run') paired fallen fallen' kept

/-- An operation after one that has succeeded without writing anything. -/
theorem Agrees.after {x : Op α} {f : α → Op β} {a : α} (run : x.exec s = (.ok a, t))
    (run' : x.exec s' = (.ok a, t')) (still : s.Still t) (still' : s'.Still t')
    (hf : Agrees v sure (f a) t t') : Agrees v sure (x >>= f) s s' := by
  have hsame : Ledger.Same (fun n => !v.sees n) s.database.ledger t.database.ledger := by
    rw [still.database]
    exact .refl _ _
  cases hf with
  | ok hrun hrun' hbeside follows follows' same =>
    exact .ok ((exec_bind_ok run).trans hrun) ((exec_bind_ok run').trans hrun') hbeside
      (still.follows.trans follows) (still'.follows.trans follows') (hsame.trans same)
  | error hrun hrun' paired fallen fallen' kept =>
    refine .error ((exec_bind_ok run).trans hrun) ((exec_bind_ok run').trans hrun') paired
      (still.follows.trans_fallen fallen) (still'.follows.trans_fallen fallen') fun hv => ?_
    rw [← still.database, ← still'.database]
    exact kept hv

/-- An operation after one that writes nothing. -/
theorem Consults.before {x : Op α} {f : α → Op β} (hx : Consults v x s s')
    (hf : ∀ a t t', x.exec s = (.ok a, t) → x.exec s' = (.ok a, t') → t.Beside v t' → s.Still t →
      s'.Still t' → Agrees v false (f a) t t') : Agrees v false (x >>= f) s s' := by
  obtain ⟨run, run', beside, still, still'⟩ := hx
  rename_i r t t'
  cases r with
  | error e =>
    exact .error (exec_bind_error run) (exec_bind_error run') beside.toPaired still.follows.fallen
      still'.follows.fallen fun _ => ⟨beside, .inr ⟨rfl, still.database, still'.database⟩⟩
  | ok a => exact .after run run' still still' (hf a t t' run run' beside still still')

/-- An operation after a check. -/
theorem agrees_lift {x : Except Failure β} {k : β → Op α} (h : s.Beside v s')
    (hk : ∀ b, x = .ok b → Agrees v false (k b) s s') : Agrees v false (lift x >>= k) s s' := by
  cases x with
  | error e => exact (consults_of_eq h rfl rfl).agrees
  | ok b => exact hk b rfl

/-- An operation with a given value or a checked one. -/
theorem agrees_given {c : Bool} {b : β} {x : Except Failure β} {k : β → Op α} (h : s.Beside v s')
    (hk : ∀ b, Agrees v false (k b) s s') :
    Agrees v false (if c = true then do let b ← pure b; k b else do let b ← lift x; k b) s s' := by
  cases c with
  | false => exact agrees_lift h fun b _ => hk b
  | true => exact hk b

/-- An operation after a check of a value that may be missing. -/
theorem agrees_optionally {c : Bool} {x : Except Failure β} {k : Option β → Op α}
    (h : s.Beside v s')
    (hk : ∀ b, (∀ y ∈ b, x = .ok y) → Agrees v false (k b) s s') :
    Agrees v false
      (if c = true then do let b ← pure none; k b else do let b ← some <$> lift x; k b) s s' := by
  split
  · exact hk none (by simp)
  · cases x with
    | error e => exact (consults_of_eq h rfl rfl).agrees
    | ok y => exact hk (some y) (by simp)

/-- An operation after one that may be left out, and either way has made sure of something. -/
theorem agrees_whether {c : Bool} {x : Op β} {y : Op α} {P : Prop} (hskip : c = false → P)
    (hdo : c = true → ∀ k : Op α, (P → Agrees v sure k s s') →
      Agrees v sure (do let _ ← x; k) s s')
    (hy : P → Agrees v sure y s s') :
    Agrees v sure (if c = true then do let _ ← x; y else y) s s' := by
  cases c with
  | false => exact hy (hskip rfl)
  | true => exact hdo rfl y hy

/-- An operation after one that has found something out. -/
theorem agrees_next {x : Op α} {f : α → Op β} {a : α} (run : x.exec s = (.ok a, s))
    (run' : x.exec s' = (.ok a, s')) (hf : Agrees v sure (f a) s s') :
    Agrees v sure (x >>= f) s s' :=
  .after run run' (.refl s) (.refl s') hf

theorem agrees_of_eq {op : Op α} {a : α} (h : s.Beside v s') (run : op.exec s = (.ok a, s))
    (run' : op.exec s' = (.ok a, s')) : Agrees v sure op s s' :=
  .ok run run' h (.refl s) (.refl s') (.refl _ _)

theorem agrees_pure (h : s.Beside v s') (a : α) : Agrees v sure (pure a) s s' :=
  agrees_of_eq h rfl rfl

/-- An operation after an event was logged. -/
theorem agrees_emit {level : Log.Level} {part : Log.Part} {event : String}
    {fields : List (String × Value)} {f : Unit → Op α} (h : s.Beside v s')
    (hf : ∀ t t', t.Beside v t' → s.Still t → s'.Still t' → Agrees v sure (f ()) t t') :
    Agrees v sure (emit level part event fields >>= f) s s' := by
  obtain ⟨run, run', beside, still, still'⟩ := consults_emit h level part event fields
  rw [exec_emit, Prod.mk.injEq] at run run'
  obtain ⟨rfl, rfl⟩ := run
  obtain ⟨-, rfl⟩ := run'
  exact .after rfl rfl still still' (hf _ _ beside still still')

theorem agrees_event {level : Log.Level} {part : Log.Part} {event : String}
    {fields : List (String × Value)} (h : s.Beside v s') :
    Agrees v sure (emit level part event fields) s s' := by
  rw [← bind_pure (emit level part event fields)]
  exact agrees_emit h fun _ _ ht _ _ => agrees_pure ht ()

/-- An operation that is logged as done. -/
theorem agrees_announced {level : Log.Level} {part : Log.Part} {event : String}
    {fields : List (String × Value)} (h : s.Beside v s') (a : α) :
    Agrees v sure (do emit level part event fields; pure a) s s' :=
  agrees_emit h fun _ _ ht _ _ => agrees_pure ht a

theorem Agrees.bind {x : Op α} {f : α → Op β} (hx : Agrees v sure x s s')
    (hf : ∀ a t t', x.exec s = (.ok a, t) → x.exec s' = (.ok a, t') → t.Beside v t' →
      Agrees v true (f a) t t') : Agrees v sure (x >>= f) s s' := by
  cases hx with
  | error run run' paired fallen fallen' kept =>
    exact .error (exec_bind_error run) (exec_bind_error run') paired fallen fallen' kept
  | ok run run' beside follows follows' same =>
    cases hf _ _ _ run run' beside with
    | ok hrun hrun' hbeside hfollows hfollows' hsame =>
      exact .ok ((exec_bind_ok run).trans hrun) ((exec_bind_ok run').trans hrun') hbeside
        (follows.trans hfollows) (follows'.trans hfollows') (same.trans hsame)
    | error hrun hrun' paired fallen fallen' kept =>
      refine .error ((exec_bind_ok run).trans hrun) ((exec_bind_ok run').trans hrun') paired
        (follows.trans_fallen fallen) (follows'.trans_fallen fallen') fun hv => ?_
      -- the first operation may have written, so the second one must fail late
      obtain ⟨hbeside, hlate | ⟨hsure, -⟩⟩ := kept hv
      · exact ⟨hbeside, .inl hlate⟩
      · cases hsure

/-- What fails late at most may come in any place. -/
theorem Agrees.late {op : Op α} (h : Agrees v true op s s') : Agrees v sure op s s' := by
  cases h with
  | ok run run' beside follows follows' same => exact .ok run run' beside follows follows' same
  | error run run' paired fallen fallen' kept =>
    refine .error run run' paired fallen fallen' fun hv => ?_
    obtain ⟨hbeside, hlate | ⟨hsure, -⟩⟩ := kept hv
    · exact ⟨hbeside, .inl hlate⟩
    · cases hsure

theorem Agrees.map {x : Op α} (f : α → β) (hx : Agrees v sure x s s') :
    Agrees v sure (f <$> x) s s' := by
  rw [map_eq_pure_bind]
  exact hx.bind fun a t t' _ _ h => agrees_pure h (f a)

theorem exec_logged_rejected {operation : String} {op : Op α} {r : Rejection}
    (h : op.exec s = (.error (.rejected r), t)) :
    (Service.logged operation op).exec s = (.error (.rejected r), { t with log := t.log ++
      [⟨.warning, Log.Part.operations.logger, "Operation rejected",
        Service.rejectionFields operation r⟩] }) := by
  rw [Service.exec_logged, h]

/-- Whether the rejection of an operation is logged makes no difference. -/
theorem Agrees.logged {operation : String} {op : Op α} (h : Agrees v sure op s s') :
    Agrees v sure (Service.logged operation op) s s' := by
  cases h with
  | ok run run' beside follows follows' same =>
    exact .ok (by rw [Service.exec_logged, run]) (by rw [Service.exec_logged, run']) beside follows
      follows' same
  | @error e t t' run run' paired fallen fallen' kept =>
    cases e with
    | rejected r =>
      refine .error (exec_logged_rejected run) (exec_logged_rejected run')
        { paired with } { fallen with } { fallen' with } fun hv => ?_
      obtain ⟨hbeside, hkept⟩ := kept hv
      exact ⟨hbeside.of_database_eq rfl rfl { paired with } hbeside.timely, hkept⟩
    | _ =>
      exact .error (by rw [Service.exec_logged, run]) (by rw [Service.exec_logged, run']) paired
        fallen fallen' kept

/-- Transactions agree if their bodies do. -/
theorem agrees_transaction {body : Op α} (h : s.Beside v s')
    (hb : ∀ u u', u.Beside v u' → u.inBlock = true → u.database = s.database →
      u'.database = s'.database → Agrees v sure body u u') :
    Agrees v sure (transaction body) s s' := by
  cases hin : s.inBlock with
  | true =>
    exact (hb s s' h hin rfl rfl).of_exec_eq (exec_transaction_inside body hin)
      (exec_transaction_inside body (h.inBlock.trans hin))
  | false =>
    have hin' : s'.inBlock = false := h.inBlock.trans hin
    cases hb s.start s'.start h.start rfl rfl rfl with
    | ok run run' beside follows follows' same =>
      have hu := closes_of_standing follows.standing beside.breaks.1
      have hu' := closes_of_standing follows'.standing beside.breaks.2
      exact .ok (exec_transaction_ok hin h.breaks.1 run hu)
        (exec_transaction_ok hin' h.breaks.2 run' hu') beside.commit
        (follows.commit hin) (follows'.commit hin') same
    | @error e t t' run run' paired fallen fallen' kept =>
      refine .error (exec_transaction_error hin h.breaks.1 run)
        (exec_transaction_error hin' h.breaks.2 run') paired.rollBack (fallen.rollBack hin)
        (fallen'.rollBack hin') fun hv => ?_
      obtain ⟨beside, hkept⟩ := kept hv
      exact ⟨beside.rollBack, hkept.imp id fun hstay =>
        ⟨hstay.1, fallen.database_rollBack hstay.2.1, fallen'.database_rollBack hstay.2.2⟩⟩

end

/-! ### Operations that write -/

/-- Two runs within transactions write in the same way. -/
structure Writes (v : Scope) {α : Type} (op : Op α) (a : α) (s s' : Session) (l l' : Ledger) :
    Prop where
  run : op.exec s = (.ok a, s.put l)
  run' : op.exec s' = (.ok a, s'.put l')
  intact : Intact l
  intact' : Intact l'
  alike : Ledger.Alike v.sees l l'
  same : Ledger.Same (fun n => !v.sees n) s.database.ledger l

section

variable {α β : Type} {sure : Bool} {op : Op α} {a : α} {l l' : Ledger}

theorem Writes.beside (w : Writes v op a s s' l l') (h : s.Beside v s') :
    (s.put l).Beside v (s'.put l') where
  toPaired := { h.toPaired with }
  layout := h.layout
  intact := w.intact
  intact' := w.intact'
  alike := w.alike
  timely := h.timely

theorem Writes.agrees (w : Writes v op a s s' l l') (h : s.Beside v s') : Agrees v sure op s s' :=
  .ok w.run w.run' (w.beside h) ⟨rfl, fun _ => rfl⟩ ⟨rfl, fun _ => rfl⟩ w.same

/-- What comes after something was written fails late if at all. -/
theorem Writes.before {f : α → Op β} (w : Writes v op a s s' l l') (h : s.Beside v s')
    (hf : (s.put l).Beside v (s'.put l') → Agrees v true (f a) (s.put l) (s'.put l')) :
    Agrees v sure (op >>= f) s s' := by
  refine (w.agrees h).bind fun b t t' run run' ht => ?_
  rw [w.run, Prod.mk.injEq, Except.ok.injEq] at run
  rw [w.run', Prod.mk.injEq] at run'
  obtain ⟨rfl, rfl⟩ := run
  obtain ⟨-, rfl⟩ := run'
  exact hf ht

end

end Bookkeeping.Store
