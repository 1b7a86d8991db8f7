import Bookkeeping.Service.Call

/-! # How operations run

The equations of running an operation: what each way of building operations does to a session, and
what can be said of its parts when a composed operation succeeds. Later modules look at operations
through these equations only.
-/

namespace Bookkeeping.Store

variable {α β : Type}

namespace Op

@[simp] theorem exec_pure (a : α) (s : Session) : (pure a : Op α).exec s = (.ok a, s) := rfl

@[simp] theorem exec_lift (r : Except Failure α) (s : Session) : (lift r).exec s = (r, s) := rfl

@[simp] theorem exec_fail (e : Failure) (s : Session) :
    (fail e : Op α).exec s = (.error e, s) := rfl

@[simp] theorem exec_reject (r : Rejection) (s : Session) :
    (reject r : Op α).exec s = (.error (.rejected r), s) := rfl

@[simp] theorem exec_of (f : Session → Except Failure α × Session) (s : Session) :
    (of f).exec s = f s := rfl

@[simp] theorem exec_get (s : Session) : (get : Op Session).exec s = (.ok s, s) := rfl

@[simp] theorem exec_throw (e : Failure) (s : Session) :
    (throw e : Op α).exec s = (.error e, s) := rfl

theorem exec_bind (x : Op α) (f : α → Op β) (s : Session) :
    (x >>= f).exec s = match x.exec s with
      | (.ok a, t) => (f a).exec t
      | (.error e, t) => (.error e, t) := by
  show (ExceptT.run (x >>= f)).run s = _
  simp only [ExceptT.run_bind, StateT.run_bind]
  unfold exec
  cases h : x.run.run s with
  | mk r t => cases r <;> rfl

theorem exec_bind_ok {x : Op α} {f : α → Op β} {s t : Session} {a : α}
    (h : x.exec s = (.ok a, t)) : (x >>= f).exec s = (f a).exec t := by
  rw [exec_bind, h]

theorem exec_bind_error {x : Op α} {f : α → Op β} {s t : Session} {e : Failure}
    (h : x.exec s = (.error e, t)) : (x >>= f).exec s = (.error e, t) := by
  rw [exec_bind, h]

theorem exec_map (f : α → β) (x : Op α) (s : Session) :
    (f <$> x).exec s = match x.exec s with
      | (.ok a, t) => (.ok (f a), t)
      | (.error e, t) => (.error e, t) := by
  rw [map_eq_pure_bind, exec_bind]
  rfl

theorem exec_tryCatch (x : Op α) (f : Failure → Op α) (s : Session) :
    (tryCatch x f).exec s = match x.exec s with
      | (.ok a, t) => (.ok a, t)
      | (.error e, t) => (f e).exec t := by
  show (ExceptT.run (tryCatch x f)).run s = _
  rw [ExceptT.run_tryCatch]
  simp only [StateT.run_bind]
  unfold exec
  cases h : x.run.run s with
  | mk r t => cases r <;> rfl

/-! ## Success of composed operations -/

theorem bind_ok {x : Op α} {f : α → Op β} {s t : Session} {b : β}
    (h : (x >>= f).exec s = (.ok b, t)) :
    ∃ a u, x.exec s = (.ok a, u) ∧ (f a).exec u = (.ok b, t) := by
  rw [exec_bind] at h
  cases hx : x.exec s with
  | mk r u =>
    cases r with
    | ok a => exact ⟨a, u, rfl, by simpa [hx] using h⟩
    | error e => simp [hx] at h

theorem bind_ok_iff {x : Op α} {f : α → Op β} {s t : Session} {b : β} :
    (x >>= f).exec s = (.ok b, t) ↔
      ∃ a u, x.exec s = (.ok a, u) ∧ (f a).exec u = (.ok b, t) := by
  refine ⟨bind_ok, fun ⟨a, u, hx, hf⟩ => ?_⟩
  rw [exec_bind, hx]
  exact hf

theorem map_ok {f : α → β} {x : Op α} {s t : Session} {b : β}
    (h : (f <$> x).exec s = (.ok b, t)) : ∃ a, x.exec s = (.ok a, t) ∧ b = f a := by
  rw [map_eq_pure_bind] at h
  obtain ⟨a, u, hx, hp⟩ := bind_ok h
  cases hp
  exact ⟨a, hx, rfl⟩

theorem lift_ok {r : Except Failure α} {s t : Session} {a : α}
    (h : (lift r).exec s = (.ok a, t)) : r = .ok a ∧ t = s := by
  cases h
  exact ⟨rfl, rfl⟩

theorem lift_bind_ok {r : Except Failure α} {f : α → Op β} {s t : Session} {b : β}
    (h : (lift r >>= f).exec s = (.ok b, t)) : ∃ a, r = .ok a ∧ (f a).exec s = (.ok b, t) := by
  obtain ⟨a, u, hr, hf⟩ := bind_ok h
  obtain ⟨ha, rfl⟩ := lift_ok hr
  exact ⟨a, ha, hf⟩

theorem pure_ok {a b : α} {s t : Session} (h : (pure a : Op α).exec s = (.ok b, t)) :
    b = a ∧ t = s := by
  cases h
  exact ⟨rfl, rfl⟩

/-- A value that may be missing is checked only if it is there. -/
theorem optionally_ok {γ : Type} {c : Bool} {x : Except Failure β} {k : Option β → Op γ}
    {s t : Session} {a : γ}
    (h : (if c = true then do let b ← pure none; k b
      else do let b ← some <$> lift x; k b).exec s = (.ok a, t)) :
    ∃ b, (∀ v ∈ b, x = .ok v) ∧ (k b).exec s = (.ok a, t) := by
  split at h
  · obtain ⟨b, u, hb, hk⟩ := bind_ok h
    obtain ⟨rfl, rfl⟩ := pure_ok hb
    exact ⟨none, by simp, hk⟩
  · obtain ⟨b, u, hb, hk⟩ := bind_ok h
    obtain ⟨v, hv, rfl⟩ := map_ok hb
    obtain ⟨rfl, rfl⟩ := lift_ok hv
    exact ⟨some v, by simp, hk⟩

/-- What is done under a condition only. -/
theorem whether_ok {γ : Type} {c : Bool} {x : Op β} {y : Op γ} {s t : Session} {a : γ}
    (h : (if c = true then do let _ ← x; y else y).exec s = (.ok a, t)) :
    ∃ u, (c = false → u = s) ∧ (c = true → ∃ b, x.exec s = (.ok b, u)) ∧
      y.exec u = (.ok a, t) := by
  cases c with
  | false => exact ⟨s, fun _ => rfl, fun hc => (by cases hc), h⟩
  | true =>
    obtain ⟨b, u, hx, hk⟩ := bind_ok h
    exact ⟨u, fun hc => (by cases hc), fun _ => ⟨b, hx⟩, hk⟩

theorem exec_whether {γ : Type} {c : Bool} {x : Op β} (y : Op γ) {s : Session}
    (hx : c = true → ∃ b, x.exec s = (.ok b, s)) :
    (if c = true then do let _ ← x; y else y).exec s = y.exec s := by
  cases c with
  | false => rfl
  | true =>
    obtain ⟨b, hb⟩ := hx rfl
    rw [if_pos rfl, exec_bind, hb]

/-- What is done in one of two ways. -/
theorem either_ok {γ : Type} {c : Bool} {x y : Op β} {k : β → Op γ} {s t : Session} {a : γ}
    (h : (if c = true then do let b ← x; k b else do let b ← y; k b).exec s = (.ok a, t)) :
    ∃ b u, (if c = true then x else y).exec s = (.ok b, u) ∧ (k b).exec u = (.ok a, t) := by
  cases c with
  | false => exact bind_ok h
  | true => exact bind_ok h

theorem exec_either {γ : Type} {c : Bool} {x y : Op β} {k : β → Op γ} {s u : Session} {b : β}
    (h : (if c = true then x else y).exec s = (.ok b, u)) :
    (if c = true then do let b ← x; k b else do let b ← y; k b).exec s = (k b).exec u := by
  cases c with
  | false => rw [if_neg (by simp), exec_bind, show y.exec s = _ from h]
  | true => rw [if_pos rfl, exec_bind, show x.exec s = _ from h]

end Op

/-! ## Where a session is -/

namespace Session

variable {s : Session}

theorem inBlock_eq_false : s.inBlock = false ↔ s.standing = .outside := by
  unfold inBlock
  split <;> simp_all

theorem inTransaction_eq_false :
    s.inTransaction = false ↔ s.inBlock = false ∧ s.isPending = false := by
  simp [inTransaction]

/-- A session that has no transaction open is in no block. -/
theorem not_inBlock (h : s.inTransaction = false) : s.inBlock = false :=
  (inTransaction_eq_false.1 h).1

theorem isOpen_of_outside (h : s.inTransaction = false) : s.isOpen = false := by
  obtain ⟨ho, hp⟩ := inTransaction_eq_false.1 h
  rw [isOpen, inBlock_eq_false.1 ho]
  exact hp

theorem inBlock_of_inside {before : Database} (h : s.standing = .inside before) :
    s.inBlock = true := by
  rw [inBlock, h]

theorem isPending_of_breaks (h : s.breaks = none) : s.isPending = false := by
  rw [isPending, h]

theorem trouble?_of_breaks (h : s.breaks = none) : s.trouble? = none := by
  rw [trouble?, h]

theorem hindrance_of_breaks (h : s.breaks = none) : s.hindrance = none := by
  rw [hindrance, h]

theorem inTransaction_of_breaks (hb : s.breaks = none) (h : s.inBlock = false) :
    s.inTransaction = false :=
  inTransaction_eq_false.2 ⟨h, isPending_of_breaks hb⟩

/-- A session in a block with its transaction, which nothing keeps from being committed. -/
structure Closes (s : Session) : Prop where
  inside : s.isOpen = true
  breaks : s.breaks = none

theorem Closes.standing (h : s.Closes) : ∃ before, s.standing = .inside before := by
  have hopen := h.inside
  rw [isOpen] at hopen
  split at hopen
  · exact ⟨_, ‹_›⟩
  · rw [isPending_of_breaks h.breaks] at hopen
    cases hopen
  · rw [isPending_of_breaks h.breaks] at hopen
    cases hopen

theorem Closes.inBlock (h : s.Closes) : s.inBlock = true :=
  h.standing.elim fun _ hs => inBlock_of_inside hs

theorem closes_start (h : s.breaks = none) : s.start.Closes := ⟨rfl, hindrance_of_breaks h⟩

end Session

/-! ## Blocks -/

theorem exec_openBlock {s : Session} (h : s.breaks = none) :
    openBlock.exec s = (.ok (), s.start) := by
  simp [openBlock, Session.isPending_of_breaks h, Session.trouble?_of_breaks h]

theorem exec_undoing (body : Op α) (s : Session) :
    (undoing body).exec s = match body.exec s with
      | (.ok a, t) => (.ok a, t)
      | (.error e, t) => (.error e, t.rollBack) := rfl

theorem exec_closeBlock {s : Session} (h : s.Closes) : closeBlock.exec s = (.ok (), s.commit) := by
  obtain ⟨before, hs⟩ := h.standing
  simp [closeBlock, hs, Session.trouble?_of_breaks h.breaks]

/-- Inside a block another one is nothing but its body. -/
theorem exec_transaction_inside (body : Op α) {s : Session} (h : s.inBlock = true) :
    (transaction body).exec s = body.exec s := by
  rw [transaction, Op.exec_bind, Op.exec_get]
  simp only [h, if_true]

theorem exec_transaction_outside (body : Op α) {s : Session} (h : s.inBlock = false) :
    (transaction body).exec s = (do
      openBlock
      let a ← undoing body
      closeBlock
      pure a : Op α).exec s := by
  rw [transaction, Op.exec_bind, Op.exec_get]
  simp only [h, Bool.false_eq_true, if_false]

/-- How an outermost block may end: it does not begin, its body fails, or its commit is reached, which
finds no transaction, is put off, fails or succeeds. -/
inductive Ending (body : Op α) (s : Session) : Except Failure α → Session → Prop
  | barred (m : String) (hs : s.isPending = true) : Ending body s (.error (.operational m)) s
  | unbegun (t : Trouble) (hs : s.isPending = false) :
    Ending body s (.error t.failure) { s with breaks := none }
  | undone {e : Failure} {u : Session} (hb : body.exec s.start = (.error e, u)) :
    Ending body s (.error e) u.rollBack
  | lost {a : α} {u : Session} (hb : body.exec s.start = (.ok a, u)) (hu : u.standing = .bereft) :
    Ending body s (.error (.operational "cannot commit - no transaction is active")) u.leave
  | putOff {a : α} {u : Session} {before : Database} (hb : body.exec s.start = (.ok a, u))
    (hu : u.standing = .inside before) (hlock : u.trouble? = some .lock) :
    Ending body s (.error Trouble.lock.failure) u.leaveOpen
  | failed {a : α} {u : Session} {before : Database} (hb : body.exec s.start = (.ok a, u))
    (hu : u.standing = .inside before) :
    Ending body s (.error Trouble.fault.failure) { u.abandon.leave with breaks := none }
  | committed {a : α} {u : Session} (hb : body.exec s.start = (.ok a, u)) :
    Ending body s (.ok a) u.commit

theorem ending_of_exec {body : Op α} {s t : Session} {r : Except Failure α} (h : s.inBlock = false)
    (hx : (transaction body).exec s = (r, t)) : Ending body s r t := by
  rw [exec_transaction_outside body h, Op.exec_bind, openBlock, Op.exec_of] at hx
  cases hp : s.isPending with
  | true =>
    rw [hp, if_pos rfl] at hx
    cases hx
    exact .barred _ hp
  | false =>
    rw [hp, if_neg (by decide)] at hx
    cases ht : s.trouble? with
    | some x =>
      rw [ht] at hx
      cases hx
      exact .unbegun _ hp
    | none =>
      simp only [ht, Op.exec_bind, exec_undoing] at hx
      cases hb : body.exec s.start with
      | mk r u =>
        rw [hb] at hx
        cases r with
        | error e =>
          cases hx
          exact .undone hb
        | ok a =>
          simp only [closeBlock, Op.exec_of, Op.exec_pure] at hx
          -- what the end of the block finds
          cases hu : u.standing with
          | outside =>
            rw [hu] at hx
            cases hx
            exact .committed hb
          | bereft =>
            rw [hu] at hx
            cases hx
            exact .lost hb hu
          | inside before =>
            rcases hx' : u.trouble? with _ | _ | _ <;> rw [hu, hx'] at hx <;> cases hx
            · exact .committed hb
            · exact .putOff hb hu hx'
            · exact .failed hb hu

theorem transaction_ok {body : Op α} {s t : Session} {a : α} (h : s.inBlock = false)
    (ht : (transaction body).exec s = (.ok a, t)) :
    ∃ u, body.exec s.start = (.ok a, u) ∧ t = u.commit := by
  cases ending_of_exec h ht with
  | committed hb => exact ⟨_, hb, rfl⟩

/-- A block whose body succeeds is committed if nothing hinders it. -/
theorem exec_transaction_ok {body : Op α} {s u : Session} {a : α} (h : s.inBlock = false)
    (hs : s.breaks = none) (hb : body.exec s.start = (.ok a, u)) (hu : u.Closes) :
    (transaction body).exec s = (.ok a, u.commit) := by
  rw [exec_transaction_outside body h, Op.exec_bind_ok (exec_openBlock hs), Op.exec_bind,
    exec_undoing, hb]
  simp only [Op.exec_bind_ok (exec_closeBlock hu), Op.exec_pure]

theorem exec_transaction_error {body : Op α} {s u : Session} {e : Failure} (h : s.inBlock = false)
    (hs : s.breaks = none) (hb : body.exec s.start = (.error e, u)) :
    (transaction body).exec s = (.error e, u.rollBack) := by
  rw [exec_transaction_outside body h, Op.exec_bind_ok (exec_openBlock hs), Op.exec_bind,
    exec_undoing, hb]

/-- An operation that needs room for a row gives what it gives without that. -/
theorem exec_abandoning (body : Op α) (s : Session) :
    ∃ t, (abandoning body).exec s = ((body.exec s).1, t) ∧
      (t = (body.exec s).2 ∨
        (body.exec s).1 = .error (.operational noRoom) ∧ t = (body.exec s).2.abandon) := by
  rw [abandoning, Op.exec_of]
  split
  · rename_i m t hx
    rw [hx]
    refine ⟨_, rfl, ?_⟩
    split
    · rename_i hm
      exact .inr ⟨by rw [beq_iff_eq.1 hm], rfl⟩
    · exact .inl rfl
  · rename_i hx
    exact ⟨_, by rw [hx], .inl (by rw [hx])⟩

theorem abandoning_ok {body : Op α} {s t : Session} {a : α} :
    (abandoning body).exec s = (.ok a, t) ↔ body.exec s = (.ok a, t) := by
  obtain ⟨u, hx, rfl | ⟨hf, -⟩⟩ := exec_abandoning body s
  · rw [hx]
  · rw [hx]
    constructor <;> intro h <;> simp_all

/-! ## What the engine does -/

/-- A session before and after something that the engine does to it, at an end of a block or by
itself. -/
inductive Session.Served : Session → Session → Prop
  | same (s : Session) : Served s s
  | counted (s : Session) : Served s { s with breaks := s.hindrance }
  | freed (s : Session) : Served s { s with breaks := none }
  | start (s : Session) : Served s s.start
  | commit (s : Session) : Served s s.commit
  | abandon (s : Session) : Served s s.abandon
  | leave (s : Session) : Served s s.leave
  | rollBack (s : Session) : Served s s.rollBack
  | leaveOpen {s : Session} (h : s.trouble? = some .lock) : Served s s.leaveOpen

section Along

variable {R : Session → Session → Prop} (trans : ∀ ⦃s t u⦄, R s t → R t u → R s u)
  (served : ∀ ⦃s t⦄, s.Served t → R s t)

include trans served

/-- What holds along the body of a transaction and of whatever the engine does holds along the
transaction. -/
theorem transaction_along {body : Op α} (h : ∀ s, R s (body.exec s).2) (s : Session) :
    R s ((transaction body).exec s).2 := by
  cases hin : s.inBlock with
  | true =>
    rw [exec_transaction_inside body hin]
    exact h s
  | false =>
    have hbody {r : Except Failure α} {u : Session} (hb : body.exec s.start = (r, u)) : R s u :=
      trans (served (.start s)) (by simpa [hb] using h s.start)
    obtain ⟨r, t, hx⟩ : ∃ r t, (transaction body).exec s = (r, t) := ⟨_, _, rfl⟩
    rw [hx]
    cases ending_of_exec hin hx with
    | barred e => exact served (.same s)
    | unbegun e => exact served (.freed s)
    | undone hb => exact trans (hbody hb) (served (.rollBack _))
    | lost hb => exact trans (hbody hb) (served (.leave _))
    | putOff hb _ hlock => exact trans (hbody hb) (served (.leaveOpen hlock))
    | failed hb =>
      have hleft := trans (hbody hb) (trans (served (.abandon _)) (served (.leave _)))
      exact trans hleft (served (.freed _))
    | committed hb => exact trans (hbody hb) (served (.commit _))

theorem countStatement_along (s : Session) : R s (countStatement.exec s).2 := by
  rw [countStatement, Op.exec_of]
  split
  · exact served (.counted s)
  · exact served (.freed s)
  · exact trans (served (.abandon s)) (served (.freed _))

theorem abandoning_along {body : Op α} (h : ∀ s, R s (body.exec s).2) (s : Session) :
    R s ((abandoning body).exec s).2 := by
  obtain ⟨t, hx, rfl | ⟨-, rfl⟩⟩ := exec_abandoning body s
  · rw [hx]
    exact h s
  · rw [hx]
    exact trans (h s) (served (.abandon _))

end Along

/-- What a transaction gives is what its body gives in a block. -/
theorem transaction_gives {body : Op α} {s : Session} {a : α}
    (h : ((transaction body).exec s).1 = .ok a) :
    ∃ u, s.Served u ∧ (body.exec u).1 = .ok a := by
  cases hin : s.inBlock with
  | true =>
    rw [exec_transaction_inside body hin] at h
    exact ⟨s, .same s, h⟩
  | false =>
    obtain ⟨u, hu, -⟩ := transaction_ok hin (Prod.ext h rfl)
    exact ⟨s.start, .start s, by rw [hu]⟩

theorem exec_countStatement {s : Session} (h : s.breaks = none) :
    countStatement.exec s = (.ok (), s) := by
  rw [countStatement, Op.exec_of, Session.trouble?_of_breaks h, Session.hindrance_of_breaks h, ← h]

/-- A statement that succeeds sees the database as it is, and leaves the one that it gives. -/
theorem statement_ok {run : Session → Except Failure (α × Database)} {s t : Session} {a : α}
    (h : (statement run).exec s = (.ok a, t)) :
    ∃ u, u.database = s.database ∧ run u = .ok (a, t.database) := by
  obtain ⟨v, w, hv, hb, hw⟩ : ∃ v w : Session, v.database = s.database ∧ (do
      countStatement
      replacing run : Op α).exec v = (.ok a, w) ∧ t.database = w.database := by
    cases hin : s.inBlock with
    | true => exact ⟨s, t, rfl, by rwa [statement, exec_transaction_inside _ hin] at h, rfl⟩
    | false =>
      obtain ⟨u, hu, rfl⟩ := transaction_ok hin h
      exact ⟨s.start, u, rfl, hu, rfl⟩
  obtain ⟨_, u, hc, hr⟩ := Op.bind_ok hb
  have hu : u.database = v.database := by
    rw [countStatement, Op.exec_of] at hc
    split at hc <;> cases hc
    rfl
  rw [replacing, Op.exec_of] at hr
  cases hrun : run u with
  | error e =>
    rw [hrun] at hr
    cases hr
  | ok p =>
    rw [hrun] at hr
    cases hr
    exact ⟨u, hu.trans hv, by rw [hw]; exact hrun⟩

@[simp] theorem exec_emit (level : Log.Level) (part : Log.Part) (event : String)
    (fields : List (String × Value)) (s : Session) :
    (emit level part event fields).exec s
      = (.ok (), { s with log := s.log ++ [⟨level, part.logger, event, fields⟩] }) := rfl

@[simp] theorem exec_hashed (password : String) (s : Session) :
    (hashed password).exec s
      = (.ok (s.scheme.hash s.salts password), { s with salts := s.salts + 1 }) := rfl

end Bookkeeping.Store

namespace Bookkeeping.Service

open Store

variable {α : Type}

/-- A rejected operation adds an event to the log; nothing else is different. -/
theorem exec_logged (operation : String) (op : Op α) (s : Session) :
    (logged operation op).exec s = match op.exec s with
      | (.ok a, t) => (.ok a, t)
      | (.error (.rejected r), t) => (.error (.rejected r),
          { t with log := t.log ++
              [⟨.warning, Log.Part.operations.logger, "Operation rejected",
                rejectionFields operation r⟩] })
      | (.error e, t) => (.error e, t) := by
  rw [logged, Op.exec_tryCatch]
  cases h : op.exec s with
  | mk r t =>
    cases r with
    | ok a => rfl
    | error e => cases e <;> rfl

/-- Whether it is rejected or not, all that is added is an event. -/
theorem exec_logged_eq (operation : String) (op : Op α) (s : Session) :
    ∃ log, (logged operation op).exec s = ((op.exec s).1, { (op.exec s).2 with log }) := by
  rw [exec_logged]
  cases op.exec s with
  | mk r t =>
    cases r with
    | ok a => exact ⟨_, rfl⟩
    | error e => cases e <;> exact ⟨_, rfl⟩

theorem logged_ok {operation : String} {op : Op α} {s t : Session} {a : α}
    (h : (logged operation op).exec s = (.ok a, t)) : op.exec s = (.ok a, t) := by
  rw [exec_logged] at h
  cases ho : op.exec s with
  | mk r u =>
    cases r with
    | ok b => simpa [ho] using h
    | error e => cases e <;> simp [ho] at h

end Bookkeeping.Service
