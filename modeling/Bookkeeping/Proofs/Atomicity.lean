import Bookkeeping.Proofs.OrderlyCalls

/-! # Calls come all or not at all

A call that is made outside of a transaction and fails leaves the database as it was, whatever made
it fail and wherever: an argument, a row that is no record, a constraint, a statement that the
engine breaks off, a commit that it refuses. An operation in a block leaves the transaction of the
block alone, unless it fails in such a way that the engine undoes it at once; so whether the block is
then undone, lost or put off, what everybody else sees is what it was before.
-/

namespace Bookkeeping.Store

variable {T : Terms} {k : Grade} {α β : Type} {Q : α → Prop}

/-! ## Staying in a block -/

/-- A failure for which the engine undoes the whole transaction. -/
def Undoes (e : Failure) : Prop := e = Trouble.fault.failure ∨ e = .operational noRoom

/-- A session that is where another one was among blocks, with the transaction of the block, unless
the engine has undone that one. -/
structure Session.Stays (s t : Session) (lost : Prop) : Prop where
  standing : t.standing = s.standing ∨ lost ∧ ∃ before, s.standing = .inside before ∧
    t.standing = .bereft ∧ t.database = before
  boundaries : s.inBlock = true → t.boundaries = s.boundaries
  pending : s.inBlock = true → t.isPending = true → s.isPending = true

namespace Session

variable {s t u : Session} {lost : Prop}

theorem inBlock_congr (h : t.standing = s.standing) : t.inBlock = s.inBlock := by
  rw [inBlock, h, inBlock]

theorem boundaries_abandon (s : Session) : s.abandon.boundaries = s.boundaries := by
  cases hs : s.standing <;> simp [abandon, hs]

theorem standing_rollBack (s : Session) : s.rollBack.standing = .outside := by
  cases hs : s.standing <;> simp [rollBack, hs]

theorem breaks_abandon (s : Session) : s.abandon.breaks = s.breaks := by
  cases hs : s.standing <;> simp [abandon, hs]

theorem isPending_abandon (s : Session) : s.abandon.isPending = s.isPending := by
  rw [isPending, breaks_abandon, isPending]

theorem hindrance_eq (s : Session) : s.hindrance = s.breaks ∨
    ∃ n t, s.breaks = some (.trouble (n + 1) t) ∧ s.hindrance = some (.trouble n t) := by
  unfold hindrance
  split
  · rename_i n t h
    exact .inr ⟨n, t, h, rfl⟩
  · exact .inl rfl

/-- One more statement makes no difference to whether a transaction is put off. -/
theorem isPending_start (s : Session) : s.start.isPending = s.isPending := by
  rcases s.hindrance_eq with h | ⟨n, t, hb, h⟩
  · simp [isPending, start, h]
  · simp [isPending, start, h, hb]

namespace Stays

theorem refl (s : Session) : s.Stays s lost := ⟨.inl rfl, fun _ => rfl, fun _ => id⟩

theorem same (h : s.Stays t lost) (hl : ¬lost) : t.standing = s.standing := by
  rcases h.standing with h | ⟨h, -⟩
  · exact h
  · exact absurd h hl

theorem trans (h : s.Stays t lost) (hl : ¬lost) {lost' : Prop} (h' : t.Stays u lost') :
    s.Stays u lost' where
  standing := h.same hl ▸ h'.standing
  boundaries hs :=
    (h'.boundaries ((inBlock_congr (h.same hl)).trans hs)).trans (h.boundaries hs)
  pending hs hu := h.pending hs (h'.pending ((inBlock_congr (h.same hl)).trans hs) hu)

theorem abandon (h : s.Stays t lost) {lost' : Prop} (hl : lost') : s.Stays t.abandon lost' where
  standing := by
    rcases h.standing with h | ⟨-, before, hs, ht, hd⟩
    · cases ht : t.standing with
      | inside before => exact .inr ⟨hl, before, h.symm.trans ht, by simp [Session.abandon, ht]⟩
      | outside => exact .inl (by rw [← h]; simp [Session.abandon, ht])
      | bereft => exact .inl (by rw [← h]; simp [Session.abandon, ht])
    · exact .inr ⟨hl, before, hs, by simp [Session.abandon, ht, hd]⟩
  boundaries hs := (boundaries_abandon t).trans (h.boundaries hs)
  pending hs ht := h.pending hs (t.isPending_abandon.symm.trans ht)

end Stays

end Session

namespace Op

/-- Whether a result is a failure for which the engine undoes the whole transaction. -/
def Loses (r : Except Failure α) : Prop := ∃ e, r = .error e ∧ Undoes e

theorem not_loses_ok (a : α) : ¬Loses (.ok a) := by
  rintro ⟨e, he, -⟩
  cases he

theorem loses_error {e : Failure} : Loses (.error e : Except Failure α) ↔ Undoes e := by
  simp [Loses]

/-- However an outermost block ends, the session is back where it was. -/
theorem standing_transaction {body : Op α} {s : Session} (ho : s.inBlock = false) :
    ((transaction body).exec s).2.standing = s.standing := by
  obtain ⟨r, t, hx⟩ : ∃ r t, (transaction body).exec s = (r, t) := ⟨_, _, rfl⟩
  rw [hx, Session.inBlock_eq_false.1 ho]
  cases ending_of_exec ho hx with
  | barred e => exact Session.inBlock_eq_false.1 ho
  | unbegun e => exact Session.inBlock_eq_false.1 ho
  | undone hb => exact Session.standing_rollBack _
  | putOff hb hu => simp [Session.leaveOpen, hu]
  | lost hb => rfl
  | failed hb => rfl
  | committed hb => rfl

/-- An operation that leaves a session where it is among blocks. -/
def Kept (op : Op α) (s : Session) : Prop := s.Stays (op.exec s).2 (Loses (op.exec s).1)

namespace Kept

variable {s t : Session}

theorem of_same {op : Op α} (h : (op.exec s).2.standing = s.standing)
    (hb : s.inBlock = true → (op.exec s).2.boundaries = s.boundaries ∧
      ((op.exec s).2.isPending = true → s.isPending = true)) : op.Kept s :=
  ⟨.inl h, fun hs => (hb hs).1, fun hs => (hb hs).2⟩

theorem stays {op : Op α} {r : Except Failure α} (h : op.Kept s) (hx : op.exec s = (r, t)) :
    s.Stays t (Loses r) := by
  rwa [Kept, hx] at h

theorem of_ok {op : Op α} {a : α} (h : op.Kept s) (hx : op.exec s = (.ok a, t)) :
    t.standing = s.standing := (h.stays hx).same (not_loses_ok a)

theorem of_error {op : Op α} {e : Failure} (h : op.Kept s) (hx : op.exec s = (.error e, t))
    (he : ¬Undoes e) : t.standing = s.standing := (h.stays hx).same (mt loses_error.1 he)

theorem bind {x : Op α} {f : α → Op β} (hx : x.Kept s)
    (hf : ∀ a t, x.exec s = (.ok a, t) → (f a).Kept t) : (x >>= f).Kept s := by
  cases hxs : x.exec s with
  | mk r t =>
    cases r with
    | error e =>
      rw [Kept, exec_bind_error hxs]
      obtain ⟨hstanding, hb, hp⟩ := hx.stays hxs
      exact ⟨hstanding.imp_right (.imp_left fun h => loses_error.2 (loses_error.1 h)), hb, hp⟩
    | ok a =>
      rw [Kept, exec_bind_ok hxs]
      exact (hx.stays hxs).trans (not_loses_ok a) (hf a t hxs)

theorem transaction {body : Op α} (h : s.inBlock = true → body.Kept s) :
    (transaction body).Kept s := by
  cases hin : s.inBlock with
  | true =>
    rw [Kept, exec_transaction_inside body hin]
    exact h hin
  | false => exact .of_same (standing_transaction hin) fun hs => by rw [hin] at hs; cases hs

theorem countStatement (s : Session) : countStatement.Kept s := by
  rw [Kept, Store.countStatement, exec_of]
  split
  · exact ⟨.inl rfl, fun _ => rfl, fun _ h => s.isPending_start.symm.trans h⟩
  · exact ⟨.inl rfl, fun _ => rfl, fun _ h => by cases h⟩
  · have hsame : s.Stays s False := .refl s
    have habandon := hsame.abandon (loses_error.2 (.inl rfl) :
      Loses (.error Trouble.fault.failure : Except Failure Unit))
    exact ⟨habandon.standing, habandon.boundaries, fun _ h => by cases h⟩

theorem replacing (run : Session → Except Failure (α × Database)) (s : Session) :
    (replacing run).Kept s := by
  rw [Kept, Store.replacing, exec_of]
  split <;> exact ⟨.inl rfl, fun _ => rfl, fun _ => id⟩

theorem statement (run : Session → Except Failure (α × Database)) (s : Session) :
    (statement run).Kept s :=
  .transaction fun _ => (countStatement s).bind fun _ t _ => replacing run t

theorem obey (table : TableName) (deleting : Bool) (r : Stored α) (s : Session) :
    (obey table deleting r).Kept s := by
  cases r <;> exact ⟨.inl rfl, fun _ => rfl, fun _ => id⟩

theorem change {ρ : Type} [Persistent ρ α] {deleting : Bool}
    (run : Session → Except Failure (Stored (β × Ledger))) (s : Session) :
    (change ρ deleting run).Kept s :=
  .transaction fun _ => (statement _ s).bind fun _ t _ => obey _ _ _ t

theorem abandoning {body : Op α} (h : body.Kept s) : (abandoning body).Kept s := by
  obtain ⟨t, hx, rfl | ⟨hf, rfl⟩⟩ := exec_abandoning body s
  · rwa [Kept, hx]
  · rw [Kept, hx, hf]
    exact h.abandon ⟨_, rfl, .inr rfl⟩

end Kept

end Op

open Op

/-! ## Changes within a block -/

/-- What a run of a change makes of a database. -/
def Database.changed (run : Session → Except Failure (Stored (β × Ledger))) (s : Session) :
    Database :=
  match run s with
  | .ok (.ok (_, l)) => s.database.withLedger l
  | _ => s.database

/-- Within a block a change leaves all as it was if its statement is broken off or refused, and
otherwise the new ledger. -/
theorem exec_change_within (ρ : Type) [Persistent ρ α] {deleting : Bool}
    {run : Session → Except Failure (Stored (β × Ledger))} {s : Session}
    (calm : ∀ s, run s.calm = run s) (hin : s.inBlock = true)
    (hend : ((change ρ deleting run).exec s).2.standing = s.standing) :
    ((change ρ deleting run).exec s).2.database =
      if s.trouble?.isSome then s.database else Database.changed run s := by
  rw [change, exec_transaction_inside _ hin, exec_bind, statement, exec_transaction_inside _ hin,
    exec_bind, countStatement, exec_of] at hend ⊢
  cases ht : s.trouble? with
  | none =>
    have hrun : run { s with breaks := s.hindrance } = run s := by rw [← calm, ← calm s]; rfl
    simp only [replacing, exec_of, hrun, Database.changed]
    cases hr : run s with
    | error e => rfl
    | ok stored => cases stored <;> rfl
  | some x =>
    cases x with
    | lock => rfl
    | fault =>
      -- the transaction of the block would be undone
      cases hs : s.standing <;> simp [ht, Session.abandon, hs] at hend ⊢

/-- If a session is still where it was, the engine has undone no transaction of it. -/
theorem exec_abandoning_within {body : Op α} {s : Session} (hk : body.Kept s)
    (hend : ((abandoning body).exec s).2.standing = s.standing) :
    (abandoning body).exec s = body.exec s := by
  obtain ⟨t, hx, rfl | ⟨hf, rfl⟩⟩ := exec_abandoning body s
  · exact hx
  · rw [hx] at hend ⊢
    refine Prod.ext rfl ?_
    cases hu : (body.exec s).2.standing with
    | inside before =>
      -- the session would have lost a transaction that it has
      rcases hk.standing with h | ⟨-, _, -, h, -⟩
      · rw [← h, hu, Session.abandon, hu] at hend
        cases hend
      · rw [hu] at h
        cases h
    | outside => simp [Session.abandon, hu]
    | bereft => simp [Session.abandon, hu]

/-- Orderly operations stay in the block that they are made in. -/
theorem Op.Orderly.kept {op : Op α} (h : op.Orderly T k Q) {s : Session}
    (hs : s.setting = T.setting) : op.Kept s := by
  induction h generalizing s with
  | pure | lift | hashed | emit => exact .of_same rfl fun _ => ⟨rfl, id⟩
  | look calm h ih => exact ih s hs
  | @logged k α op Q hlogs operation h ih =>
    obtain ⟨log, hx⟩ := Service.exec_logged_eq operation op s
    rw [Kept, hx]
    exact ⟨(ih hs).standing, (ih hs).boundaries, (ih hs).pending⟩
  | burnFuse =>
    rw [Kept, Store.burnFuse, exec_of]
    split <;> exact ⟨.inl rfl, fun _ => rfl, fun _ => id⟩
  | reading calm h => exact .statement _ s
  | change calm h => exact .change _ s
  | abandoning h ih => exact (ih hs).abandoning
  | transaction h ih => exact .transaction fun _ => ih hs
  | bind hx hf ihx ihf | finish hx hf ihx ihf =>
    refine (ihx hs).bind fun a t hxs => ?_
    obtain ⟨ha, ht⟩ := hx.next hs hxs
    exact ihf a ha ht
  | weaken h hk hQ ih => exact ih hs

/-- Outside of blocks an orderly operation ends outside of blocks. -/
theorem Op.Orderly.ends_outside {op : Op α} (h : op.Orderly T k Q) {s : Session}
    (hs : s.setting = T.setting) (ho : s.inBlock = false) : (op.exec s).2.inBlock = false := by
  rw [Session.inBlock_eq_false] at ho ⊢
  rcases (h.kept hs).standing with h | ⟨-, _, hin, -⟩
  · exact h.trans ho
  · rw [ho] at hin
    cases hin

/-- What comes after an orderly operation that succeeds outside of blocks is outside of them, too. -/
theorem Op.Orderly.next_outside {op : Op α} (h : op.Orderly T k Q) {s t : Session}
    (hs : s.setting = T.setting) (ho : s.inBlock = false) {a : α} (hx : op.exec s = (.ok a, t)) :
    Q a ∧ t.setting = T.setting ∧ t.inBlock = false := by
  obtain ⟨ha, ht⟩ := h.next hs hx
  have hout := h.ends_outside hs ho
  rw [hx] at hout
  exact ⟨ha, ht, hout⟩

/-! ## Outside of blocks -/

/-- What an operation of a grade owes to a session that is in no block. -/
def Grade.Owes : Grade → {α : Type} → Op α → Session → Prop
  | sure, _, op, s => (op.exec s).2.database = s.database ∧ (op.exec s).1.isOk = true
  | quiet, _, op, s => (op.exec s).2.database = s.database
  | whole, _, op, s => (op.exec s).1.isOk = false → (op.exec s).2.database = s.database
  | loose, _, _, _ => True

theorem Grade.Owes.of_same {op : Op α} {s : Session} (hd : (op.exec s).2.database = s.database)
    (hok : (op.exec s).1.isOk = true) : k.Owes op s := by
  cases k with
  | sure => exact ⟨hd, hok⟩
  | quiet => exact hd
  | whole => exact fun _ => hd
  | loose => trivial

theorem Grade.Owes.le {k k' : Grade} {op : Op α} {s : Session} (h : k.Owes op s)
    (hk : k.le k' = true) : k'.Owes op s := by
  cases k <;> cases k' <;> first
    | cases hk; done
    | exact h
    | exact h.1
    | exact fun _ => h.1
    | exact fun _ => h
    | trivial

theorem Grade.Owes.congr {op op' : Op α} {s : Session} (h : k.Owes op s)
    (hr : (op'.exec s).1 = (op.exec s).1)
    (hd : (op'.exec s).2.database = (op.exec s).2.database) : k.Owes op' s := by
  cases k with
  | sure => exact ⟨hd.trans h.1, by rw [hr, h.2]⟩
  | quiet => exact hd.trans h
  | whole => exact fun hf => hd.trans (h (by rw [← hr, hf]))
  | loose => trivial

/-- Where a transaction is undone, lost or put off, the database is what it was before. -/
theorem whole_transaction {body : Op α} {s : Session} (ho : s.inBlock = false)
    (h : body.Kept s.start) : Grade.whole.Owes (transaction body) s := by
  intro hf
  obtain ⟨r, t, hx⟩ : ∃ r t, (transaction body).exec s = (r, t) := ⟨_, _, rfl⟩
  rw [hx] at hf ⊢
  -- the body left the transaction open, or the database is back already
  have hbody {r : Except Failure α} {u : Session} (hb : body.exec s.start = (r, u)) :
      u.standing = .inside s.database ∨ u.standing = .bereft ∧ u.database = s.database := by
    rcases (h.stays hb).standing with h | ⟨-, before, hs, hlost⟩
    · exact .inl h
    · cases hs
      exact .inr hlost
  cases ending_of_exec ho hx with
  | barred e => rfl
  | unbegun e => rfl
  | undone hb => rcases hbody hb with hu | ⟨hu, hd⟩ <;> simp [Session.rollBack, *]
  | lost hb hu =>
    have hin := h.of_ok hb
    rw [hu] at hin
    cases hin
  | putOff hb hu =>
    rcases hbody hb with hin | ⟨hlost, -⟩
    · simp [Session.leaveOpen, hin]
    · rw [hu] at hlost
      cases hlost
  | failed hb hu =>
    rcases hbody hb with hin | ⟨hlost, -⟩
    · simp [Session.abandon, Session.leave, hin]
    · rw [hu] at hlost
      cases hlost
  | committed hb => cases hf

/-- A statement that gives back the database it saw changes nothing. -/
theorem quiet_reading {run : Session → Except Failure (α × Database)} {s : Session}
    (h : ∀ s a db, run s = .ok (a, db) → db = s.database) (ho : s.inBlock = false) :
    Grade.quiet.Owes (statement run) s := by
  have hwhole : Grade.whole.Owes (statement run) s :=
    whole_transaction ho <| (Kept.countStatement _).bind fun _ t _ => .replacing run t
  show ((statement run).exec s).2.database = s.database
  cases hx : (statement run).exec s with
  | mk r t =>
    cases r with
    | error e =>
      rw [Grade.Owes, hx] at hwhole
      exact hwhole rfl
    | ok a =>
      obtain ⟨u, hu, hrun⟩ := statement_ok hx
      exact (h u _ _ hrun).trans hu

theorem Grade.Owes.bind {k k' : Grade} {x : Op α} {f : α → Op β} {s : Session}
    (hx : k.Owes x s) (hf : ∀ a t, x.exec s = (.ok a, t) → k'.Owes (f a) t)
    (hk : k.before k' = true) : k'.Owes (x >>= f) s := by
  cases k' with
  | loose => trivial
  | sure =>
    cases k <;> first | cases hk; done | skip
    obtain ⟨hd, hok⟩ := hx
    show _ ∧ _
    rw [exec_bind]
    cases hxs : x.exec s with
    | mk r t =>
      rw [hxs] at hd hok
      cases r with
      | error e => cases hok
      | ok a =>
        obtain ⟨hd', hok'⟩ := hf a t hxs
        exact ⟨hd'.trans hd, hok'⟩
  | quiet =>
    have hd : (x.exec s).2.database = s.database := by
      cases k <;> first | cases hk; done | exact hx | exact hx.1
    show ((x >>= f).exec s).2.database = s.database
    rw [exec_bind]
    cases hxs : x.exec s with
    | mk r t =>
      rw [hxs] at hd
      cases r with
      | error e => exact hd
      | ok a => exact (hf a t hxs : _ = _).trans hd
  | whole =>
    have hd : (x.exec s).2.database = s.database := by
      cases k <;> first | cases hk; done | exact hx | exact hx.1
    intro herr
    rw [exec_bind] at herr ⊢
    cases hxs : x.exec s with
    | mk r t =>
      rw [hxs] at hd herr
      cases r with
      | error e => exact hd
      | ok a => exact (hf a t hxs herr).trans hd

/-- What cannot fail may follow what comes all or not at all. -/
theorem Grade.Owes.finish {x : Op α} {f : α → Op β} {s : Session} (hx : Grade.whole.Owes x s)
    (hf : ∀ a t, x.exec s = (.ok a, t) → Grade.sure.Owes (f a) t) :
    Grade.whole.Owes (x >>= f) s := by
  intro herr
  rw [exec_bind] at herr ⊢
  cases hxs : x.exec s with
  | mk r t =>
    rw [Grade.Owes, hxs] at hx
    rw [hxs] at herr
    cases r with
    | error e => exact hx rfl
    | ok a =>
      rw [(hf a t hxs).2] at herr
      cases herr

/-- Orderly operations are as careful as their grade says. -/
theorem Op.Orderly.careful {op : Op α} (h : op.Orderly T k Q) {s : Session}
    (hs : s.setting = T.setting) (ho : s.inBlock = false) : k.Owes op s := by
  induction h generalizing s with
  | pure | hashed | emit => exact .of_same rfl rfl
  | lift r => exact (rfl : _ = _)
  | look calm h ih => exact (ih s hs ho).congr rfl rfl
  | @logged k α op Q hlogs operation h ih =>
    obtain ⟨log, hx⟩ := Service.exec_logged_eq operation op s
    exact (ih hs ho).congr (by rw [hx]) (by rw [hx])
  | burnFuse => trivial
  | reading calm h => exact quiet_reading h ho
  | change calm h => trivial
  | abandoning h ih => trivial
  | transaction h ih => exact whole_transaction ho (h.kept hs)
  | @bind k k' hk α β x f Q R hx hf ihx ihf =>
    refine (ihx hs ho).bind (fun a t hxs => ?_) hk.before
    obtain ⟨ha, ht, hout⟩ := hx.next_outside hs ho hxs
    exact ihf a ha ht hout
  | finish hx hf ihx ihf =>
    refine (ihx hs ho).finish fun a t hxs => ?_
    obtain ⟨ha, ht, hout⟩ := hx.next_outside hs ho hxs
    exact ihf a ha ht hout
  | weaken h hk hQ ih => exact (ih hs ho).le hk

/-! ## Looking things up -/

/-- An operation that leaves the database as it is, unless the engine undoes the transaction of the
block that it is made in, and breaks no constraint. -/
structure Op.Still (op : Op α) (s : Session) : Prop where
  database : (op.exec s).2.standing = s.standing → (op.exec s).2.database = s.database
  breaches : (op.exec s).2.breaches = s.breaches

namespace Session

theorem breaches_abandon (s : Session) : s.abandon.breaches = s.breaches := by
  cases hs : s.standing <;> simp [abandon, hs]

theorem breaches_rollBack (s : Session) : s.rollBack.breaches = s.breaches := by
  cases hs : s.standing <;> simp [rollBack, hs]

theorem breaches_leaveOpen (s : Session) : s.leaveOpen.breaches = s.breaches := by
  cases hs : s.standing <;> simp [leaveOpen, hs]

theorem Served.breaches {s t : Session} (h : s.Served t) : t.breaches = s.breaches := by
  cases h with
  | abandon => exact s.breaches_abandon
  | rollBack => exact s.breaches_rollBack
  | leaveOpen => exact s.breaches_leaveOpen
  | same | counted | freed | start | commit | leave => rfl

end Session

theorem still_statement {run : Session → Except Failure (α × Database)}
    (h : ∀ s a db, run s = .ok (a, db) → db = s.database) (s : Session) :
    (statement run).Still s where
  database hstanding := by
    cases hin : s.inBlock with
    | false => exact quiet_reading h hin
    | true =>
      rw [Store.statement, exec_transaction_inside _ hin, exec_bind] at hstanding ⊢
      rw [countStatement, exec_of] at hstanding ⊢
      cases ht : s.trouble? with
      | none =>
        simp only [replacing, exec_of]
        split
        · rename_i a db hrun
          exact h { s with breaks := s.hindrance } a db hrun
        · rfl
      | some x =>
        cases x with
        | lock => rfl
        | fault =>
          -- the transaction is undone only where it is lost
          cases hs : s.standing <;> simp [ht, Session.abandon, hs] at hstanding ⊢
  breaches := by
    refine transaction_along (R := fun s t : Session => t.breaches = s.breaches)
      (fun _ _ _ h h' => h'.trans h) (fun _ _ h => h.breaches) (fun s => ?_) s
    have hcount : (countStatement.exec s).2.breaches = s.breaches :=
      countStatement_along (R := fun s t : Session => t.breaches = s.breaches)
        (fun _ _ _ h h' => h'.trans h) (fun _ _ h => h.breaches) s
    rw [exec_bind]
    cases hc : countStatement.exec s with
    | mk r t =>
      rw [hc] at hcount
      cases r with
      | error e => exact hcount
      | ok u =>
        simp only [replacing, exec_of]
        split <;> exact hcount

/-- What is found out leaves the database as it is. -/
theorem Op.Orderly.still {op : Op α} (h : op.Orderly T k Q) (hk : k.le .quiet = true) {s : Session}
    (hs : s.setting = T.setting) : op.Still s := by
  induction h generalizing s with
  | pure | hashed | emit | lift => exact ⟨fun _ => rfl, rfl⟩
  | look calm h ih => exact ⟨(ih s hk hs).database, (ih s hk hs).breaches⟩
  | @logged k α op Q hlogs operation h ih =>
    obtain ⟨log, hx⟩ := Service.exec_logged_eq operation op s
    exact ⟨by rw [hx]; exact (ih hk hs).database, by rw [hx]; exact (ih hk hs).breaches⟩
  | reading calm h => exact still_statement h s
  | burnFuse | change | abandoning | transaction | finish => cases hk
  | @bind k k' hbefore α β x f Q R hx hf ihx ihf =>
    obtain ⟨hd, hb⟩ := ihx (Grade.le_trans (Grade.le_of_before hbefore.before) hk) hs
    have hkept := hx.kept hs
    cases hxs : x.exec s with
    | mk r t =>
      rw [hxs] at hd hb
      cases r with
      | error e => constructor <;> rw [exec_bind_error hxs] <;> assumption
      | ok a =>
        obtain ⟨ha, ht⟩ := hx.next hs hxs
        have hnext := ihf a ha hk ht
        have hsame := hkept.of_ok hxs
        constructor <;> rw [exec_bind_ok hxs]
        · exact fun h => (hnext.database (h.trans hsame.symm)).trans (hd hsame)
        · exact hnext.breaches.trans hb
  | weaken h hle hQ ih => exact ih (Grade.le_trans hle hk) hs

/-- What is found out, if it is, leaves the database as it is. -/
theorem Op.Orderly.database_eq {op : Op α} (h : op.Orderly T k Q) (hk : k.le .quiet = true)
    {s t : Session} (hs : s.setting = T.setting) {a : α} (hx : op.exec s = (.ok a, t)) :
    t.database = s.database := by
  have hd := (h.still hk hs).database
  rw [hx] at hd
  exact hd ((h.kept hs).of_ok hx)

/-! ## Transactions that are put off -/

/-- Whether somebody else is at the database when some statement from now on needs it. -/
def Session.MeetsLock (s : Session) : Prop := ∃ n, s.breaks = some (.trouble n .lock)

namespace Session

variable {s t : Session}

theorem meetsLock_of_hindrance (h : ∃ n, s.hindrance = some (.trouble n .lock)) : s.MeetsLock := by
  obtain ⟨n, hn⟩ := h
  rcases s.hindrance_eq with h | ⟨m, t, hb, h⟩
  · exact ⟨n, by rw [← h, hn]⟩
  · rw [h] at hn
    cases hn
    exact ⟨_, hb⟩

theorem meetsLock_of_trouble (h : s.trouble? = some .lock) : s.MeetsLock := by
  unfold trouble? at h
  split at h
  · exact ⟨0, by rw [← Option.some.inj h]; assumption⟩
  · cases h

theorem breaks_rollBack (s : Session) : s.rollBack.breaks = s.breaks := by
  cases hs : s.standing <;> simp [rollBack, hs]

theorem Moves.meetsLock (h : s.Moves T t) (ht : t.MeetsLock) : s.MeetsLock := by
  cases h with
  | served h =>
    cases h with
    | counted | start | commit => exact meetsLock_of_hindrance ht
    | freed => exact absurd ht (by rintro ⟨n, hn⟩; cases hn)
    | abandon => exact ht.imp fun _ hn => (breaks_abandon s).symm.trans hn
    | rollBack => exact ht.imp fun _ hn => (breaks_rollBack s).symm.trans hn
    | leaveOpen hlock => exact meetsLock_of_trouble hlock
    | same | leave => exact ht
  | salted | told | burnt | wrote | noted => exact ht

theorem Leads.meetsLock (h : s.Leads T t) (ht : t.MeetsLock) : s.MeetsLock := by
  induction h with
  | refl => exact ht
  | tail _ h ih => exact ih (h.meetsLock ht)

/-- A transaction that is put off met a lock, if it was not put off before. -/
theorem Moves.isPending (h : s.Moves T t) (ht : t.isPending = true) :
    s.isPending = true ∨ s.MeetsLock := by
  cases h with
  | served h =>
    cases h with
    | counted | start | commit => exact .inl (s.isPending_start.symm.trans ht)
    | freed => cases ht
    | abandon => exact .inl (s.isPending_abandon.symm.trans ht)
    | rollBack => exact .inl (by rwa [Session.isPending, breaks_rollBack] at ht)
    | leaveOpen hlock => exact .inr (meetsLock_of_trouble hlock)
    | same | leave => exact .inl ht
  | salted | told | burnt | wrote | noted => exact .inl ht

theorem Leads.isPending (h : s.Leads T t) (ht : t.isPending = true) :
    s.isPending = true ∨ s.MeetsLock := by
  induction h with
  | refl => exact .inl ht
  | tail hst h ih =>
    rcases h.isPending ht with hp | hlock
    · exact ih hp
    · exact .inr (Leads.meetsLock hst hlock)

/-- Nothing hinders a session that nothing hindered before. -/
theorem Moves.breaks (h : s.Moves T t) (hs : s.breaks = none) : t.breaks = none := by
  cases h with
  | served h =>
    cases h with
    | counted | start | commit => exact hindrance_of_breaks hs
    | freed => rfl
    | abandon => exact (breaks_abandon s).trans hs
    | rollBack => exact (breaks_rollBack s).trans hs
    | leaveOpen hlock =>
      rw [trouble?_of_breaks hs] at hlock
      cases hlock
    | same | leave => exact hs
  | salted | told | burnt | wrote | noted => exact hs

theorem Leads.breaks (h : s.Leads T t) (hs : s.breaks = none) : t.breaks = none := by
  induction h with
  | refl => exact hs
  | tail _ h ih => exact h.breaks ih

end Session

namespace Op

/-- An operation that, if it leaves a transaction open, fails for the lock that its commit met. -/
def PutsOff (op : Op α) (s : Session) : Prop :=
  s.isPending = false → (op.exec s).2.isPending = true →
    (op.exec s).1 = .error Trouble.lock.failure

namespace PutsOff

variable {s : Session}

theorem of_same {op : Op α} (h : (op.exec s).2.isPending = s.isPending) : op.PutsOff s := by
  intro hs ht
  rw [h, hs] at ht
  cases ht

theorem bind {x : Op α} {f : α → Op β} (hx : x.PutsOff s)
    (hf : ∀ a t, x.exec s = (.ok a, t) → (f a).PutsOff t) : (x >>= f).PutsOff s := by
  intro hs ht
  cases hxs : x.exec s with
  | mk r t =>
    cases r with
    | error e =>
      rw [exec_bind_error hxs] at ht ⊢
      have h := hx hs (by rw [hxs]; exact ht)
      rw [hxs] at h
      cases h
      rfl
    | ok a =>
      rw [exec_bind_ok hxs] at ht ⊢
      refine hf a t hxs (Bool.eq_false_iff.2 fun hp => ?_) ht
      have h := hx hs (by rw [hxs]; exact hp)
      rw [hxs] at h
      cases h

theorem transaction {body : Op α} (h : ∀ u, s.Served u → body.PutsOff u) :
    (transaction body).PutsOff s := by
  cases hin : s.inBlock with
  | true =>
    unfold PutsOff
    rw [exec_transaction_inside body hin]
    exact h s (.same s)
  | false =>
    intro hs ht
    obtain ⟨r, t, hx⟩ : ∃ r t, (Store.transaction body).exec s = (r, t) := ⟨_, _, rfl⟩
    rw [hx] at ht ⊢
    have hbody {r : Except Failure α} {u : Session} (hb : body.exec s.start = (r, u))
        (hu : u.isPending = true) : r = .error Trouble.lock.failure := by
      have hfails := h s.start (.start s) (by rw [Session.isPending_start, hs])
      rw [hb] at hfails
      exact hfails hu
    cases ending_of_exec hin hx with
    | barred e hp =>
      rw [hs] at hp
      cases hp
    | unbegun e => cases ht
    | @undone e u hb =>
      rw [Session.isPending, Session.breaks_rollBack] at ht
      have hfails := hbody hb ht
      cases hfails
      rfl
    | lost hb => cases hbody hb ht
    | putOff => rfl
    | failed hb => cases ht
    | @committed a u hb =>
      have hu : u.isPending = true := u.isPending_start.symm.trans ht
      cases hbody hb hu

theorem countStatement (s : Session) : countStatement.PutsOff s := by
  intro hs ht
  rw [Store.countStatement, exec_of] at ht
  split at ht
  · rw [show ({ s with breaks := s.hindrance } : Session).isPending = s.isPending from
      s.isPending_start, hs] at ht
    cases ht
  · cases ht
  · cases ht

theorem statement (run : Session → Except Failure (α × Database)) (s : Session) :
    (statement run).PutsOff s := by
  refine .transaction fun u _ => (countStatement u).bind fun _ t _ => .of_same ?_
  rw [replacing, exec_of]
  split <;> rfl

end PutsOff

end Op

/-- A transaction is put off only where its commit meets a lock, and that is what it fails with. -/
theorem Op.Orderly.putsOff {op : Op α} (h : op.Orderly T k Q) {s : Session}
    (hs : s.setting = T.setting) : op.PutsOff s := by
  induction h generalizing s with
  | pure | lift | hashed | emit => exact .of_same rfl
  | look calm h ih => exact ih s hs
  | @logged k α op Q hlogs operation h ih =>
    obtain ⟨log, hx⟩ := Service.exec_logged_eq operation op s
    rw [PutsOff, hx]
    exact ih hs
  | burnFuse =>
    refine .of_same ?_
    rw [Store.burnFuse, exec_of]
    split <;> rfl
  | reading calm h => exact .statement _ s
  | change calm h =>
    refine .transaction fun u _ => (PutsOff.statement _ u).bind fun changed t _ => ?_
    cases changed <;> exact .of_same rfl
  | @abandoning α body Q h ih =>
    have hbody := ih hs
    obtain ⟨t, hx, rfl | ⟨-, rfl⟩⟩ := exec_abandoning body s
    · rw [PutsOff, hx]
      exact hbody
    · rw [PutsOff, hx, Session.isPending_abandon]
      exact hbody
  | transaction h ih => exact .transaction fun u hu => ih (hu.setting_eq.trans hs)
  | bind hx hf ihx ihf =>
    refine (ihx hs).bind fun a t hxs => ?_
    obtain ⟨ha, ht⟩ := hx.next hs hxs
    exact ihf a ha ht
  | finish hx hf ihx ihf =>
    refine (ihx hs).bind fun a t hxs => ?_
    obtain ⟨ha, ht⟩ := hx.next hs hxs
    exact ihf a ha ht
  | weaken h hk hQ ih => exact ih hs

end Bookkeeping.Store

namespace Bookkeeping.Service

open Store

/-- A call that is made outside of blocks ends outside of blocks, and changes nothing if it fails. -/
theorem Call.atomic (c : Call) (s : Session) (ho : s.inBlock = false) :
    (c.run.exec s).2.inBlock = false ∧
      ∀ e, (c.run.exec s).1 = .error e → (c.run.exec s).2.database = s.database := by
  have h := c.orderly (T := .calls s.setting) trivial
  refine ⟨h.ends_outside rfl ho, fun e he => h.careful rfl ho ?_⟩
  rw [he]
  rfl

/-- A call that is made outside of blocks leaves the session where it was. -/
theorem Call.standing_run (c : Call) {s : Session} (ho : s.inBlock = false) :
    (c.run.exec s).2.standing = s.standing :=
  (Session.inBlock_eq_false.1 (c.atomic s ho).1).trans (Session.inBlock_eq_false.1 ho).symm

/-- A call that succeeds leaves the session where it was. -/
theorem Call.standing_ok (c : Call) {s : Session} (hok : (c.run.exec s).1.isOk = true) :
    (c.run.exec s).2.standing = s.standing := by
  have h := (c.orderly (T := .calls s.setting) trivial).kept (s := s) rfl
  cases hx : c.run.exec s with
  | mk r t =>
    rw [hx] at hok
    cases r with
    | error e => cases hok
    | ok a => exact h.of_ok hx

/-- A call that fails outside of any transaction leaves tables and counters of ids as they were for
everybody, and ends outside of any transaction, unless its transaction could not be committed because
somebody else was at the database: that one stays open. -/
theorem Call.failure_restores_database (c : Call) (s : Session) (ho : s.inTransaction = false)
    (hf : (c.run.exec s).1.isOk = false) :
    (c.run.exec s).2.database = s.database ∧ (c.run.exec s).2.inBlock = false ∧
      ((c.run.exec s).2.inTransaction = false ∨
        (c.run.exec s).1 = .error Trouble.lock.failure ∧ s.MeetsLock) := by
  obtain ⟨hblock, hpending⟩ := Session.inTransaction_eq_false.1 ho
  have h := c.orderly (T := .calls s.setting) trivial
  have hout := h.ends_outside rfl hblock
  refine ⟨h.careful rfl hblock hf, hout, ?_⟩
  cases hp : (c.run.exec s).2.isPending with
  | false => exact .inl (Session.inTransaction_eq_false.2 ⟨hout, hp⟩)
  | true =>
    rcases (h.leads rfl).1.isPending hp with hs | hlock
    · rw [hpending] at hs
      cases hs
    · exact .inr ⟨h.putsOff rfl hpending hp, hlock⟩

/-- A registration that is broken off when the user and the currency are stored and the user does
not report in it yet leaves no trace. -/
theorem broken_registration_leaves_no_trace :
    (registration.run.exec { newSession with breaks := some (.trouble 6 .fault) }).1.isOk = false ∧
      (registration.run.exec { newSession with breaks := some (.trouble 6 .fault) }).2.database
        = .migrated ∧
      (registration.run.exec { newSession with breaks := some (.trouble 6 .fault) }).2.inTransaction
        = false := by
  have hf : (registration.run.exec { newSession with breaks := some (.trouble 6 .fault) }).1.isOk
      = false := by decide +kernel
  obtain ⟨hd, -, ho | ⟨-, n, hlock⟩⟩ := registration.failure_restores_database
    { newSession with breaks := some (.trouble 6 .fault) } rfl hf
  · exact ⟨hf, hd, ho⟩
  · cases hlock

/-- A call whose commit meets a lock fails, but its transaction stays open: the category is there as
the session itself sees the database, and no other call can begin. -/
theorem refused_commit_stays_open :
    let s := newSession.after [registration]
    let failing := (Call.createCategory (.int 1) (.text "Food")).run.exec
      { s with breaks := some (.trouble 5 .lock) }
    s.inTransaction = false ∧ failing.1.isOk = false ∧ failing.2.inTransaction = true ∧
      s.view.ledger.categories.rows.length = 0 ∧
      failing.2.view.ledger.categories.rows.length = 1 ∧
      ((Call.getUser (.int 1)).run.exec s).1.isOk = true ∧
      ((Call.getUser (.int 1)).run.exec failing.2).1.isOk = false := by
  decide +kernel

end Bookkeeping.Service
