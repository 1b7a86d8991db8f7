import Bookkeeping.Proofs.Atomicity

/-! # What every call upholds

An invariant of databases that outlives the ways in which a ledger is written to outlives every
call, whatever the call is given and however it ends. So there is nothing left to show about calls;
it is enough to look at those ways. Within a block the invariant has to be there before it, too,
since that is what the database may be put back to.
-/

namespace Bookkeeping.Store

open Op

variable {α : Type} {T : Terms} {k : Grade} {Q : α → Prop} {I : Database → Prop} {s t : Session}

/-- A session whose database has a property, now and, in a block, before the block. -/
structure Session.Holds (I : Database → Prop) (s : Session) : Prop where
  now : I s.database
  before : ∀ db, s.standing = .inside db → I db

namespace Session

theorem holds_of_outside (ho : s.inBlock = false) (h : I s.database) : s.Holds I :=
  ⟨h, fun _ hs => by rw [inBlock_eq_false.1 ho] at hs; cases hs⟩

theorem Holds.abandon (h : s.Holds I) : s.abandon.Holds I := by
  cases hs : s.standing with
  | inside db => simpa [Session.abandon, hs] using ⟨h.before db hs, fun _ hb => by cases hb⟩
  | outside => simpa [Session.abandon, hs] using h
  | bereft => simpa [Session.abandon, hs] using h

theorem Served.holds (h : s.Served t) (hs : s.Holds I) : t.Holds I := by
  cases h with
  | same => exact hs
  | counted | freed => exact ⟨hs.now, hs.before⟩
  | start => exact ⟨hs.now, fun _ hb => by cases hb; exact hs.now⟩
  | commit | leave => exact ⟨hs.now, fun _ hb => by cases hb⟩
  | abandon => exact hs.abandon
  | rollBack =>
    cases hst : s.standing with
    | inside db => simpa [Session.rollBack, hst] using ⟨hs.before db hst, fun _ hb => by cases hb⟩
    | outside => simpa [Session.rollBack, hst] using ⟨hs.now, fun _ hb => by cases hb⟩
    | bereft => simpa [Session.rollBack, hst] using ⟨hs.now, fun _ hb => by cases hb⟩
  | leaveOpen =>
    cases hst : s.standing with
    | inside db => simpa [Session.leaveOpen, hst] using ⟨hs.before db hst, fun _ hb => by cases hb⟩
    | outside => simpa [Session.leaveOpen, hst] using hs
    | bereft => simpa [Session.leaveOpen, hst] using hs

theorem Moves.holds (h : s.Moves T t) (hI : T.keeps I) (hs : s.Holds I) : t.Holds I := by
  cases h with
  | served h => exact h.holds hs
  | wrote h => exact ⟨h I hI hs.now, hs.before⟩
  | salted | told | burnt | noted => exact ⟨hs.now, hs.before⟩

theorem Leads.holds (h : s.Leads T t) (hI : T.keeps I) (hs : s.Holds I) : t.Holds I := by
  induction h with
  | refl => exact hs
  | tail _ h ih => exact h.holds hI ih

end Session

/-- Orderly operations keep the invariants of their terms. -/
theorem Op.Orderly.upholds {op : Op α} (h : op.Orderly T k Q) (hI : T.keeps I)
    (hs : s.setting = T.setting) (hi : s.Holds I) : (op.exec s).2.Holds I :=
  (h.leads hs).1.holds hI hi

/-- In a block of which the engine does not undo the transaction, orderly operations keep an invariant
whatever was before the block. -/
theorem Op.Orderly.retains {op : Op α} (h : op.Orderly T k Q) (hI : T.keeps I)
    (hs : s.setting = T.setting) (hend : (op.exec s).2.standing = s.standing)
    (hi : I s.database) : I (op.exec s).2.database := by
  cases hin : s.inBlock with
  | false => exact (h.upholds hI hs (Session.holds_of_outside hin hi)).now
  | true =>
    -- each part ends where it began, so that none of them has lost the transaction
    induction h generalizing s with
    | pure | lift | hashed | emit => exact hi
    | look calm h ih => exact ih s hs hend hi hin
    | @logged k α op Q hlogs operation h ih =>
      obtain ⟨log, hx⟩ := Service.exec_logged_eq operation op s
      rw [hx] at hend ⊢
      exact ih hs hend hi hin
    | burnFuse =>
      rw [Store.burnFuse, exec_of]
      split <;> exact hi
    | reading calm h =>
      rw [(still_statement h s).database hend]
      exact hi
    | @change ρ α β _ deleting run calm h =>
      rw [exec_change_within ρ calm hin hend, Database.changed]
      split
      · exact hi
      · split
        · exact h I hI s _ _ hs hi ‹_›
        · exact hi
    | abandoning h ih =>
      have hsame := exec_abandoning_within (h.kept hs) hend
      rw [hsame] at hend ⊢
      exact ih hs hend hi hin
    | transaction h ih =>
      rw [exec_transaction_inside _ hin] at hend ⊢
      exact ih hs hend hi hin
    | @bind k k' hk α β x f Q R hx hf ihx ihf | @finish α β x f Q R hx hf ihx ihf =>
      have hkept := hx.kept hs
      have hfirst := ihx hs
      cases hxs : x.exec s with
      | mk r t =>
        rw [hxs] at hfirst
        cases r with
        | error e =>
          rw [exec_bind_error hxs] at hend ⊢
          exact hfirst hend hi hin
        | ok a =>
          rw [exec_bind_ok hxs] at hend ⊢
          have ht := hkept.of_ok hxs
          obtain ⟨ha, hset⟩ := hx.next hs hxs
          exact ihf a ha hset (hend.trans ht.symm) (hfirst ht hi hin)
            ((Session.inBlock_congr ht).trans hin)
    | weaken h hk hQ ih => exact ih hs hend hi hin

end Bookkeeping.Store

namespace Bookkeeping.Service

open Store

variable {I : Database → Prop} {s : Session}

/-- Calls leave the setting as it is and uphold every lasting invariant. -/
theorem Call.upholds (c : Call) (h : Lasting s.setting I) (hi : s.Holds I) :
    (c.run.exec s).2.Holds I :=
  (c.orderly (T := .calls s.setting) trivial).upholds h rfl hi

/-- What holds before a call holds after it, unless the engine undoes the transaction of a block that
the call is made in. -/
theorem Call.retains (c : Call) (h : Lasting s.setting I)
    (hend : (c.run.exec s).2.standing = s.standing) (hi : I s.database) :
    I (c.run.exec s).2.database :=
  (c.orderly (T := .calls s.setting) trivial).retains h rfl hend hi

/-- What holds before a call that is made outside of blocks holds after it. -/
theorem Call.keeps (c : Call) (h : Lasting s.setting I) (ho : s.inBlock = false)
    (hi : I s.database) : I (c.run.exec s).2.database :=
  (c.upholds h (Session.holds_of_outside ho hi)).now

theorem Call.setting_run (c : Call) (s : Session) : (c.run.exec s).2.setting = s.setting :=
  ((c.orderly (T := .calls s.setting) trivial).leads rfl).1.setting_eq

theorem Call.scheme_run (c : Call) (s : Session) : (c.run.exec s).2.scheme = s.scheme :=
  congrArg Setting.scheme (c.setting_run s)

theorem scheme_after (s : Session) (calls : List Call) : (s.after calls).scheme = s.scheme := by
  induction calls generalizing s with
  | nil => rfl
  | cons c rest ih => exact (ih _).trans (c.scheme_run s)

end Bookkeeping.Service
