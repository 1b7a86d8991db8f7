import Bookkeeping.Proofs.CallAgreement

/-! # Constraints of the storage engine

The calls themselves see to every constraint: a name is compared before a row gets it, a reference
is looked up before it is stored, and a row is removed only when nothing refers to it any more. So
no statement of any call is ever refused, and it makes no difference whether the engine looks at
references: there is nothing for it to refuse, to set to null or to remove along with a row.
-/

namespace Bookkeeping.Store

open Service

/-! ## Runs of calls -/

/-- A call, and the time that the clock shows when it is made. -/
structure Timed where
  now : String
  call : Call

namespace Session

/-- The session in which references must resolve, or need not. -/
def enforcing (enforce : Bool) (s : Session) : Session := { s with enforce }

/-- Makes a call at its time. -/
def visit (s : Session) (t : Timed) : Except Failure Answer × Session :=
  t.call.run.exec { s with now := t.now }

/-- What comes of calls made one after the other: the answer or the failure of each, and the ledger
after it. -/
def transcript (s : Session) : List Timed → List (Except Failure Answer × Ledger)
  | [] => []
  | t :: rest => ((s.visit t).1, (s.visit t).2.database.ledger) :: (s.visit t).2.transcript rest

/-- The session after calls made one after the other. -/
def through (s : Session) : List Timed → Session
  | [] => s
  | t :: rest => (s.visit t).2.through rest

/-- No constraint may come into play, and everything is looked at. -/
def unrefused : Scope where
  sees _ := true
  strict := True
  timely := False
  late _ := True

variable {s s' : Session}

/-! ## Steps and runs -/

/-- A call on two sessions with the same ledger gives the same and refuses nothing. -/
theorem visit_unrefused (h : s.Beside unrefused s') (ho : s.inBlock = false) {t : Timed}
    (hc : t.call.Typed ∧ t.call.Flagged) :
    (s.visit t).1 = (s'.visit t).1 ∧ (s.visit t).2.Beside unrefused (s'.visit t).2 ∧
      (s.visit t).2.inBlock = false ∧ (s.visit t).2.breaches = s.breaches ∧
      (s'.visit t).2.breaches = s'.breaches := by
  have hwithin : t.call.Within unrefused := by
    unfold Call.Within
    split
    · exact fun _ _ => rfl
    · exact fun _ => rfl
  have hnow : ({ s with now := t.now } : Session).Beside unrefused { s' with now := t.now } :=
    { h with now := rfl, timely := fun hv => hv.elim }
  obtain ⟨r, u, u', run, run', beside, follows, follows', -⟩ :=
    t.call.agrees_outside hnow ho hc.1 hwithin (fun _ _ => trivial) fun _ => hc.2
  rw [visit, visit, run, run']
  exact ⟨rfl, beside, (inBlock_congr follows.standing).trans ho, follows.breaches trivial,
    follows'.breaches trivial⟩

/-- Runs of calls on two sessions with the same ledger give the same throughout and refuse
nothing. -/
theorem transcript_unrefused (h : s.Beside unrefused s') (ho : s.inBlock = false)
    {calls : List Timed} (hc : ∀ t ∈ calls, t.call.Typed ∧ t.call.Flagged) :
    s.transcript calls = s'.transcript calls ∧ (s.through calls).breaches = s.breaches ∧
      (s'.through calls).breaches = s'.breaches := by
  induction calls generalizing s s' with
  | nil => exact ⟨rfl, rfl, rfl⟩
  | cons t rest ih =>
    obtain ⟨hanswer, hbeside, hout, hb, hb'⟩ := visit_unrefused h ho (hc t List.mem_cons_self)
    obtain ⟨hrest, hbreaches, hbreaches'⟩ :=
      ih hbeside hout fun u hu => hc u (List.mem_cons_of_mem t hu)
    -- everybody is in view, so the ledgers are not just alike
    have hledger : (s.visit t).2.database.ledger = (s'.visit t).2.database.ledger :=
      hbeside.alike.eq
    exact ⟨by rw [transcript, transcript, hanswer, hledger, hrest], hbreaches.trans hb,
      hbreaches'.trans hb'⟩

end Session

/-- In a run of calls no constraint is ever broken, and whether references must resolve makes no
difference to any answer, to any failure or to the ledger after any call. The calls are not broken
off from outside. -/
theorem Reachable.constraints_idle {s : Session} (hd : Reachable s.database)
    (ho : s.inTransaction = false) (hfuse : s.fuse = none) (hbreaks : s.breaks = none)
    {calls : List Timed} (hc : ∀ t ∈ calls, t.call.Typed ∧ t.call.Flagged) :
    (s.enforcing true).transcript calls = (s.enforcing false).transcript calls ∧
      ((s.enforcing true).through calls).breaches = s.breaches ∧
      ((s.enforcing false).through calls).breaches = s.breaches := by
  have hblock : (s.enforcing true).inBlock = false := Session.not_inBlock ho
  have h : (s.enforcing true).Beside Session.unrefused (s.enforcing false) :=
    beside_of_alike (s := s.enforcing true) false hd hd hblock hfuse hbreaks (.refl _ _)
      fun hv => hv.elim
  exact Session.transcript_unrefused h hblock hc

/-- A first entry, an attempt to remove the currency that it is in, and the removal of the user. -/
def lifeOfAUser : List Timed :=
  (firstSpending ++ [Call.delete .currency (.int 1) (.int 1), Call.deleteUser (.int 1)]).map
    (Timed.mk "2024-01-25T09:30:00")

/-- The currency is not removed by the calls, the user is, and no constraint is broken. -/
theorem constraints_idle_in_lifeOfAUser :
    (newSession.enforcing true).transcript lifeOfAUser
        = (newSession.enforcing false).transcript lifeOfAUser ∧
      ((newSession.enforcing true).transcript lifeOfAUser).map (·.1.isOk)
        = [true, true, true, true, false, true] ∧
      ((newSession.enforcing true).through lifeOfAUser).breaches = [] ∧
      ((newSession.enforcing false).through lifeOfAUser).breaches = [] := by
  have hc : ∀ t ∈ lifeOfAUser, t.call.Typed ∧ t.call.Flagged := by
    simp [lifeOfAUser, firstSpending, registration, Call.Typed, Call.Flagged, Call.ids,
      EntryRequest.ids, Value.isId, Value.isNull, Value.id?]
  obtain ⟨htranscript, hbreaches, hbreaches'⟩ :=
    Reachable.constraints_idle (s := newSession) .migrated rfl rfl rfl hc
  exact ⟨htranscript, by decide +kernel, hbreaches, hbreaches'⟩

end Bookkeeping.Store
