import Bookkeeping.Proofs.CallAgreement

/-! # Users are kept apart

A call that is made for one user neither changes nor shows anything of another one. Whatever ids it
is given, rows of another user are treated like rows that are not there: what is looked up by its id
is looked up together with its owner, and every row that is counted, compared or changed along with
a row of the user belongs to the user as well.
-/

namespace Bookkeeping.Service

open Store

/-- Only the rows of one user are in view, if any. -/
def onlyOf (user : Value) : Scope where
  sees n := user.id? == some n
  strict := False
  timely := False
  late _ := True

variable {s : Session} {c : Call} {user : Value} {b : Int}

/-- A call that is made for a user looks at this user only. -/
theorem Call.within_onlyOf (hu : c.user? = some user) : c.Within (onlyOf user) := by
  rw [Call.Within, hu]
  exact fun n hn => beq_iff_eq.2 hn

/-! ## What a call leaves alone -/

/-- A call that is made for one user, whatever it is given, leaves the account of another user and
all currencies, categories, sources and entries of the other user as they are. -/
theorem Call.leaves_others_alone (hd : Reachable s.database) (ho : s.inTransaction = false)
    (hc : c.Typed) (hu : c.user? = some user) (hb : user.id? ≠ some b) :
    Ledger.Same (fun n => n == b) s.database.ledger (c.run.exec s).2.database.ledger := by
  have hblock : s.inBlock = false := Session.not_inBlock ho
  rcases c.unchanged_or_calm hblock with hsame | ⟨a, t, run, ht⟩
  · rw [hsame]
    exact .refl _ _
  · -- what is broken off leaves nothing; otherwise the call runs beside itself, seeing one user
    have h : s.calm.Beside (onlyOf user) s.calm :=
      beside_of_alike (s := s.calm) s.enforce hd hd hblock rfl rfl (.refl _ _) fun hv => hv.elim
    obtain ⟨r, t', _, run', -, -, -, -, same⟩ := c.agrees_outside h hblock hc
      (Call.within_onlyOf hu) (fun _ _ => trivial) fun hv => hv.elim
    obtain ⟨-, rfl⟩ := Prod.mk.inj (run.symm.trans run')
    rw [← ht]
    refine same.mono fun n hn => ?_
    rw [beq_iff_eq.1 hn, onlyOf, Bool.not_eq_true', beq_eq_false_iff_ne]
    exact hb

/-- The calls up to a first entry of one user, and another user. -/
def neighbours : List Call :=
  firstSpending ++ [Call.registerUser (.text "bob") (.text "secret") (.text "USD")]

theorem typed_neighbours : ∀ c ∈ neighbours, c.Typed := by
  simp [neighbours, firstSpending, registration, Call.Typed, Call.ids, EntryRequest.ids, Value.isId,
    Value.isNull, Value.id?]

/-- The second user is removed, and the first one and the entry of the first one stay. -/
theorem neighbour_left_alone :
    let s := newSession.after neighbours
    ((Call.deleteUser (.int 2)).run.exec s).1.isOk = true ∧
      (s.database.ledger.entries.rows.filter fun e => e.data.owner == 1).length = 1 ∧
      Ledger.Same (fun n => n == 1) s.database.ledger
        ((Call.deleteUser (.int 2)).run.exec s).2.database.ledger := by
  have hd := Reachable.after (s := newSession) .migrated rfl typed_neighbours
  have hc : (Call.deleteUser (.int 2)).Typed := by
    simp [Call.Typed, Call.ids, Value.isId, Value.isNull, Value.id?]
  exact ⟨by decide +kernel, by decide +kernel,
    Call.leaves_others_alone hd (by decide +kernel) hc rfl (by decide)⟩

/-! ## What a call shows -/

/-- A call that is made for a user cannot tell two databases apart that have the same rows of this
user and the same counters of ids: the answer is the same, or the failure is, and afterwards the
databases have the same rows of the user again. The call is not broken off from outside. -/
theorem Call.shows_own_rows_only {db : Database} (hd : Reachable s.database) (hd' : Reachable db)
    (ho : s.inTransaction = false) (hfuse : s.fuse = none) (hbreaks : s.breaks = none)
    (hc : c.Typed) (hu : c.user? = some user) (hb : user.id? = some b)
    (halike : Ledger.Alike (fun n => n == b) s.database.ledger db.ledger) :
    (c.run.exec { s with database := db }).1 = (c.run.exec s).1 ∧
      Ledger.Alike (fun n => n == b) (c.run.exec s).2.database.ledger
        (c.run.exec { s with database := db }).2.database.ledger := by
  have hblock : s.inBlock = false := Session.not_inBlock ho
  have hsees : (onlyOf user).sees = fun n => n == b := by
    funext n
    show (user.id? == some n) = (n == b)
    rw [hb, Option.some_beq_some, BEq.comm]
  have h : s.Beside (onlyOf user) { s with database := db } :=
    beside_of_alike s.enforce hd hd' hblock hfuse hbreaks (hsees ▸ halike) fun hv => hv.elim
  obtain ⟨r, t, t', run, run', beside, -, -, -⟩ := c.agrees_outside h hblock hc
    (Call.within_onlyOf hu) (fun _ _ => trivial) fun hv => hv.elim
  rw [run, run', ← hsees]
  exact ⟨rfl, beside.alike⟩

/-- The same with a first user who calls the currency otherwise and has removed the entry. -/
def otherNeighbours : List Call :=
  firstSpending ++ [Call.deleteEntry (.int 1) (.int 1),
    Call.updateCurrency (.int 1) (.int 1) (.text "CHF") .null,
    Call.registerUser (.text "bob") (.text "secret") (.text "USD")]

theorem typed_otherNeighbours : ∀ c ∈ otherNeighbours, c.Typed := by
  simp [otherNeighbours, firstSpending, registration, Call.Typed, Call.ids, EntryRequest.ids,
    Value.isId, Value.isNull, Value.id?]

/-- The second user takes a name for a currency that the first user may have taken as well, and
cannot find out. -/
theorem name_of_neighbour_not_shown :
    let s := newSession.after neighbours
    let db := (newSession.after otherNeighbours).database
    let c := Call.rename .currency (.int 2) (.int 2) (.text "EUR")
    s.database.ledger.currencies.rows.map (·.data.name) = ["EUR", "USD"] ∧
      db.ledger.currencies.rows.map (·.data.name) = ["CHF", "USD"] ∧
      (c.run.exec s).1.isOk = true ∧
      (c.run.exec { s with database := db }).1 = (c.run.exec s).1 ∧
      Ledger.Alike (fun n => n == 2) (c.run.exec s).2.database.ledger
        (c.run.exec { s with database := db }).2.database.ledger := by
  have hd := Reachable.after (s := newSession) .migrated rfl typed_neighbours
  have hd' := Reachable.after (s := newSession) .migrated rfl typed_otherNeighbours
  have hc : (Call.rename .currency (.int 2) (.int 2) (.text "EUR")).Typed := by
    simp [Call.Typed, Call.ids, Value.isId, Value.isNull, Value.id?]
  have halike : Ledger.Alike (fun n => n == 2) (newSession.after neighbours).database.ledger
      (newSession.after otherNeighbours).database.ledger := by
    constructor <;> decide +kernel
  exact ⟨by decide +kernel, by decide +kernel, by decide +kernel,
    Call.shows_own_rows_only hd hd' (by decide +kernel) (by decide +kernel)
      (by decide +kernel) hc rfl rfl halike⟩

end Bookkeeping.Service
