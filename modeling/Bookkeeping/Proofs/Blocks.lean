import Bookkeeping.Proofs.Acceptance
import Bookkeeping.Proofs.CallAgreement

/-! # Calls within a block

Calls may be made within a block that is one unit, which they join: there is no saving of what was
there before a call, so nothing but the end of the whole block undoes what a call has written. A
block that catches the failure of a call and goes on keeps whatever the call had written before it
failed. That is nothing, since calls check before they write. Only a balance that is no longer finite
is found out later; and where there is no room for a row the engine undoes the whole block.
-/

namespace Bookkeeping.Service

open Store Op Calendar

/-! ## Blocks that go on -/

/-- Makes a call and catches its failure. -/
def attempt (c : Call) : Op (Except Failure Answer) :=
  tryCatch (Except.ok <$> c.run) fun e => pure (.error e)

/-- Makes calls one after the other, whatever comes of each. -/
def attempts : List Call → Op (List (Except Failure Answer))
  | [] => pure []
  | c :: rest => do
    let r ← attempt c
    let rs ← attempts rest
    pure (r :: rs)

variable {s : Session} {before : List Call} {c : Call} {e : Failure}

theorem exec_attempt (c : Call) (s : Session) :
    (attempt c).exec s = (.ok (c.run.exec s).1, (c.run.exec s).2) := by
  rw [attempt, exec_tryCatch, exec_map]
  cases h : c.run.exec s with
  | mk r t => cases r <;> rfl

theorem exec_attempts (calls : List Call) (s : Session) :
    ∃ rs, (attempts calls).exec s = (.ok rs, s.after calls) := by
  induction calls generalizing s with
  | nil => exact ⟨[], rfl⟩
  | cons c rest ih =>
    obtain ⟨rs, hrs⟩ := ih (c.run.exec s).2
    refine ⟨(c.run.exec s).1 :: rs, ?_⟩
    rw [attempts, exec_bind_ok (exec_attempt c s), exec_bind_ok hrs]
    rfl

/-- However the end of a block finds its transaction, what has been written so far is there. -/
theorem database_closeBlock (h : s.breaks = none) : (closeBlock.exec s).2.database = s.database := by
  rw [closeBlock, exec_of, Session.trouble?_of_breaks h]
  split <;> first | rfl | contradiction

/-- A block that goes on whatever comes of its calls keeps what they have written. -/
theorem database_block (ho : s.inBlock = false) (hs : s.breaks = none) {calls : List Call}
    (ht : (s.start.after calls).breaks = none) :
    ((transaction (attempts calls)).exec s).2.database = (s.start.after calls).database := by
  obtain ⟨rs, hrs⟩ := exec_attempts calls s.start
  rw [exec_transaction_outside _ ho, exec_bind_ok (exec_openBlock hs), exec_bind, exec_undoing, hrs,
    ← database_closeBlock ht]
  simp only [exec_bind]
  cases closeBlock.exec (s.start.after calls) with
  | mk r t => cases r <;> rfl

/-! ## What a block keeps of its calls -/

/-- Everybody is in view, and clocks show the time. -/
def timelyWith (late : Failure → Prop) : Scope where
  sees _ := true
  strict := False
  timely := True
  late := late

/-- A call within a block succeeds and leaves an intact ledger; or it fails, and leaves an intact
ledger as well, which is the one there was unless the call fails late. -/
theorem Call.within_block {late : Failure → Prop} (h : s.Beside (timelyWith late) s)
    (hin : s.inBlock = true) (hc : c.Typed) :
    (c.run.exec s).2.Beside (timelyWith late) (c.run.exec s).2 ∧
      (c.run.exec s).2.inBlock = true ∧
      ∀ e, (c.run.exec s).1 = .error e → ¬ c.Late s.database.ledger e →
        (c.run.exec s).2.database = s.database := by
  have hwithin : c.Within (timelyWith (c.Late s.database.ledger)) := by
    unfold Call.Within
    split
    · exact fun _ _ => rfl
    · exact fun _ => rfl
  -- the session is run beside itself, and what it is compared by allows the late failures only
  have h' : s.Beside (timelyWith (c.Late s.database.ledger)) s := h.relate rfl id
  cases c.agrees h' hc hwithin (fun _ => id) fun hv => hv.elim with
  | ok run run' beside follows =>
    obtain rfl := (Prod.mk.inj (run.symm.trans run')).2
    rw [run]
    exact ⟨beside.relate rfl id, follows.inBlock hin, fun e he => by cases he⟩
  | error run run' _ fallen _ kept =>
    obtain rfl := (Prod.mk.inj (run.symm.trans run')).2
    obtain ⟨beside, hkept⟩ := kept trivial
    rw [run]
    refine ⟨beside.relate rfl id, fallen.inBlock hin, fun e he hlate => ?_⟩
    cases he
    exact (hkept.resolve_left hlate).2.1

/-- Calls within a block leave intact ledgers, whatever comes of each. -/
theorem beside_after {late : Failure → Prop} (h : s.Beside (timelyWith late) s)
    (hin : s.inBlock = true) (hbefore : ∀ b ∈ before, b.Typed) :
    (s.after before).Beside (timelyWith late) (s.after before) ∧
      (s.after before).inBlock = true := by
  induction before generalizing s with
  | nil => exact ⟨h, hin⟩
  | cons b rest ih =>
    obtain ⟨hb, hinb, -⟩ := Call.within_block h hin (hbefore b List.mem_cons_self)
    exact ih hb hinb fun x hx => hbefore x (List.mem_cons_of_mem b hx)

/-- A call that fails within a block, but not late, leaves the database as it was; so the block leaves
what it would have left without the call. Nothing is broken off from outside, and the clock shows a
time. -/
theorem Call.caught_failure_leaves_nothing (hd : Reachable s.database)
    (ho : s.inTransaction = false) (hfuse : s.fuse = none) (hbreaks : s.breaks = none)
    (hnow : ∃ m : Moment, s.now = m.toText) (hbefore : ∀ b ∈ before, b.Typed) (hc : c.Typed)
    (hx : (c.run.exec (s.start.after before)).1 = .error e)
    (he : ¬ c.Late (s.start.after before).database.ledger e) :
    (c.run.exec (s.start.after before)).2.database = (s.start.after before).database ∧
      ((transaction (attempts (before ++ [c]))).exec s).2.database
        = ((transaction (attempts before)).exec s).2.database := by
  have hblock : s.inBlock = false := Session.not_inBlock ho
  have h : s.Beside (timelyWith fun _ => True) s :=
    beside_of_alike s.enforce hd hd hblock hfuse hbreaks (.refl _ _) fun _ => hnow
  obtain ⟨hbeside, hin⟩ := beside_after h.start rfl hbefore
  obtain ⟨hafter, -, hsame⟩ := Call.within_block hbeside hin hc
  have hdb := hsame e hx he
  have happend : s.start.after (before ++ [c]) = (c.run.exec (s.start.after before)).2 := by
    rw [Session.after, List.foldl_append]
    rfl
  refine ⟨hdb, ?_⟩
  rw [database_block hblock hbreaks (happend ▸ hafter.breaks.1),
    database_block hblock hbreaks hbeside.breaks.1, happend, hdb]

/-- A source that is in use is not removed after bread was bought, and the bread stays bought. -/
theorem caught_removal_leaves_nothing :
    let s := newSession.after (firstSpending.take 3)
    let bought := [Call.createEntry (.int 1) (some { bread with amount := .float 3 }) []]
    let removal := Call.delete .source (.int 1) (.int 1)
    (removal.run.exec (s.start.after bought)).1.isOk = false ∧
      ((transaction (attempts (bought ++ [removal]))).exec s).2.database
        = ((transaction (attempts bought)).exec s).2.database ∧
      ((transaction (attempts bought)).exec s).2.database.ledger.entries.rows.length = 1 := by
  intro s bought removal
  have hd : Reachable s.database :=
    Reachable.after (s := newSession) .migrated rfl fun c hc =>
      typed_firstSpending c (List.mem_of_mem_take hc)
  have hnow : ∃ m : Moment, s.now = m.toText :=
    ⟨⟨⟨2024, 1, 25, by decide⟩, { hour := 9, minute := 30, second := 0, micro := 0 }, none⟩,
      by decide +kernel⟩
  have hbought : ∀ b ∈ bought, b.Typed := by
    simp [bought, bread, Call.Typed, Call.ids, EntryRequest.ids, Value.isId, Value.isNull, Value.id?]
  have hremoval : removal.Typed := by
    simp [removal, Call.Typed, Call.ids, Value.isId, Value.isNull, Value.id?]
  obtain ⟨r, hx⟩ : ∃ r, (removal.run.exec (s.start.after bought)).1 = .error (.rejected r) :=
    rejection_of_isRejection (by decide +kernel)
  have hlate : ¬ removal.Late (s.start.after bought).database.ledger (.rejected r) := by
    rintro (h | h)
    · cases h
    · exact h
  refine ⟨by rw [hx]; rfl, ?_, by decide +kernel⟩
  exact (Call.caught_failure_leaves_nothing hd (by decide +kernel) (by decide +kernel)
    (by decide +kernel) hnow hbought hremoval hx hlate).2

/-- An income that a full balance cannot take is refused, but if the block goes on, its entry stays,
and the balance is as it was. -/
theorem caught_overflow_leaves_entry :
    let s := newSession.after [registration, .createCategory (.int 1) (.text "Salary"),
      .createSource (.int 1) (.text "Cash") (.int 1) (.float 1e308)]
    let income := Call.createEntry (.int 1) (some { bread with
      kind := .text "income", amount := .float 1e308 }) []
    Reachable s.database ∧ s.inTransaction = false ∧ income.Typed ∧
      (income.run.exec s.start).1.isOk = false ∧
      ((transaction (attempts [income])).exec s).1.isOk = true ∧
      s.database.ledger.entries.rows.length = 0 ∧
      ((transaction (attempts [income])).exec s).2.database.ledger.entries.rows.length = 1 ∧
      ((transaction (attempts [income])).exec s).2.database.ledger.sources
        = s.database.ledger.sources := by
  intro s income
  have hc : ∀ c ∈ [registration, Call.createCategory (.int 1) (.text "Salary"),
      Call.createSource (.int 1) (.text "Cash") (.int 1) (.float 1e308)], c.Typed := by
    simp [registration, Call.Typed, Call.ids, Value.isId, Value.isNull, Value.id?]
  have hincome : income.Typed := by
    simp [income, bread, Call.Typed, Call.ids, EntryRequest.ids, Value.isId, Value.isNull, Value.id?]
  exact ⟨Reachable.after (s := newSession) .migrated rfl hc, by decide +kernel, hincome,
    by decide +kernel, by decide +kernel, by decide +kernel, by decide +kernel, by decide +kernel⟩

end Bookkeeping.Service
