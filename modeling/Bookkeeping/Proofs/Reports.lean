import Bookkeeping.Proofs.Hushed
import Bookkeeping.Proofs.Layers
import Bookkeeping.Proofs.Ownership

/-! # What a call reports

A call that is rejected logs its rejection, and nothing else but that transactions were undone. A
call that changes something says what it has changed. An event may be logged before an operation is
over, so what follows it must not be rejected any more: reading rows never is, and nothing refers to
a row that is removed, since its references were counted before.
-/

namespace Bookkeeping.Store

variable {α β : Type} {s t : Session} {P Q : Log.Event → Prop}

/-! ## Reports -/

/-- What an operation has logged: events of some kind, and none of them if it is rejected. -/
structure Told (P : Log.Event → Prop) (s : Session) (r : Except Failure α) (t : Session)
    (events : List Log.Event) : Prop where
  log : t.log = s.log ++ events
  kinds : ∀ e ∈ events, IsRollback e ∨ P e
  rejected : ∀ x, r = .error (.rejected x) → ∀ e ∈ events, IsRollback e

/-- Whether an event informs about ids. -/
def Informs (ids : List (String × Value)) (e : Log.Event) : Prop := e.level = .info ∧ ids ⊆ e.fields

/-- The same for an operation that informs about what it has changed. -/
structure Reported (P : Log.Event → Prop) (ids : α → List (String × Value)) (s : Session)
    (r : Except Failure α) (t : Session) (events : List Log.Event) : Prop
    extends Told P s r t events where
  changed : ∀ a, r = .ok a → t.database = s.database ∨ ∃ e ∈ events, Informs (ids a) e

theorem Told.of_rollbacks {r : Except Failure α} {events : List Log.Event}
    (hlog : t.log = s.log ++ events) (hall : ∀ e ∈ events, IsRollback e) :
    Told P s r t events :=
  ⟨hlog, fun e he => .inl (hall e he), fun _ _ => hall⟩

/-- What was told after transactions were undone. -/
theorem Told.after {u : Session} {r : Except Failure α} {first events : List Log.Event}
    (hlog : t.log = s.log ++ first) (hall : ∀ e ∈ first, IsRollback e)
    (h : Told P t r u events) : Told P s r u (first ++ events) where
  log := by rw [h.log, hlog, List.append_assoc]
  kinds e he := (List.mem_append.1 he).elim (fun he => .inl (hall e he)) (h.kinds e)
  rejected x hx e he := (List.mem_append.1 he).elim (hall e) (h.rejected x hx e)

/-- What is told, with one event more and then transactions that are undone. -/
theorem Told.before {u : Session} {r : Except Failure α} {q : Except Failure β} {e : Log.Event}
    {events last : List Log.Event} (h : Told P s r t events) (he : P e)
    (hlog : u.log = t.log ++ [e] ++ last) (hall : ∀ e ∈ last, IsRollback e)
    (hq : ∀ x, q ≠ .error (.rejected x)) : Told P s q u (events ++ e :: last) where
  log := by rw [hlog, h.log]; simp
  kinds x hx := by
    rcases List.mem_append.1 hx with hx | hx
    · exact h.kinds x hx
    · rcases List.mem_cons.1 hx with rfl | hx
      · exact .inr he
      · exact .inl (hall x hx)
  rejected x hx := absurd hx (hq x)

/-- What is told of a failure that is no rejection. -/
theorem Reported.of_told {ids : α → List (String × Value)} {r : Except Failure β} {u : Session}
    {e : Failure}
    {events : List Log.Event} (h : Told P s r t events) (hlog : u.log = t.log)
    (he : ∀ x, e ≠ .rejected x) : Reported P ids s (.error e) u events where
  log := hlog.trans h.log
  kinds := h.kinds
  rejected x hx := absurd (Except.error.inj hx) (he x)
  changed _ ha := by cases ha

namespace Op

/-- An operation that is rejected before it logs anything. -/
def Tells (P : Log.Event → Prop) (op : Op α) (s : Session) : Prop :=
  ∃ events, Told P s (op.exec s).1 (op.exec s).2 events

/-- An operation that also informs about what it changes. -/
def Reports (P : Log.Event → Prop) (ids : α → List (String × Value)) (op : Op α) (s : Session) :
    Prop :=
  ∃ events, Reported P ids s (op.exec s).1 (op.exec s).2 events

/-- An operation that is not rejected. -/
def Firm (op : Op α) (s : Session) : Prop := ∀ x, (op.exec s).1 ≠ .error (.rejected x)

variable {ids : α → List (String × Value)} {g : Setting} {k : Grade} {Q : α → Prop} {R : β → Prop}

theorem Orderly.tells {op : Op α} (h : op.Orderly (.silent g) k Q) (hs : s.setting = g) :
    Tells P op s := by
  obtain ⟨events, hlog, hall⟩ := h.hushed hs
  exact ⟨events, .of_rollbacks hlog hall⟩

/-- What logs nothing and changes nothing has nothing to report. -/
theorem Orderly.reports {op : Op α} (h : op.Orderly (.silent g) k Q) (hs : s.setting = g)
    (hd : ∀ a t, op.exec s = (.ok a, t) → t.database = s.database) : Reports P ids op s := by
  obtain ⟨events, htold⟩ := h.tells (P := P) hs
  exact ⟨events, htold, fun a ha => .inl (hd a _ (Prod.ext ha rfl))⟩

/-- Something may be done silently first. -/
theorem Orderly.thenTells {x : Op β} {f : β → Op α} (hx : x.Orderly (.silent g) k R)
    (hs : s.setting = g)
    (hf : ∀ b t, x.exec s = (.ok b, t) → t.setting = g → Tells P (f b) t) : Tells P (x >>= f) s := by
  obtain ⟨first, hlog, hall⟩ := hx.hushed hs
  rw [Tells, exec_bind]
  cases hxs : x.exec s with
  | mk r t =>
    rw [hxs] at hlog
    cases r with
    | error e => exact ⟨first, .of_rollbacks hlog hall⟩
    | ok b =>
      obtain ⟨events, htold⟩ := hf b t hxs (hx.next hs hxs).2
      exact ⟨_, .after hlog hall htold⟩

/-- Something may be found out silently first. -/
theorem Orderly.thenReports {x : Op β} {f : β → Op α} (hx : x.Orderly (.silent g) k R)
    (hk : k.le .quiet = true) (hs : s.setting = g)
    (hf : ∀ b t, x.exec s = (.ok b, t) → R b → t.setting = g → t.database = s.database →
      Reports P ids (f b) t) : Reports P ids (x >>= f) s := by
  obtain ⟨first, hlog, hall⟩ := hx.hushed hs
  rw [Reports, exec_bind]
  cases hxs : x.exec s with
  | mk r t =>
    rw [hxs] at hlog
    cases r with
    | error e => exact ⟨first, .of_rollbacks hlog hall, by simp⟩
    | ok b =>
      obtain ⟨hb, hset⟩ := hx.next hs hxs
      have hsame := hx.database_eq hk hs hxs
      obtain ⟨events, hreport⟩ := hf b t hxs hb hset hsame
      refine ⟨_, .after hlog hall hreport.toTold, fun a ha => ?_⟩
      obtain hsame' | ⟨e, he, hinforms⟩ := hreport.changed a ha
      · exact .inl (hsame'.trans hsame)
      · exact .inr ⟨e, List.mem_append_right _ he, hinforms⟩

/-- What informs of itself when it is done. What is left to do then is not rejected. -/
theorem Tells.thenInforms {x : Op β} {y : β → Op α} {part : Log.Part} {event : String}
    {fields : β → List (String × Value)} (hx : Tells P x s)
    (hP : ∀ b t, x.exec s = (.ok b, t) → P ⟨.info, part.logger, event, fields b⟩)
    (hy : ∀ b g, (y b).Orderly (.silent g) .quiet fun _ => True) (hfirm : ∀ b t, Firm (y b) t)
    (hids : ∀ b t a u, (y b).exec t = (.ok a, u) → ids a ⊆ fields b) :
    Reports P ids (do let b ← x; emit .info part event (fields b); y b) s := by
  obtain ⟨events, htold⟩ := hx
  rw [Reports, exec_bind]
  cases hxs : x.exec s with
  | mk r t =>
    rw [hxs] at htold
    cases r with
    | error e =>
      refine ⟨events, ⟨htold.log, htold.kinds, fun x hx => htold.rejected x ?_⟩, by simp⟩
      cases hx
      rfl
    | ok b =>
      dsimp only
      rw [exec_bind, exec_emit]
      obtain ⟨last, hlog, hall⟩ := (hy b t.setting).hushed
        (s := { t with log := t.log ++ [⟨.info, part.logger, event, fields b⟩] }) rfl
      exact ⟨_, htold.before (hP b t hxs) hlog hall (hfirm b _), fun a ha =>
        .inr ⟨_, List.mem_append_right _ List.mem_cons_self, rfl, hids b _ a _ (Prod.ext ha rfl)⟩⟩

/-- An operation that ends with an event about itself. -/
theorem Tells.announced {x : Op α} {part : Log.Part} {event : String}
    {fields : α → List (String × Value)} (hx : Tells P x s)
    (hP : ∀ a t, x.exec s = (.ok a, t) → P ⟨.info, part.logger, event, fields a⟩)
    (hids : ∀ a, ids a ⊆ fields a) :
    Reports P ids (do let a ← x; emit .info part event (fields a); pure a) s :=
  hx.thenInforms hP (fun _ _ => .pure trivial) (fun _ _ _ => by simp) fun b t a u h => by
    cases h
    exact hids b

/-- However a block ends, it reports what its body did. -/
theorem Reports.transaction {body : Op α} (h : Reports P ids body s.start) (ho : s.inBlock = false) :
    Reports P ids (transaction body) s := by
  obtain ⟨events, hreport⟩ := h
  have hbody {r : Except Failure α} {u : Session} (hb : body.exec s.start = (r, u)) :
      Reported P ids s r u events := by
    rw [hb] at hreport
    exact ⟨⟨hreport.log, hreport.kinds, hreport.rejected⟩, hreport.changed⟩
  have hnone : Told P s (.ok ()) s [] := .of_rollbacks (by simp) (by simp)
  obtain ⟨r, t, hx⟩ : ∃ r t, (Store.transaction body).exec s = (r, t) := ⟨_, _, rfl⟩
  rw [Reports, hx]
  cases ending_of_exec ho hx with
  | barred m => exact ⟨[], .of_told hnone rfl (by simp)⟩
  | unbegun x => exact ⟨[], .of_told hnone rfl (by cases x <;> simp [Trouble.failure])⟩
  | lost hb => exact ⟨events, .of_told (hbody hb).toTold rfl (by simp)⟩
  | putOff hb =>
    have htold := (hbody hb).toTold
    exact ⟨events, .of_told htold (Session.log_leaveOpen _) (by simp [Trouble.failure])⟩
  | failed hb =>
    have htold := (hbody hb).toTold
    exact ⟨events, .of_told htold (Session.log_abandon _) (by simp [Trouble.failure])⟩
  | committed hb => exact ⟨events, ⟨(hbody hb).log, (hbody hb).kinds, by simp⟩, (hbody hb).changed⟩
  | @undone e u hb =>
    have hroll : IsRollback (Session.rollbackEvent u.path) := ⟨u.path, rfl⟩
    refine ⟨events ++ [Session.rollbackEvent u.path], ⟨?_, fun e he => ?_, fun x hx e he => ?_⟩,
      by simp⟩
    · rw [Session.log_rollBack, (hbody hb).log, List.append_assoc]
    · rcases List.mem_append.1 he with he | he
      · exact (hbody hb).kinds e he
      · exact .inl (List.mem_singleton.1 he ▸ hroll)
    · rcases List.mem_append.1 he with he | he
      · exact (hbody hb).rejected x hx e he
      · exact List.mem_singleton.1 he ▸ hroll

/-! ### Outside of a block -/

/-- An operation that reports wherever it is run outside of a block. -/
def Reporting (g : Setting) (P : Log.Event → Prop) (ids : α → List (String × Value)) (op : Op α) :
    Prop :=
  ∀ s : Session, s.setting = g → s.inBlock = false → Reports P ids op s

/-- Something may be found out first. -/
theorem reporting_after [hk : k.Before .quiet] {x : Op β} {f : β → Op α}
    (hx : x.Orderly (.silent g) k R) (hf : ∀ b, R b → Reporting g P ids (f b)) :
    Reporting g P ids (x >>= f) := by
  intro s hs ho
  refine hx.thenReports (Grade.le_of_before hk.before) hs fun b t ht hb hset _ => hf b hb t hset ?_
  exact (hx.next_outside hs ho ht).2.2

theorem reporting_lift {r : Except Failure β} {f : β → Op α}
    (hf : ∀ b, r = .ok b → Reporting g P ids (f b)) : Reporting g P ids (lift r >>= f) :=
  reporting_after (.lift r) hf

theorem Reporting.ite {c : Prop} [Decidable c] {x y : Op α} (hx : Reporting g P ids x)
    (hy : Reporting g P ids y) : Reporting g P ids (if c then x else y) := by
  split
  · exact hx
  · exact hy

/-- A value that may be missing is checked if it is there. -/
theorem Reporting.optionally {c : Bool} {x : Except Failure β} {f : Option β → Op α}
    (hf : ∀ b, (∀ v ∈ b, x = .ok v) → Reporting g P ids (f b)) :
    Reporting g P ids
      (if c = true then do let b ← pure none; f b else do let b ← some <$> lift x; f b) := by
  refine .ite (reporting_after (k := .quiet) (.pure (by simp)) hf) ?_
  have hx : (some <$> lift x).Orderly (.silent g) .quiet fun b => ∀ v ∈ b, x = .ok v := by
    rw [map_eq_pure_bind]
    refine (Orderly.lift x).bind fun a ha => .pure fun b hb => ?_
    rwa [← Option.some.inj hb]
  exact reporting_after hx hf

/-- What is logged without anything having been changed. -/
theorem reporting_emit {level : Log.Level} {part : Log.Part} {event : String}
    {fields : List (String × Value)} (hP : P ⟨level, part.logger, event, fields⟩) (a : α) :
    Reporting g P ids (do emit level part event fields; pure a) :=
  fun s _ _ => ⟨[⟨level, part.logger, event, fields⟩],
    ⟨rfl, fun _ he => .inr (List.mem_singleton.1 he ▸ hP), by rintro _ ⟨⟩⟩,
    fun _ _ => .inl rfl⟩

/-- What is done silently and then announced. -/
theorem Orderly.reporting {x : Op α} {part : Log.Part} {event : String}
    {fields : α → List (String × Value)} (hx : x.Orderly (.silent g) k Q)
    (hP : ∀ a, P ⟨.info, part.logger, event, fields a⟩) (hids : ∀ a, ids a ⊆ fields a) :
    Reporting g P ids (do let a ← x; Store.emit .info part event (fields a); Pure.pure a) :=
  fun _ hs _ => (hx.tells hs).announced (fun a _ _ => hP a) hids

end Op

/-! ## What is not rejected -/

/-- A result that is not a rejection. -/
def Unrejected (r : Except Failure α) : Prop := ∀ x, r ≠ .error (.rejected x)

theorem unrejected_ok (a : α) : Unrejected (.ok a) := fun _ => by simp

theorem Unrejected.bind {r : Except Failure β} {f : β → Except Failure α} (hr : Unrejected r)
    (hf : ∀ b, Unrejected (f b)) : Unrejected (r >>= f) := by
  cases r with
  | ok b => exact hf b
  | error e =>
    rintro x ⟨⟩
    exact hr x rfl

theorem unrejected_param (v : Value) : Unrejected (param v) := by
  intro x
  unfold param
  cases Cell.ofValue v <;> simp [Except.mapError]

theorem unrejected_open? (db : Database) (name : TableName) : Unrejected (db.open? name) := by
  intro x
  unfold Database.open?
  split <;> simp

namespace Op

theorem firm_pure (a : α) (s : Session) : Firm (pure a) s := fun _ => by simp

theorem firm_lift {r : Except Failure α} (h : Unrejected r) (s : Session) : Firm (lift r) s := h

theorem Firm.bind {x : Op β} {f : β → Op α} (hx : Firm x s)
    (hf : ∀ b t, x.exec s = (.ok b, t) → Firm (f b) t) : Firm (x >>= f) s := by
  intro r
  rw [exec_bind]
  have h := hx r
  cases hxs : x.exec s with
  | mk q t =>
    rw [hxs] at h
    cases q with
    | ok b => exact hf b t hxs r
    | error e =>
      rintro ⟨⟩
      exact h rfl

/-- A transaction is rejected only if its body is. -/
theorem firm_transaction {body : Op α} (hb : ∀ u : Session, u.Resembles s → Firm body u) :
    Firm (transaction body) s := by
  cases hin : s.inBlock with
  | true =>
    unfold Firm
    rw [exec_transaction_inside _ hin]
    exact hb s (.refl s)
  | false =>
    intro x
    have h := hb s.start (resembles_start s) x
    obtain ⟨r, t, hx⟩ : ∃ r t, (transaction body).exec s = (r, t) := ⟨_, _, rfl⟩
    rw [hx]
    cases ending_of_exec hin hx with
    | undone hbody =>
      rw [hbody] at h
      exact fun he => h (by cases he; rfl)
    | unbegun y => cases y <;> simp [Trouble.failure]
    | barred m | lost hbody | putOff hbody | failed hbody | committed hbody =>
      simp [Trouble.failure]

end Op

open Op

/-- A statement may be broken off, which is no rejection. -/
theorem firm_statement {run : Session → Except Failure (α × Database)}
    (h : ∀ u : Session, u.Resembles s → Unrejected (run u)) : Firm (statement run) s := by
  refine firm_transaction fun u hu => Firm.bind (fun x => ?_) fun _ t ht => ?_
  · rw [countStatement, exec_of]
    split <;> simp [Trouble.failure]
  · have hrun := h t ((countStatement_resembles ht).trans hu)
    intro x
    rw [replacing, exec_of]
    cases hr : run t with
    | ok out => simp
    | error e =>
      rintro ⟨⟩
      exact hrun x hr

section

variable {ρ : Type} [Persistent ρ α]

/-- Looking for a row is not rejected. -/
theorem firm_find (hdecode : ∀ layout (r : Row ρ), Unrejected (Persistent.decode layout r))
    (id : Value) (s : Session) : Firm (find ρ id) s := by
  refine Firm.bind (firm_statement fun u _ => (unrejected_open? _ _).bind fun l =>
    ((unrejected_param id).bind fun c => unrejected_ok _).bind fun b => unrejected_ok _)
      fun found t _ => ?_
  cases found with
  | none => exact firm_pure none t
  | some r =>
    refine Firm.bind (x := get) (fun _ => by simp) fun v w _ => ?_
    rw [map_eq_pure_bind]
    exact Firm.bind (firm_lift (hdecode _ _) _) fun a _ _ => firm_pure _ _

/-- Removing a row is not rejected if the ledger lets go of it. -/
theorem firm_delete {id : Value} (h : ∀ c, param id = .ok c → ∀ enforce,
      ∃ out, s.database.ledger.remove enforce (fun r : Row ρ => c.isInteger (.integer r.id))
        = .ok out) :
    Firm (delete ρ id) s := by
  refine Firm.bind (firm_transaction fun u hu => Firm.bind (firm_statement fun v _ => ?_)
    fun changed t hs => ?_) fun n t _ => firm_pure _ _
  · refine Unrejected.bind ((unrejected_open? _ _).bind fun l => (unrejected_param id).bind fun c =>
      unrejected_ok _) fun stored => ?_
    cases stored <;> exact unrejected_ok _
  · obtain ⟨v, hv, hrun⟩ := statement_ok hs
    obtain ⟨stored, hstored, hchanged⟩ := Service.except_bind_ok_iff.1 hrun
    obtain ⟨l, hl, hrem⟩ := Service.except_bind_ok_iff.1 hstored
    obtain ⟨c, hc, hrem⟩ := Service.except_bind_ok_iff.1 hrem
    obtain ⟨out, hout⟩ := h c hc v.enforce
    rw [open?_ok hl, hv, hu.database, hout] at hrem
    cases hrem
    obtain ⟨rfl, -⟩ := Prod.mk.inj (Except.ok.inj hchanged)
    exact fun x => by simp [obey]

end

/-! ## A currency that nothing is held in -/

/-- The ledger lets go of a currency that no source and no entry is held in. -/
theorem removes_unusedCurrency {l : Ledger} {c : Cell}
    (hsources : ∀ x ∈ l.sources.rows, c.isInteger (.integer x.data.currency) = false)
    (hentries : ∀ e ∈ l.entries.rows, c.isInteger (.integer e.data.currency) = false)
    (enforce : Bool) :
    ∃ out, l.remove enforce (fun r : Row Currency => c.isInteger (.integer r.id)) = .ok out := by
  cases enforce with
  | false => exact ⟨_, rfl⟩
  | true =>
    have hunused : ∀ r ∈ l.currencies.rows, c.isInteger (.integer r.id) = true →
        l.usesCurrency r.id = false := by
      intro r _ hr
      rw [Ledger.usesCurrency, Bool.or_eq_false_iff, List.any_eq_false, List.any_eq_false]
      refine ⟨fun x hx hcur => ?_, fun e he hcur => ?_⟩
      · have hfree := hsources x hx
        rw [beq_iff_eq.1 hcur, hr] at hfree
        cases hfree
      · have hfree := hentries e he
        rw [beq_iff_eq.1 hcur, hr] at hfree
        cases hfree
    have hrem : Relation.remove l (fun r : Row Currency => c.isInteger (.integer r.id))
        = l.removeCurrencies fun r => c.isInteger (.integer r.id) := rfl
    simp only [Ledger.remove, if_true, hrem, Ledger.removeCurrencies, removeUnused_of hunused]
    exact ⟨_, rfl⟩

/-- What is counted for a currency says whether anything is held in it. -/
theorem free_of_currencyReferences (hi : Intact s.database.ledger) {id : Value}
    {counts : List (String × Nat)} (hx : (currencyReferences id).exec s = (.ok counts, t))
    (hzero : ∀ n ∈ counts, n.2 = 0) {c : Cell} (hc : param id = .ok c) :
    (∀ x ∈ s.database.ledger.sources.rows, c.isInteger (.integer x.data.currency) = false) ∧
      ∀ e ∈ s.database.ledger.entries.rows, c.isInteger (.integer e.data.currency) = false := by
  have hcounts := select_gives Source hx
  simp only [hc, bind, Except.bind, Except.ok.injEq] at hcounts
  subst hcounts
  refine ⟨fun x hx => ?_, fun e he => ?_⟩
  · have hnone := Table.count_eq_zero.1 (hzero _ List.mem_cons_self) x hx
    rwa [Source.currencyCell, Row.cell_of_odd_nil x (hi.sources.tidy.proper x hx)] at hnone
  · have hnone := Table.count_eq_zero.1 (hzero _ (List.mem_cons_of_mem _ List.mem_cons_self)) e he
    rwa [StoredEntry.currencyCell, Row.cell_of_odd_nil e (hi.entries.proper e he)] at hnone

/-- Only users change when nobody is to report in a currency any more. -/
theorem clearFixedCurrency_keeps {id : Value} {n : Nat}
    (hx : (clearFixedCurrency id).exec s = (.ok n, t)) :
    t.database.ledger.sources = s.database.ledger.sources ∧
      t.database.ledger.entries = s.database.ledger.entries := by
  obtain ⟨e, herr, -⟩ | ⟨b, l, u, -, hrun, -, hdb, -⟩ := write_cases User hx
  · cases herr
  · obtain ⟨c, -, hl⟩ := Service.except_bind_ok_iff.1 hrun
    cases hl
    rw [hdb]
    exact ⟨rfl, rfl⟩

end Bookkeeping.Store

namespace Bookkeeping.Service

open Store Store.Op

variable {α β : Type} {s t : Session} {P : Log.Event → Prop} {ids : α → List (String × Value)}

/-- An event may come before what is not rejected. -/
theorem tells_emit {part : Log.Part} {event : String} {fields : List (String × Value)} {y : Op α}
    {k : Grade} {Q : α → Prop} (hP : P ⟨.info, part.logger, event, fields⟩)
    (hy : y.Orderly (.silent s.setting) k Q)
    (hfirm : ∀ t : Session, t.database = s.database → Firm y t) :
    Tells P (do emit .info part event fields; y) s := by
  obtain ⟨last, hlog, hall⟩ :=
    hy.hushed (s := { s with log := s.log ++ [⟨.info, part.logger, event, fields⟩] }) rfl
  have hnone : Told P s (.ok ()) s [] := .of_rollbacks (by simp) (by simp)
  exact ⟨_, hnone.before hP hlog hall (hfirm _ rfl)⟩

/-- A currency goes without a rejection once users have been released from it. -/
theorem tells_releaseCurrency (hi : Intact s.database.ledger) {id : Value}
    {counts : List (String × Nat)} {u : Session} (hsame : u.database = s.database)
    (hx : (currencyReferences id).exec s = (.ok counts, t)) (hzero : ∀ n ∈ counts, n.2 = 0)
    (hP : ∀ n : Int, P ⟨.info, Log.Part.currencies.logger, "Fixed currency cleared",
      [("currency_id", id), ("users", .int n)]⟩) :
    Tells P (do releaseCurrency id; delete Currency id) u := by
  have hdelete (g : Setting) : (delete Currency id).Orderly (.silent g) .loose fun _ => True :=
    orderly_delete (T := .silent g) Currency (fun _ hI => hI.currencies.toWithstands) id
  rw [releaseCurrency, bind_assoc]
  refine (orderly_clearFixedCurrency id).thenTells rfl fun n v hv hset => ?_
  obtain ⟨hsources, hentries⟩ := clearFixedCurrency_keeps hv
  have hfirm (w : Session) (hw : w.database = v.database) : Firm (delete Currency id) w := by
    refine firm_delete fun c hc => removes_unusedCurrency ?_ ?_
    · rw [hw, hsources, hsame]
      exact (free_of_currencyReferences hi hx hzero hc).1
    · rw [hw, hentries, hsame]
      exact (free_of_currencyReferences hi hx hzero hc).2
  split
  · exact tells_emit (hP _) (hdelete _) hfirm
  · exact (hdelete _).tells rfl

end Bookkeeping.Service
