import Bookkeeping.Proofs.Balances
import Bookkeeping.Proofs.Refusals
import Bookkeeping.Proofs.RoundTrips
import Bookkeeping.Proofs.Sums

/-! # Shifts of balances

A shift adds to the balance of one source and changes nothing else, as long as the sum is a finite
number. If it is not, or if there is no such source, no row changes. So balances stay finite, whatever
shifts are tried.
-/

namespace Bookkeeping.Store

open Op Number

/-- A session whose database has its tables, and whose work nothing breaks off from outside. -/
structure Session.Unbroken (s : Session) : Prop where
  tables : s.database.layout.tables = true
  fuse : s.fuse = none
  breaks : s.breaks = none

/-- Every source has an id of its own, and its balance is a finite number as a column of doubles holds
it. -/
structure Ledger.FiniteBalances (l : Ledger) : Prop where
  nodup : (l.sources.rows.map Row.id).Nodup
  fits : ∀ r ∈ l.sources.rows, fitsInteger r.id = true
  finite : ∀ r ∈ l.sources.rows, ∃ x, Source.amountCell r = .real x ∧ isFinite x = true ∧
    unsigned x = x

/-- The ledger with another balance in the source of an id, and all else as it is. -/
def Ledger.withBalance (l : Ledger) (id : Int) (x : Float) : Ledger :=
  { l with sources := l.sources.change (fun r => r.id == id) fun r =>
      r.put "amount" { r.data with amount := x } }

/-! ## What the statement does -/

section

variable {l : Ledger} {r : Row Source} {x d : Float} {c : Cell}

theorem amountCell_put (r : Row Source) (x : Float) :
    Source.amountCell (r.put "amount" { r.data with amount := x }) = .real x := by
  have hnone : (r.oddBut "amount").lookup "amount" = none := by
    refine List.lookup_eq_none_iff.2 fun f hf => ?_
    have hother : (f.1 != "amount") = true := (List.mem_filter.1 hf).2
    rwa [bne_comm] at hother
  rw [Source.amountCell, Row.cell, Row.put, hnone, Option.getD_none]

/-- Whatever a balance is shifted by, what it may become is finite. -/
theorem finite_of_shifted? {y : Float} (h : shifted? (.real x) c = some y) :
    isFinite y = true ∧ unsigned y = y := by
  have hsum : (Cell.real x).plus c = .null ∨ ∃ z, (Cell.real x).plus c = .ofResult z := by
    unfold Cell.plus
    cases c.operand with
    | integer n => exact .inr ⟨_, rfl⟩
    | real z => exact .inr ⟨_, rfl⟩
    | _ => exact .inl rfl
  rw [shifted?] at h
  obtain hnull | ⟨z, hz⟩ := hsum
  · rw [hnull] at h
    cases h
  · rw [hz, Cell.ofResult] at h
    cases hn : isNaN z <;> rw [hn] at h
    · cases hf : isFinite z <;> simp [Cell.isFiniteNumber, Cell.asReal, hf] at h
      subst h
      exact ⟨isFinite_unsigned hf, unsigned_unsigned z⟩
    · cases h

theorem Ledger.FiniteBalances.shiftSources (h : l.FiniteBalances) (p : Row Source → Bool)
    (c : Cell) : (shiftSources l p c).2.FiniteBalances := by
  have hids : (Store.shiftSources l p c).2.sources.rows.map Row.id = l.sources.rows.map Row.id :=
    Table.map_id_change fun _ => rfl
  refine ⟨hids ▸ h.nodup, fun r hr => ?_, fun r hr => ?_⟩
  · have hmem : r.id ∈ l.sources.rows.map Row.id := hids ▸ List.mem_map_of_mem hr
    obtain ⟨o, ho, hid⟩ := List.mem_map.1 hmem
    exact hid ▸ h.fits o ho
  · obtain ⟨o, ho, rfl⟩ := Table.mem_change.1 hr
    obtain ⟨x, hx, hfinite⟩ := h.finite o ho
    split
    · rename_i hmoves
      rw [Bool.and_eq_true, Option.isSome_iff_exists] at hmoves
      obtain ⟨-, y, hy⟩ := hmoves
      rw [hy, Option.getD_some]
      exact ⟨y, amountCell_put o y, finite_of_shifted? (hx ▸ hy)⟩
    · exact ⟨x, hx, hfinite⟩

theorem Ledger.FiniteBalances.find?_eq (h : l.FiniteBalances) (hr : r ∈ l.sources.rows) :
    l.sources.rows.find? (fun o => o.id == r.id) = some r := by
  cases hfind : l.sources.rows.find? fun o => o.id == r.id with
  | none => exact absurd (List.find?_eq_none.1 hfind r hr) (by simp)
  | some o =>
    have hid : o.id = r.id := by simpa using List.find?_some hfind
    rw [List.inj_on_of_nodup_map h.nodup (List.mem_of_find?_eq_some hfind) hr hid]

/-- Where no selected balance can be shifted, nothing is. -/
theorem shiftSources_idle {p : Row Source → Bool}
    (h : ∀ r ∈ l.sources.rows, p r = true → shifted? (Source.amountCell r) c = none) :
    shiftSources l p c = (0, l) := by
  have hcount : (shiftSources l p c).1 = 0 := by
    refine Table.count_eq_zero.2 fun r hr => ?_
    cases hp : p r with
    | false => rfl
    | true => simp [h r hr hp]
  exact Prod.ext hcount (shiftSources_of_none hcount)

section

variable (h : l.FiniteBalances) (hr : r ∈ l.sources.rows) (hx : Source.amountCell r = .real x)
  (hc : param (.float d) = .ok c)

include h hr hx hc

/-- A source whose sum is finite gets it as its balance. -/
theorem shiftSources_of_finite (hf : isFinite (x + d) = true) :
    ∃ n, 0 < n ∧
      shiftSources l (fun o => o.id == r.id) c = (n, l.withBalance r.id (x + d)) := by
  obtain ⟨y, hy, -, hunsigned⟩ := h.finite r hr
  obtain rfl : y = x := Cell.real.inj (hy.symm.trans hx)
  have hshifted : shifted? (Source.amountCell r) c = some (y + d) := by
    rw [hx, shifted?_of_param y hc, if_pos hf, unsigned_add hunsigned]
  -- the row of the id is moved, and it is the only one
  refine ⟨_, ?_, Prod.ext rfl ?_⟩
  · refine List.length_pos_of_mem (List.mem_filter.2 ⟨hr, ?_⟩)
    rw [hshifted]
    simp
  · show { l with sources := l.sources.change _ _ } = l.withBalance r.id (y + d)
    unfold Ledger.withBalance Table.change
    congr 2
    refine List.map_congr_left fun o ho => ?_
    by_cases hid : o.id = r.id
    · obtain rfl : o = r := List.inj_on_of_nodup_map h.nodup ho hr hid
      simp [hshifted]
    · simp [hid]

/-- A source whose sum is no finite number keeps its balance. -/
theorem shiftSources_of_infinite (hf : isFinite (x + d) = false) :
    shiftSources l (fun o => o.id == r.id) c = (0, l) := by
  refine shiftSources_idle fun o ho hid => ?_
  obtain rfl : o = r := List.inj_on_of_nodup_map h.nodup ho hr (beq_iff_eq.1 hid)
  rw [hx, shifted?_of_param x hc, hf, if_neg Bool.false_ne_true]

end

theorem shiftSources_of_absent {id : Int} (h : ∀ r ∈ l.sources.rows, r.id ≠ id) (c : Cell) :
    shiftSources l (fun o => o.id == id) c = (0, l) :=
  shiftSources_idle fun o ho hid => absurd (beq_iff_eq.1 hid) (h o ho)

end

/-! ## What becomes of a shift -/

section

variable {s : Session} {id : Int} {d : Float}

/-- A statement that is refused before it changes anything. -/
theorem exec_write_refused (ρ : Type) {α β : Type} [Persistent ρ α] (hb : s.breaks = none)
    (ht : s.database.layout.tables = true) {deleting : Bool} {e : Failure}
    {run : Session → Ledger → Except Failure (Stored (β × Ledger))}
    (hrun : ∀ v, run v s.database.ledger = .error e) :
    ∃ t, (write ρ deleting run).exec s = (.error e, t) ∧ t.database = s.database ∧
      t.TakesOver s := by
  have hinside (v : Session) (hin : v.inBlock = true) (hv : v.breaks = none)
      (hd : v.database = s.database) : (write ρ deleting run).exec v = (.error e, v) := by
    rw [exec_write_inside ρ hin hv (by rw [hd, ht]), hd, hrun v]
  cases hin : s.inBlock with
  | true => exact ⟨s, hinside s hin hb rfl, rfl, .refl hb⟩
  | false =>
    have hfree : s.start.breaks = none := Session.hindrance_of_breaks hb
    have hstart := hinside s.start rfl hfree rfl
    rw [write, change, exec_transaction_inside _ rfl] at hstart
    exact ⟨_, exec_transaction_error hin hb hstart, rfl, (Session.TakesOver.refl hfree).rollBack hin⟩

theorem Session.Unbroken.exec_burnFuse (h : s.Unbroken) : burnFuse.exec s = (.ok (), s) := by
  simp [burnFuse, h.fuse]

/-- The statement of a shift. -/
def shiftRow (source delta : Value) : Op Nat :=
  write Source false fun _ l => do
    let d ← param delta
    let c ← param source
    .ok (.ok (shiftSources l (fun r => c.isInteger (.integer r.id)) d))

theorem applyDelta_eq (source delta : Value) : applyDelta source delta = (do
    burnFuse
    let n ← shiftRow source delta
    if 0 < n then pure true
    else
      match ← find Source source with
      | none => pure false
      | some _ => Op.reject (.overflow source delta)) := rfl

/-- With values that the store takes the statement shifts what they say. -/
theorem Session.Unbroken.exec_shiftRow (h : s.Unbroken) {source delta : Value} {a c : Cell}
    (ha : param source = .ok a) (hc : param delta = .ok c) {n : Nat} {l : Ledger}
    (hl : shiftSources s.database.ledger (fun r => a.isInteger (.integer r.id)) c = (n, l)) :
    ∃ t, (shiftRow source delta).exec s = (.ok n, t) ∧
      t.database = s.database.withLedger l ∧ t.TakesOver s := by
  refine exec_write_unbroken Source h.breaks h.tables false _ fun v _ _ => ?_
  rw [hc, ha]
  simp only [bind, Except.bind, hl]

/-- With others it is refused. -/
theorem Session.Unbroken.exec_shiftRow_refused (h : s.Unbroken) {source delta : Value} {e : Failure}
    (he : (do let _ ← param delta; param source) = .error e) :
    ∃ t, (shiftRow source delta).exec s = (.error e, t) ∧ t.database = s.database ∧
      t.TakesOver s := by
  refine exec_write_refused Source h.breaks h.tables fun _ => ?_
  cases hc : param delta with
  | error e' =>
    rw [hc] at he
    exact congrArg Except.error (Except.error.inj he)
  | ok c =>
    rw [hc] at he
    change param source = .error e at he
    simp only [he, bind, Except.bind]

/-- A shift that moves no balance ends in a look at its source. -/
theorem Session.Unbroken.exec_applyDelta_idle (h : s.Unbroken) (hfits : fitsInteger id = true)
    {c : Cell} (hc : param (.float d) = .ok c)
    (hidle : shiftSources s.database.ledger (fun r => r.id == id) c = (0, s.database.ledger)) :
    ∃ t, t.database = s.database ∧ t.standing = s.standing ∧
      (applyDelta (.int id) (.float d)).exec s
      = (match s.database.ledger.sources.rows.find? (fun r => r.id == id) with
        | none => .ok false
        | some r => .error ((fault? (reread r)).getD (.rejected (.overflow (.int id) (.float d)))),
        t) := by
  obtain ⟨t, ht, hdb, htakes⟩ := h.exec_shiftRow (param_int hfits) hc (by simpa using hidle)
  have hsame : t.database = s.database := hdb
  obtain ⟨u, hu, hud, hutakes⟩ :=
    exec_find_fits (s := t) Source htakes.breaks (by rw [hsame]; exact h.tables) hfits
  refine ⟨u, hud.trans hsame, hutakes.standing.trans htakes.standing, ?_⟩
  rw [hsame] at hu
  rw [applyDelta_eq, exec_bind_ok h.exec_burnFuse, exec_bind_ok ht, if_neg (Nat.lt_irrefl 0),
    exec_bind, hu]
  have htable : Relation.table (ρ := Source) s.database.ledger = s.database.ledger.sources := rfl
  rw [htable]
  cases s.database.ledger.sources.rows.find? fun r => r.id == id with
  | none => rfl
  | some r =>
    have hdecode : Persistent.decode (ρ := Source) s.database.layout r = reread r := rfl
    simp only [hdecode]
    cases reread r <;> rfl

/-- An id that the store cannot hold is refused for its size. -/
theorem Session.Unbroken.fails_applyDelta (h : s.Unbroken) (hlarge : fitsInteger id = false) :
    (applyDelta (.int id) (.float d)).Fails s (.misuse .overflow) := by
  have hid : param (.int id) = .error (.misuse .overflow) := by
    simp [param, Cell.ofValue, hlarge, Except.mapError]
  have hparams : (do let _ ← param (.float d); param (.int id)) = .error (.misuse .overflow) := hid
  obtain ⟨t, ht, hd, htakes⟩ := h.exec_shiftRow_refused hparams
  exact .after h.exec_burnFuse (.bind ⟨t, ht, hd, htakes.standing⟩ _)

end

/-! ## Shifts one after the other -/

/-- A session after some shifts were tried, whether or not they succeeded. -/
def Session.tryShifts (s : Session) (shifts : List (Value × Value)) : Session :=
  shifts.foldl (fun s x => ((applyDelta x.1 x.2).exec s).2) s

section

variable {s : Session}

theorem Session.Unbroken.of_takesOver {t : Session} (h : s.Unbroken) (ht : t.TakesOver s)
    (hl : t.database.layout = s.database.layout) : t.Unbroken :=
  ⟨hl ▸ h.tables, ht.fuse.trans h.fuse, ht.breaks⟩

/-- Whether a source is there at all is found out without a change. -/
theorem exec_missing_unbroken (hb : s.breaks = none) (ht : s.database.layout.tables = true)
    (source delta : Value) :
    ∃ r t, (do
        match ← find Source source with
        | none => pure false
        | some _ => Op.reject (.overflow source delta) : Op Bool).exec s = (r, t) ∧
      t.database = s.database ∧ t.TakesOver s := by
  obtain ⟨t, hx, hd, htakes⟩ :=
    exec_selectOne_row Source hb ht (param source) fun c r => c.isInteger (.integer r.id)
  rw [find, exec_bind, hx]
  split
  · rename_i found u hfound
    obtain ⟨-, rfl⟩ := Prod.mk.inj hfound
    cases found <;> exact ⟨_, t, rfl, hd, htakes⟩
  · rename_i e u hfound
    obtain ⟨-, rfl⟩ := Prod.mk.inj hfound
    exact ⟨_, t, rfl, hd, htakes⟩

/-- Whether or not a shift succeeds, it leaves the database as it was or shifts balances in it. -/
theorem Session.Unbroken.tried (h : s.Unbroken) (source delta : Value) :
    ∃ r t, (applyDelta source delta).exec s = (r, t) ∧ t.TakesOver s ∧
      (t.database = s.database ∨
        ∃ p c, t.database = s.database.withLedger (shiftSources s.database.ledger p c).2) := by
  rw [applyDelta_eq, exec_bind_ok h.exec_burnFuse]
  cases hparams : (do
      let c ← param delta
      let a ← param source
      .ok (a, c) : Except Failure (Cell × Cell)) with
  | error e =>
    have he : (do let _ ← param delta; param source) = .error e := by
      cases hc : param delta <;> cases ha : param source <;>
        simp_all [bind, Except.bind]
    obtain ⟨t, ht, hd, htakes⟩ := h.exec_shiftRow_refused he
    exact ⟨_, t, exec_bind_error ht, htakes, .inl hd⟩
  | ok p =>
    obtain ⟨c, hc, hparams⟩ := Service.except_bind_ok_iff.1 hparams
    obtain ⟨a, ha, -⟩ := Service.except_bind_ok_iff.1 hparams
    obtain ⟨t, ht, hd, htakes⟩ := h.exec_shiftRow ha hc rfl
    rw [exec_bind_ok ht]
    split
    · exact ⟨_, t, rfl, htakes, .inr ⟨_, _, hd⟩⟩
    · obtain ⟨r, u, hu, hud, hutakes⟩ :=
        exec_missing_unbroken htakes.breaks (by rw [hd]; exact h.tables) source delta
      exact ⟨r, u, hu, hutakes.trans htakes, .inr ⟨_, _, hud.trans hd⟩⟩

theorem Session.Unbroken.finiteBalances_tryShifts (h : s.Unbroken)
    (hb : s.database.ledger.FiniteBalances) (shifts : List (Value × Value)) :
    (s.tryShifts shifts).database.ledger.FiniteBalances := by
  induction shifts generalizing s with
  | nil => exact hb
  | cons x rest ih =>
    obtain ⟨r, t, hx, htakes, hd⟩ := h.tried x.1 x.2
    have hnext : s.tryShifts (x :: rest) = t.tryShifts rest := by
      rw [Session.tryShifts, List.foldl_cons, hx]
      rfl
    rw [hnext]
    rcases hd with hd | ⟨p, c, hd⟩
    · exact ih (h.of_takesOver htakes (by rw [hd])) (by rw [hd]; exact hb)
    · exact ih (h.of_takesOver htakes (by rw [hd]; rfl)) (by rw [hd]; exact hb.shiftSources p c)

end

/-- A shift is exact, guarded and local. If its source is there and the sum is finite, the sum is the
new balance and nothing else changes. If the sum is not finite, nothing changes and the shift is
rejected for the amount; that takes a look at the source, so a row that cannot be read is reported
instead. If there is no such source, nothing changes, and that is what the shift says, unless the id is
too large for the store. Whatever shifts are tried, all balances stay finite. -/
theorem Session.Unbroken.applyDelta_guarded {s : Session} (h : s.Unbroken)
    (hb : s.database.ledger.FiniteBalances) (id : Int) (d : Float) :
    (∀ r ∈ s.database.ledger.sources.rows, ∀ x, r.id = id → Source.amountCell r = .real x →
      (isFinite (x + d) = true →
        ∃ t, (applyDelta (.int id) (.float d)).exec s = (.ok true, t) ∧
          t.database = s.database.withLedger (s.database.ledger.withBalance id (x + d))) ∧
      (isFinite (x + d) = false →
        ∃ rejection : Rejection, rejection.kind = .check ∧ rejection.field = some "amount" ∧
          (applyDelta (.int id) (.float d)).Fails s
            ((fault? (reread r)).getD (.rejected rejection)))) ∧
      ((∀ r ∈ s.database.ledger.sources.rows, r.id ≠ id) →
        if fitsInteger id then
          ∃ t, (applyDelta (.int id) (.float d)).exec s = (.ok false, t) ∧
            t.database = s.database
        else (applyDelta (.int id) (.float d)).Fails s (.misuse .overflow)) ∧
      ∀ shifts : List (Value × Value),
        (s.tryShifts shifts).database.ledger.FiniteBalances := by
  obtain ⟨c, hc⟩ : ∃ c, param (.float d) = .ok c := ⟨_, rfl⟩
  refine ⟨?_, fun habsent => ?_, h.finiteBalances_tryShifts hb⟩
  · rintro r hr x rfl hx
    have hfits := hb.fits r hr
    refine ⟨fun hf => ?_, fun hf => ?_⟩
    · obtain ⟨n, hn, hshift⟩ := shiftSources_of_finite hb hr hx hc hf
      obtain ⟨t, ht, hdb, -⟩ := h.exec_shiftRow (param_int hfits) hc (by simpa using hshift)
      refine ⟨t, ?_, hdb⟩
      rw [applyDelta_eq, exec_bind_ok h.exec_burnFuse, exec_bind_ok ht, if_pos hn]
      rfl
    · obtain ⟨t, hdb, hstanding, ht⟩ :=
        h.exec_applyDelta_idle hfits hc (shiftSources_of_infinite hb hr hx hc hf)
      rw [hb.find?_eq hr] at ht
      exact ⟨_, rfl, rfl, t, ht, hdb, hstanding⟩
  · cases hfits : fitsInteger id with
    | false => exact h.fails_applyDelta hfits
    | true =>
      have hnone : s.database.ledger.sources.rows.find? (fun o => o.id == id) = none :=
        List.find?_eq_none.2 fun o ho => by simpa using habsent o ho
      obtain ⟨t, hdb, -, ht⟩ := h.exec_applyDelta_idle hfits hc (shiftSources_of_absent habsent c)
      rw [hnone] at ht
      exact ⟨t, ht, hdb⟩

/-- More than any finite double. -/
def infinite : Float := 1 / 0

/-- The source that holds what is left after a first entry. -/
def purse : Row Source where
  id := 1
  data := { owner := 1, name := "Cash", currency := 1, amount := 17 }

/-- The only source, which holds 17, takes 5 more and refuses an infinite amount; another one is not
there. -/
theorem guarded_after_firstSpending :
    let s := newSession.after firstSpending
    (∃ t, (applyDelta (.int 1) (.float 5)).exec s = (.ok true, t) ∧
        t.database = s.database.withLedger (s.database.ledger.withBalance 1 (17 + 5))) ∧
      (∃ rejection : Rejection, rejection.kind = .check ∧ rejection.field = some "amount" ∧
        (applyDelta (.int 1) (.float infinite)).Fails s (.rejected rejection)) ∧
      (∃ t, (applyDelta (.int 2) (.float 5)).exec s = (.ok false, t) ∧ t.database = s.database) ∧
      (s.tryShifts [(.int 1, .float 5), (.int 1, .float infinite)]).database.ledger.FiniteBalances := by
  intro s
  obtain ⟨htables, hfuse, hbreaks, hrows⟩ :
    s.database.layout.tables = true ∧ s.fuse = none ∧ s.breaks = none ∧
      s.database.ledger.sources.rows = [purse] := by decide +kernel
  have h : s.Unbroken := ⟨htables, hfuse, hbreaks⟩
  have hread : (fault? (reread purse)).isNone = true := by decide +kernel
  have hmem : purse ∈ s.database.ledger.sources.rows := hrows ▸ List.mem_singleton_self purse
  have hb : s.database.ledger.FiniteBalances := by
    refine ⟨hrows ▸ List.nodup_singleton 1, ?_, ?_⟩
    · exact hrows ▸ List.forall_mem_singleton.2 rfl
    · exact hrows ▸ List.forall_mem_singleton.2 ⟨17, rfl, by decide +kernel, by decide +kernel⟩
  obtain ⟨hfive, -, hall⟩ := h.applyDelta_guarded hb 1 5
  obtain ⟨rejection, hkind, hfield, hfails⟩ :=
    ((h.applyDelta_guarded hb 1 infinite).1 purse hmem 17 rfl rfl).2 (by decide +kernel)
  rw [Option.isNone_iff_eq_none.1 hread] at hfails
  have habsent : ∀ r ∈ s.database.ledger.sources.rows, r.id ≠ 2 :=
    hrows ▸ List.forall_mem_singleton.2 (by decide)
  exact ⟨(hfive purse hmem 17 rfl rfl).1 (by decide +kernel), ⟨rejection, hkind, hfield, hfails⟩,
    (h.applyDelta_guarded hb 2 5).2.1 habsent, hall _⟩

/-- What a session is told of a shift, by the name of its failure. -/
def shiftFault (source delta : Value) (s : Session) : Option String :=
  (fault? ((applyDelta source delta).exec s).1).map Failure.text

/-- The session in which the only source has been given a name that no source may have. -/
def namelessSession : Session :=
  ((update Source (.int 1) [("name", .text " ")]).exec (newSession.after firstSpending)).2

/-- Of a source that is not there, an id too large for the store is refused for its size; and a source
that cannot be read is reported as such, though its balance is finite and would not stay so. -/
theorem shifts_told_otherwise :
    (∀ r ∈ (newSession.after firstSpending).database.ledger.sources.rows,
        r.id ≠ 9223372036854775808) ∧
      shiftFault (.int 9223372036854775808) (.float 1) (newSession.after firstSpending)
        = some "OverflowError" ∧
      (∀ r ∈ namelessSession.database.ledger.sources.rows,
        r.id = 1 ∧ Source.amountCell r = .real 17) ∧
      isFinite (17 + infinite) = false ∧
      shiftFault (.int 1) (.float infinite) namelessSession = some "ValidationError" := by
  decide +kernel

end Bookkeeping.Store
