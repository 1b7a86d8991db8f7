import Bookkeeping.Proofs.CatalogCalls

/-! # Applying shifts

A balance is shifted in place, and only if it stays finite; otherwise the call fails. So shifts that
are applied are borne by the ledger, and what they leave is the ledger with its balances shifted.
-/

namespace Bookkeeping.Store

open Number

variable {s t : Session}

/-! ## One balance -/

/-- A balance takes a shift if the sum is finite. -/
theorem shifted?_of_param {d : Float} {c : Cell} (x : Float) (hc : param (.float d) = .ok c) :
    shifted? (.real x) c = if isFinite (x + d) then some (unsigned (x + d)) else none := by
  by_cases hd : isNaN d = true
  · obtain rfl : c = .null := by
      simpa [param, Cell.ofValue, hd, Except.mapError, eq_comm] using hc
    rw [isFinite_add_of_isNaN x hd]
    rfl
  · obtain rfl : c = .real d := by
      simpa [param, Cell.ofValue, hd, Except.mapError, eq_comm] using hc
    have hsum : (Cell.real x).plus (.real d) = Cell.ofResult (x + d) := rfl
    rw [shifted?, hsum, Cell.ofResult]
    by_cases hs : isFinite (x + d) = true
    · simp [isNaN_of_isFinite hs, Cell.isFiniteNumber, Cell.asReal, hs]
    · cases hn : isNaN (x + d) <;> simp [Cell.isFiniteNumber, hs]

/-- Whether a shift is meant for a source and leaves its balance finite. -/
def takes (s : Shift) (r : Row Source) : Bool :=
  s.source == some r.id && isFinite (r.data.amount + s.delta)

/-- The statement that shifts a balance changes the source that takes the shift. -/
theorem shiftSources_eq {l : Ledger} {x : Shift} {c : Cell} {p : Row Source → Bool}
    (ht : l.sources.Tidy) (hc : param (.float x.delta) = .ok c)
    (hp : ∀ r ∈ l.sources.rows, p r = (x.source == some r.id)) :
    shiftSources l p c = (l.sources.count (takes x),
      { l with sources := l.sources.change (takes x) (shiftedBy x.delta) }) := by
  have hrow (r : Row Source) (hr : r ∈ l.sources.rows) :
      shifted? (Source.amountCell r) c = if isFinite (r.data.amount + x.delta)
        then some (unsigned (r.data.amount + x.delta)) else none := by
    rw [Source.amountCell, Row.cell_of_odd_nil r (ht.proper r hr), shifted?_of_param _ hc]
  have hmoves (r : Row Source) (hr : r ∈ l.sources.rows) :
      (p r && (shifted? (Source.amountCell r) c).isSome) = takes x r := by
    rw [hp r hr, hrow r hr, takes]
    by_cases hf : isFinite (r.data.amount + x.delta) = true <;> simp [hf]
  unfold shiftSources
  simp only [Table.count, Table.change]
  rw [List.filter_congr hmoves]
  congr 3
  refine List.map_congr_left fun r hr => ?_
  rw [hmoves r hr]
  by_cases hm : takes x r = true
  · have hf : isFinite (r.data.amount + x.delta) = true := (Bool.and_eq_true _ _ ▸ hm).2
    rw [if_pos hm, if_pos hm, hrow r hr, if_pos hf]
    simp [shiftedBy, Row.put, Row.oddBut, ht.proper r hr]
  · rw [if_neg hm, if_neg hm]

/-- A source that takes a shift is shifted, and so is a ledger without a source to shift. -/
theorem change_takes {l : Ledger} {x : Shift}
    (h : ∀ r ∈ l.sources.rows, x.source = some r.id → isFinite (r.data.amount + x.delta) = true) :
    { l with sources := l.sources.change (takes x) (shiftedBy x.delta) } = l.shift x := by
  unfold Ledger.shift Table.change
  congr 2
  refine List.map_congr_left fun r hr => ?_
  by_cases hx : x.source = some r.id
  · simp [takes, hx, h r hr hx]
  · simp [takes, hx]

theorem isId_ofInt? (n : Option Int) : (Value.ofInt? n).isId = true := by
  cases n <;> rfl

theorem id?_ofInt? (n : Option Int) : (Value.ofInt? n).id? = n := by
  cases n <;> rfl

theorem exec_burnFuse (h : s.Ready) : burnFuse.exec s = (.ok (), s) := by
  simp [burnFuse, h.fuse]

/-- The statement of a shift. -/
theorem shiftRow_ok (h : s.Ready) (ht : s.database.ledger.sources.Tidy) {x : Shift} {n : Nat}
    (hx : (write Source false fun _ l => do
      let d ← param (.float x.delta)
      let c ← param (Value.ofInt? x.source)
      .ok (.ok (shiftSources l (fun r => c.isInteger (.integer r.id)) d))).exec s = (.ok n, t)) :
    n = s.database.ledger.sources.count (takes x) ∧
      t = s.put { s.database.ledger with
        sources := s.database.ledger.sources.change (takes x) (shiftedBy x.delta) } := by
  obtain ⟨l, hrun, rfl⟩ := (write_ok Source h).1 hx
  cases hd : param (.float x.delta) with
  | error e => simp [hd, bind, Except.bind] at hrun
  | ok d =>
    cases hc : param (Value.ofInt? x.source) with
    | error e => simp [hd, hc, bind, Except.bind] at hrun
    | ok c =>
      simp only [hd, hc, bind, Except.bind, Except.ok.injEq] at hrun
      rw [shiftSources_eq ht hd fun r _ => by
        rw [isInteger_of_isId (isId_ofInt? _) hc, id?_ofInt?, beq_eq_decide]] at hrun
      cases hrun
      exact ⟨rfl, rfl⟩

/-- A shift that is applied is borne by the source that it is meant for. -/
theorem applyDelta_ok (h : s.Ready) (ht : s.database.ledger.sources.Tidy) {x : Shift} {moved : Bool}
    (hx : (applyDelta (Value.ofInt? x.source) (.float x.delta)).exec s = (.ok moved, t)) :
    (∀ r ∈ s.database.ledger.sources.rows, x.source = some r.id →
      isFinite (r.data.amount + x.delta) = true) ∧ t = s.put (s.database.ledger.shift x) := by
  obtain ⟨_, u, hb, h₁⟩ := Op.bind_ok hx
  rw [exec_burnFuse h] at hb
  cases hb
  obtain ⟨n, v, hw, h₂⟩ := Op.bind_ok h₁
  obtain ⟨rfl, hv⟩ := shiftRow_ok h ht hw
  have hends : t = v ∧ (∀ r ∈ s.database.ledger.sources.rows, x.source = some r.id →
      isFinite (r.data.amount + x.delta) = true) := by
    split at h₂
    · rename_i hcount
      refine ⟨(Op.pure_ok h₂).2, fun r hr hxr => ?_⟩
      obtain ⟨o, ho⟩ := List.exists_mem_of_length_pos hcount
      obtain ⟨hot, htakes⟩ := List.mem_filter.1 ho
      rw [takes, Bool.and_eq_true, beq_iff_eq] at htakes
      obtain rfl := ht.eq_of_id hot hr (Option.some.inj (htakes.1.symm.trans hxr))
      exact htakes.2
    · -- no source took the shift, and if there were one to take it the call would fail
      obtain ⟨found, w, hf, h₃⟩ := Op.bind_ok h₂
      rw [hv] at hf
      obtain ⟨hw', hpick⟩ := find_ok Source (h.put _) (isId_ofInt? _) hf
      cases found with
      | some r => cases h₃
      | none =>
        refine ⟨by rw [(Op.pure_ok h₃).2, hw', hv], fun r hr hxr => ?_⟩
        have htidy : (s.database.ledger.sources.change (takes x) (shiftedBy x.delta)).Tidy :=
          ht.change (fun _ => rfl) fun _ hr => hr
        obtain ⟨o, ho, hid⟩ : (s.database.ledger.sources.change (takes x)
            (shiftedBy x.delta)).Has r.id := Table.Has.change ⟨r, hr, rfl⟩ fun _ => rfl
        rw [pick_of_mem Source htidy ho fun y _ => by
          rw [id?_ofInt?, hxr, hid, decide_eq_true_eq, Option.some.injEq, eq_comm]] at hpick
        cases hd : Persistent.decode (ρ := Source) .full o <;> rw [hd] at hpick <;> cases hpick
  obtain ⟨rfl, hbears⟩ := hends
  exact ⟨hbears, by rw [hv, change_takes hbears]⟩

section

variable {x : Shift} {r : Row Source} (h : s.Ready) (ht : s.database.ledger.sources.Tidy)
  (hr : r ∈ s.database.ledger.sources.rows) (hsource : x.source = some r.id)

include h ht hr hsource

theorem exec_shiftRow :
    (write Source false fun _ l => do
      let d ← param (.float x.delta)
      let c ← param (Value.ofInt? x.source)
      .ok (.ok (shiftSources l (fun r => c.isInteger (.integer r.id)) d))).exec s
    = (.ok (s.database.ledger.sources.count (takes x)), s.put { s.database.ledger with
        sources := s.database.ledger.sources.change (takes x) (shiftedBy x.delta) }) := by
  have hc : param (Value.ofInt? x.source) = .ok (.integer r.id) := by
    rw [hsource]
    exact param_int (ht.fits r hr)
  obtain ⟨d, hd⟩ : ∃ d, param (.float x.delta) = .ok d := ⟨_, rfl⟩
  refine (write_ok Source h).2 ⟨_, ?_, rfl⟩
  rw [hd, hc]
  refine congrArg (fun y => Except.ok (Except.ok y)) (shiftSources_eq ht hd fun y _ => ?_)
  rw [hsource, Cell.isInteger_integer, Bool.eq_iff_iff, beq_iff_eq, beq_iff_eq,
    Option.some.injEq, eq_comm]

/-- A shift that a source bears is applied. -/
theorem exec_applyDelta (hbears : isFinite (r.data.amount + x.delta) = true) :
    (applyDelta (Value.ofInt? x.source) (.float x.delta)).exec s
      = (.ok true, s.put (s.database.ledger.shift x)) := by
  have hall : ∀ y ∈ s.database.ledger.sources.rows, x.source = some y.id →
      isFinite (y.data.amount + x.delta) = true := fun y hy hid => by
    rw [ht.eq_of_id hy hr (Option.some.inj (hid.symm.trans hsource))]
    exact hbears
  have hpos : 0 < s.database.ledger.sources.count (takes x) := by
    refine List.length_pos_of_mem (List.mem_filter.2 ⟨hr, ?_⟩)
    rw [takes, hbears, hsource]
    simp
  rw [applyDelta, Op.exec_bind, exec_burnFuse h]
  simp only [Op.exec_bind, exec_shiftRow h ht hr hsource, if_pos hpos, change_takes hall]
  rfl

end

/-! ## Shifts one by one -/

theorem tidy_shift {l : Ledger} (ht : l.sources.Tidy) (x : Shift) : (l.shift x).sources.Tidy :=
  ht.change (fun _ => rfl) fun _ hr => hr

@[simp] theorem entries_shiftAll (l : Ledger) (shifts : List Shift) :
    (l.shiftAll shifts).entries = l.entries := by
  induction shifts generalizing l with
  | nil => rfl
  | cons x rest ih => exact ih (l.shift x)

@[simp] theorem users_shiftAll (l : Ledger) (shifts : List Shift) :
    (l.shiftAll shifts).users = l.users := by
  induction shifts generalizing l with
  | nil => rfl
  | cons x rest ih => exact ih (l.shift x)

/-- Entries do not matter for shifts. -/
theorem shiftAll_withEntries (l : Ledger) (t : Table StoredEntry) (shifts : List Shift) :
    ({ l with entries := t } : Ledger).shiftAll shifts
      = { l.shiftAll shifts with entries := t } := by
  induction shifts generalizing l with
  | nil => rfl
  | cons x rest ih => exact ih (l.shift x)

theorem bears_withEntries {l : Ledger} (t : Table StoredEntry) {shifts : List Shift} :
    ({ l with entries := t } : Ledger).Bears shifts ↔ l.Bears shifts := by
  induction shifts generalizing l with
  | nil => exact Iff.rfl
  | cons x rest ih => exact and_congr Iff.rfl (ih (l := l.shift x))

end Bookkeeping.Store

namespace Bookkeeping.Service

open Store

variable {s t : Session}

/-- In the direction 1 shifts are taken as they are. -/
theorem map_directed_one (shifts : List Shift) : shifts.map (Shift.directed 1) = shifts := by
  rw [show Shift.directed 1 = id from rfl, List.map_id]

/-- Shifts that are applied are borne by the ledger. -/
theorem applyShifts_ok (h : s.Ready) (ht : s.database.ledger.sources.Tidy) {direction : Int}
    {shifts : List Shift} {u : Unit} (hx : (applyShifts direction shifts).exec s = (.ok u, t)) :
    s.database.ledger.Bears (shifts.map (Shift.directed direction)) ∧
      t = s.put (s.database.ledger.shiftAll (shifts.map (Shift.directed direction))) := by
  induction shifts generalizing s with
  | nil =>
    obtain ⟨-, rfl⟩ := Op.pure_ok hx
    exact ⟨trivial, rfl⟩
  | cons x rest ih =>
    obtain ⟨moved, v, hd, hrest⟩ := Op.bind_ok hx
    obtain ⟨hbears, rfl⟩ := applyDelta_ok (x := x.directed direction) h ht hd
    obtain ⟨hall, rfl⟩ := ih (h.put _) (tidy_shift ht _) hrest
    exact ⟨⟨hbears, hall⟩, rfl⟩

/-- Shifts of sources that there are, and that the ledger bears, are applied. -/
theorem exec_applyShifts (h : s.Ready) (ht : s.database.ledger.sources.Tidy) {direction : Int}
    {shifts : List Shift}
    (hsources : ∀ x ∈ shifts, ∃ id, x.source = some id ∧ s.database.ledger.sources.Has id)
    (hb : s.database.ledger.Bears (shifts.map (Shift.directed direction))) :
    (applyShifts direction shifts).exec s
      = (.ok (), s.put (s.database.ledger.shiftAll (shifts.map (Shift.directed direction)))) := by
  induction shifts generalizing s with
  | nil => rfl
  | cons x rest ih =>
    obtain ⟨hbears, hrest⟩ := hb
    obtain ⟨_, hid, r, hr, rfl⟩ := hsources x List.mem_cons_self
    have hd := exec_applyDelta (x := x.directed direction) h ht hr hid (hbears r hr hid)
    rw [applyShifts, Op.exec_bind]
    simp only [hd]
    refine ih (h.put _) (tidy_shift ht _) (fun y hy => ?_) hrest
    obtain ⟨id, hid, hhas⟩ := hsources y (List.mem_cons_of_mem x hy)
    exact ⟨id, hid, hhas.change fun _ => rfl⟩

end Bookkeeping.Service
