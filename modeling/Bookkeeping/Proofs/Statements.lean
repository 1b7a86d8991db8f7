import Bookkeeping.Proofs.Reachable
import Bookkeeping.Proofs.Tables

/-! # What statements do

Within a transaction, on a database of the full layout and without interruptions, a statement that
reads leaves the session as it is, and one that writes puts another ledger into it. Here is what
each statement gives and which ledger it leaves, in terms of the rows that were there before.
-/

namespace Bookkeeping

/-- An id and the integer that its cell is compared with. -/
theorem Store.isInteger_of_isId {v : Value} {c : Store.Cell} (hv : v.isId = true)
    (h : Store.param v = .ok c) (n : Int) :
    c.isInteger (.integer n) = decide (v.id? = some n) := by
  cases v with
  | null =>
    cases h
    rfl
  | bool b =>
    cases h
    simp [Value.id?, eq_comm, beq_eq_decide]
  | int m =>
    simp only [Store.param, Store.Cell.ofValue] at h
    split at h
    · cases h
      simp [Value.id?, eq_comm, beq_eq_decide]
    · cases h
  | _ => cases hv

namespace Store

open Op

theorem param_int {n : Int} (h : fitsInteger n = true) : param (.int n) = .ok (.integer n) := by
  simp [param, Cell.ofValue, h, Except.mapError]

/-! ## Ready sessions -/

/-- A session in a block, on a database of the full layout, that nothing will break off. -/
structure Session.Ready (s : Session) : Prop where
  inside : s.inBlock = true
  layout : s.database.layout = .full
  fuse : s.fuse = none
  breaks : s.breaks = none

/-- The session with another ledger in its database. -/
def Session.put (s : Session) (l : Ledger) : Session := { s with database := s.database.withLedger l }

namespace Session

variable {s : Session}

@[simp] theorem ledger_put (s : Session) (l : Ledger) : (s.put l).database.ledger = l := rfl

@[simp] theorem enforce_put (s : Session) (l : Ledger) : (s.put l).enforce = s.enforce := rfl

@[simp] theorem now_put (s : Session) (l : Ledger) : (s.put l).now = s.now := rfl

@[simp] theorem put_put (s : Session) (l m : Ledger) : (s.put l).put m = s.put m := rfl

@[simp] theorem put_ledger (s : Session) : s.put s.database.ledger = s := rfl

theorem Closes.put (l : Ledger) (h : s.Closes) : (s.put l).Closes := ⟨h.inside, h.breaks⟩

theorem Ready.put (h : s.Ready) (l : Ledger) : (s.put l).Ready := ⟨h.inside, h.layout, h.fuse, h.breaks⟩

end Session

open Session

variable {α β : Type} {s t : Session}

theorem exec_statement_inside (hin : s.inBlock = true) (hb : s.breaks = none)
    (run : Session → Except Failure (α × Database)) :
    (statement run).exec s = match run s with
      | .ok (a, db) => (.ok a, { s with database := db })
      | .error e => (.error e, s) := by
  rw [statement, exec_transaction_inside _ hin, exec_bind_ok (exec_countStatement hb)]
  rfl

theorem open?_ok {db : Database} {name : TableName} {l : Ledger} (h : db.open? name = .ok l) :
    l = db.ledger := by
  unfold Database.open? at h
  split at h
  · exact (Except.ok.inj h).symm
  · cases h

section

variable (ρ : Type) [Persistent ρ α]

/-- A statement that only reads gives what it reads off the ledger. -/
theorem exec_select_inside (hin : s.inBlock = true) (hb : s.breaks = none)
    (ht : s.database.layout.tables = true) (run : Ledger → Except Failure β) :
    (select ρ run).exec s = (run s.database.ledger, s) := by
  rw [select, exec_statement_inside hin hb]
  simp only [Database.open?, ht, if_true]
  cases hr : run s.database.ledger <;> simp [bind, Except.bind, hr]

theorem exec_select (h : s.Ready) (run : Ledger → Except Failure β) :
    (select ρ run).exec s = (run s.database.ledger, s) :=
  exec_select_inside ρ h.inside h.breaks (by rw [h.layout, Layout.full_tables]) run

/-- What a statement that reads gives, wherever it is made, is read off the ledger. -/
theorem select_gives {run : Ledger → Except Failure β} {b : β}
    (hx : (select ρ run).exec s = (.ok b, t)) : run s.database.ledger = .ok b := by
  obtain ⟨u, hu, hrun⟩ := statement_ok hx
  rw [← hu]
  cases hl : u.database.open? (Relation.name ρ) with
  | error e => simp [hl, bind, Except.bind] at hrun
  | ok l =>
    rw [← open?_ok hl]
    cases hr : run l with
    | error e => simp [hl, hr, bind, Except.bind] at hrun
    | ok c =>
      simp only [hl, hr, bind, Except.bind, Except.ok.injEq, Prod.mk.injEq] at hrun
      rw [hrun.1]

/-- A statement that changes rows fails, is refused for a constraint, or leaves another ledger. -/
theorem exec_change_inside (hin : s.inBlock = true) (hb : s.breaks = none) {deleting : Bool}
    (run : Session → Except Failure (Stored (β × Ledger))) :
    (change ρ deleting run).exec s = match run s with
      | .error e => (.error e, s)
      | .ok (.error b) => (.error (.rejected (b.rejection (Relation.name ρ) deleting)),
          { s with breaches := s.breaches ++ [b] })
      | .ok (.ok (b, l)) => (.ok b, s.put l) := by
  rw [change, exec_transaction_inside _ hin, exec_bind, exec_statement_inside hin hb]
  cases hr : run s with
  | error e => rfl
  | ok stored => cases stored <;> rfl

theorem exec_write_inside (hin : s.inBlock = true) (hb : s.breaks = none)
    (ht : s.database.layout.tables = true) {deleting : Bool}
    (run : Session → Ledger → Except Failure (Stored (β × Ledger))) :
    (write ρ deleting run).exec s = match run s s.database.ledger with
      | .error e => (.error e, s)
      | .ok (.error b) => (.error (.rejected (b.rejection (Relation.name ρ) deleting)),
          { s with breaches := s.breaches ++ [b] })
      | .ok (.ok (b, l)) => (.ok b, s.put l) := by
  rw [write, exec_change_inside ρ hin hb]
  simp only [Database.open?, ht, if_true]
  rfl

theorem exec_write (h : s.Ready) {deleting : Bool}
    (run : Session → Ledger → Except Failure (Stored (β × Ledger))) :
    (write ρ deleting run).exec s = match run s s.database.ledger with
      | .error e => (.error e, s)
      | .ok (.error b) => (.error (.rejected (b.rejection (Relation.name ρ) deleting)),
          { s with breaches := s.breaches ++ [b] })
      | .ok (.ok (b, l)) => (.ok b, s.put l) :=
  exec_write_inside ρ h.inside h.breaks (by rw [h.layout, Layout.full_tables]) run

theorem write_ok (h : s.Ready) {deleting : Bool}
    {run : Session → Ledger → Except Failure (Stored (β × Ledger))} {b : β} :
    (write ρ deleting run).exec s = (.ok b, t) ↔
      ∃ l, run s s.database.ledger = .ok (.ok (b, l)) ∧ t = s.put l := by
  rw [exec_write ρ h]
  cases hr : run s s.database.ledger with
  | error e => simp
  | ok stored =>
    cases stored with
    | error b => simp
    | ok r => simp [Prod.ext_iff, eq_comm, and_comm]

/-! ## Rows as records -/

/-- The record of the row that a condition picks. -/
def pick (l : Ledger) (p : Row ρ → Bool) : Except Failure (Option (Row α)) :=
  match (Relation.table (ρ := ρ) l).rows.find? p with
  | none => .ok none
  | some r => some <$> Persistent.decode .full r

variable {ρ}

theorem pick_some {l : Ledger} {p : Row ρ → Bool} {a : Row α} :
    pick ρ l p = .ok (some a) ↔ ∃ r, (Relation.table (ρ := ρ) l).rows.find? p = some r ∧
      Persistent.decode .full r = .ok a := by
  unfold pick
  cases hf : (Relation.table (ρ := ρ) l).rows.find? p with
  | none => simp
  | some r => cases hd : Persistent.decode Layout.full r <;> simp [Functor.map, Except.map, hd]

theorem pick_none {l : Ledger} {p : Row ρ → Bool} :
    pick ρ l p = .ok none ↔ (Relation.table (ρ := ρ) l).rows.find? p = none := by
  unfold pick
  cases hf : (Relation.table (ρ := ρ) l).rows.find? p with
  | none => simp
  | some r => cases hd : Persistent.decode Layout.full r <;> simp [Functor.map, Except.map, hd]

variable (ρ)

theorem exec_selectOne {γ : Type} (h : s.Ready) (params : Except Failure γ) (p : γ → Row ρ → Bool) :
    (selectOne ρ params p).exec s
      = (do let c ← params
            pick ρ s.database.ledger (p c), s) := by
  rw [selectOne, exec_bind, exec_select ρ h]
  cases params with
  | error e => rfl
  | ok c =>
    simp only [bind, Except.bind, pick]
    cases hf : (Relation.table (ρ := ρ) s.database.ledger).rows.find? (p c) with
    | none => rfl
    | some r =>
      have hb : (do let layout := (← (get : Op Session)).database.layout
                    some <$> Op.lift (Persistent.decode layout r)).exec s
          = (some <$> Persistent.decode .full r, s) := by
        rw [exec_bind, exec_get]
        simp only [exec_map, exec_lift, h.layout]
        cases Persistent.decode Layout.full r <;> rfl
      exact hb

/-- A condition that singles out the id of a row gives the record of that row. -/
theorem pick_of_mem {l : Ledger} {r : Row ρ} {p : Row ρ → Bool}
    (ht : (Relation.table (ρ := ρ) l).Tidy) (hr : r ∈ (Relation.table (ρ := ρ) l).rows)
    (hp : ∀ x ∈ (Relation.table (ρ := ρ) l).rows, p x = true ↔ x.id = r.id) :
    pick ρ l p = some <$> Persistent.decode .full r := by
  rw [pick, ht.find?_eq hr hp]

theorem find_ok (h : s.Ready) {id : Value} {found : Option (Row α)} (hid : id.isId = true)
    (hx : (find ρ id).exec s = (.ok found, t)) :
    t = s ∧ pick ρ s.database.ledger (fun r => decide (id.id? = some r.id)) = .ok found := by
  rw [find, exec_selectOne ρ h] at hx
  cases hc : param id with
  | error e => simp [hc, bind, Except.bind] at hx
  | ok c =>
    simp only [hc, bind, Except.bind, isInteger_of_isId hid hc, Prod.mk.injEq] at hx
    exact ⟨hx.2.symm, hx.1⟩

/-- Looking up the id of a row gives the record of the row. -/
theorem exec_find_mem (h : s.Ready) {r : Row ρ}
    (ht : (Relation.table (ρ := ρ) s.database.ledger).Tidy)
    (hr : r ∈ (Relation.table (ρ := ρ) s.database.ledger).rows) :
    (find ρ (.int r.id)).exec s = (some <$> Persistent.decode .full r, s) := by
  rw [find, exec_selectOne ρ h, param_int (ht.fits r hr)]
  simp only [bind, Except.bind]
  rw [pick_of_mem ρ ht hr fun x _ => by simp]

/-! ## Storing a row -/

/-- Relations whose tables are where they are put. -/
class LawfulRelation : Prop where
  table_withTable (l : Ledger) (t : Table ρ) : Relation.table (Relation.withTable l t) = t

end

section

variable {ρ : Type}

theorem checked_ok [Relation ρ] {enforce : Bool} {l : Ledger} {others : List (Row ρ)} {r x : Row ρ}
    (hx : Ledger.checked enforce l others r = .ok x) :
    x = r ∧ (∀ o ∈ others, o.id ≠ r.id) ∧ (∀ o ∈ others, Ledger.clash o r = false) ∧
      (enforce = true → Relation.resolves l r.data = true) := by
  unfold Ledger.checked at hx
  split at hx
  · cases hx
  · rename_i hid
    split at hx
    · cases hx
    · rename_i hclash
      split at hx
      · cases hx
      · rename_i href
        cases hx
        refine ⟨rfl, ?_, ?_, ?_⟩
        · simpa using hid
        · simpa using hclash
        · intro he
          simp only [he, Bool.true_and, Bool.or_eq_true, Bool.not_eq_true', not_or] at href
          simpa using href.2

/-- What must hold for a row to be stored as a new one. -/
structure Insertable [Relation ρ] (enforce : Bool) (l : Ledger) (a : ρ) : Prop where
  references : (Relation.references a).all fitsInteger = true
  room : (Relation.table (ρ := ρ) l).isFull = false
  fresh : ∀ o ∈ (Relation.table (ρ := ρ) l).rows,
    Ledger.clash o { id := (Relation.table (ρ := ρ) l).nextId, data := a } = false
  resolves : enforce = true → Relation.resolves l a = true

theorem ledger_insert_ok [Relation ρ] {enforce : Bool} {l m : Ledger} {a : ρ} {n : Int} :
    l.insert enforce a = .ok (n, m) ↔
      (∀ o ∈ (Relation.table (ρ := ρ) l).rows,
        Ledger.clash o { id := (Relation.table (ρ := ρ) l).nextId, data := a } = false) ∧
      (enforce = true → Relation.resolves l a = true) ∧
      n = (Relation.table (ρ := ρ) l).nextId ∧
      m = Relation.withTable l ((Relation.table (ρ := ρ) l).insert a) := by
  constructor
  · intro hx
    unfold Ledger.insert at hx
    cases hc : Ledger.checked enforce l (Relation.table (ρ := ρ) l).rows
        { id := (Relation.table (ρ := ρ) l).nextId, data := a } with
    | error b => simp [hc, bind, Except.bind] at hx
    | ok r =>
      obtain ⟨rfl, -, hclash, href⟩ := checked_ok hc
      simp only [hc, bind, Except.bind, Except.ok.injEq, Prod.mk.injEq] at hx
      exact ⟨hclash, href, hx.1.symm, hx.2.symm⟩
  · rintro ⟨hclash, href, rfl, rfl⟩
    have hid : ∀ o ∈ (Relation.table (ρ := ρ) l).rows,
        o.id ≠ (Relation.table (ρ := ρ) l).nextId := fun o ho => by
      have := Table.id_lt_nextId _ ho
      omega
    have hc : Ledger.checked enforce l (Relation.table (ρ := ρ) l).rows
        { id := (Relation.table (ρ := ρ) l).nextId, data := a }
          = .ok { id := (Relation.table (ρ := ρ) l).nextId, data := a } := by
      unfold Ledger.checked
      rw [if_neg (by simpa using hid), if_neg (by simpa using hclash),
        if_neg (by simpa [Ledger.refersToNothing] using href)]
    simp [Ledger.insert, hc, bind, Except.bind]

/-- What the statement that stores a new row makes of a ledger. -/
def insertion (ρ : Type) {α : Type} [Persistent ρ α] (a : α) (s : Session) (l : Ledger) :
    Except Failure (Stored (Int × Ledger)) := do
  if (Relation.columns (ρ := ρ)).length != (s.database.layout.columns (ρ := ρ)).length then
    .error (.operational ("table " ++ (Relation.name ρ).text ++ " has no column named target"))
  else
    let row := Persistent.encode s.now a
    storable ρ row
    if (Relation.table (ρ := ρ) l).isFull then .error (.operational noRoom)
    else .ok (l.insert s.enforce row)

variable {α : Type} [Persistent ρ α]

theorem insert_eq (a : α) : Store.insert ρ a = (do
    let id ← transaction (abandoning (write ρ false (insertion ρ a)))
    match ← find ρ (.int id) with
    | some r => pure r
    | none => Op.fail (.misuse .noAttribute)) := rfl

/-- The statement that stores a new row. -/
theorem insertRow_ok (h : s.Ready) {a : α} {n : Int} :
    (transaction (abandoning (write ρ false (insertion ρ a)))).exec s = (.ok n, t) ↔
      Insertable s.enforce s.database.ledger (Persistent.encode (ρ := ρ) s.now a) ∧
      n = (Relation.table (ρ := ρ) s.database.ledger).nextId ∧
      t = s.put (Relation.withTable s.database.ledger
        ((Relation.table (ρ := ρ) s.database.ledger).insert (Persistent.encode s.now a))) := by
  have hcols : (s.database.layout.columns (ρ := ρ)) = Relation.columns := by
    simp [Layout.columns, h.layout]
  rw [exec_transaction_inside _ h.inside, abandoning_ok, write_ok ρ h]
  simp only [insertion, hcols, bne_self_eq_false, Bool.false_eq_true, if_false, storable]
  constructor
  · rintro ⟨l, hrun, rfl⟩
    split at hrun
    · rename_i hrefs
      simp only [bind, Except.bind] at hrun
      split at hrun
      · cases hrun
      · rename_i hroom
        simp only [Except.ok.injEq] at hrun
        obtain ⟨hclash, href, rfl, rfl⟩ := ledger_insert_ok.1 hrun
        exact ⟨⟨hrefs, by simpa using hroom, hclash, href⟩, rfl, rfl⟩
    · cases hrun
  · rintro ⟨hi, rfl, rfl⟩
    refine ⟨_, ?_, rfl⟩
    rw [if_pos hi.references]
    simp only [bind, Except.bind, hi.room, Bool.false_eq_true, if_false, Except.ok.injEq]
    exact ledger_insert_ok.2 ⟨hi.fresh, hi.resolves, rfl, rfl⟩

variable [LawfulRelation ρ]

/-- A record is stored if its row may be, and is then read from the row. -/
theorem exec_insertable (h : s.Ready) (ht : (Relation.table (ρ := ρ) s.database.ledger).Tidy) {a : α}
    (hi : Insertable s.enforce s.database.ledger (Persistent.encode (ρ := ρ) s.now a)) :
    (Store.insert ρ a).exec s
      = (Persistent.decode .full { id := (Relation.table (ρ := ρ) s.database.ledger).nextId
                                   data := Persistent.encode (ρ := ρ) s.now a },
        s.put (Relation.withTable s.database.ledger
          ((Relation.table (ρ := ρ) s.database.ledger).insert (Persistent.encode s.now a)))) := by
  have hfind : (find ρ (.int (Relation.table (ρ := ρ) s.database.ledger).nextId)).exec
      (s.put (Relation.withTable s.database.ledger
        ((Relation.table (ρ := ρ) s.database.ledger).insert (Persistent.encode s.now a))))
        = (some <$> Persistent.decode .full
            { id := (Relation.table (ρ := ρ) s.database.ledger).nextId
              data := Persistent.encode (ρ := ρ) s.now a },
          s.put (Relation.withTable s.database.ledger
            ((Relation.table (ρ := ρ) s.database.ledger).insert (Persistent.encode s.now a)))) := by
    refine exec_find_mem ρ (h.put _) (r := ⟨_, Persistent.encode s.now a, []⟩) ?_ ?_
    · simpa [LawfulRelation.table_withTable] using ht.insert hi.room _
    · rw [ledger_put, LawfulRelation.table_withTable]
      exact Table.mem_insert.2 (.inr rfl)
  rw [insert_eq, exec_bind, (insertRow_ok h).2 ⟨hi, rfl, rfl⟩]
  dsimp only
  rw [exec_bind, hfind]
  cases Persistent.decode Layout.full
      { id := (Relation.table (ρ := ρ) s.database.ledger).nextId
        data := Persistent.encode (ρ := ρ) s.now a } <;> rfl

/-- A record that was stored is one that may be and can be read. -/
theorem insert_ok (h : s.Ready) (ht : (Relation.table (ρ := ρ) s.database.ledger).Tidy) {a : α}
    {x : Row α} :
    (Store.insert ρ a).exec s = (.ok x, t) ↔
      Insertable s.enforce s.database.ledger (Persistent.encode (ρ := ρ) s.now a) ∧
      Persistent.decode .full { id := (Relation.table (ρ := ρ) s.database.ledger).nextId
                                data := Persistent.encode (ρ := ρ) s.now a } = .ok x ∧
      t = s.put (Relation.withTable s.database.ledger
        ((Relation.table (ρ := ρ) s.database.ledger).insert (Persistent.encode s.now a))) := by
  constructor
  · intro hx
    obtain ⟨n, u, hw, -⟩ := bind_ok hx
    obtain ⟨hi, -, -⟩ := (insertRow_ok h).1 hw
    obtain ⟨hd, hput⟩ := Prod.mk.inj ((exec_insertable h ht hi).symm.trans hx)
    exact ⟨hi, hd, hput.symm⟩
  · rintro ⟨hi, hd, rfl⟩
    rw [exec_insertable h ht hi, hd]

end

/-! ## Changing a row -/

section

variable {ρ α : Type} [Persistent ρ α]

/-- An update that succeeds finds no row and changes nothing, or puts a changed row in the place of
the one it finds. -/
theorem update_ok (h : s.Ready) {id : Value} {fields : List (String × Value)} {found : Bool}
    (hid : id.isId = true) (hf : fields ≠ [])
    (hx : (update ρ id fields).exec s = (.ok found, t)) :
    (t = s ∧ ∀ r ∈ (Relation.table (ρ := ρ) s.database.ledger).rows, id.id? ≠ some r.id) ∨
      ∃ cells old r, paramFields fields = .ok cells ∧
        old ∈ (Relation.table (ρ := ρ) s.database.ledger).rows ∧ id.id? = some old.id ∧
        Ledger.assigned (Relation.columns (ρ := ρ)) cells old = .ok r ∧
        (∀ o ∈ (Relation.table (ρ := ρ) s.database.ledger).rows, o.id ≠ old.id →
          Ledger.clash o r = false) ∧
        t = s.put (Relation.withTable s.database.ledger
          ((Relation.table (ρ := ρ) s.database.ledger).replace old.id r)) := by
  have hcols : (s.database.layout.columns (ρ := ρ)) = Relation.columns := by
    simp [Layout.columns, h.layout]
  rw [update, if_neg (by simpa using hf)] at hx
  obtain ⟨n, u, hw, hp⟩ := bind_ok hx
  obtain ⟨-, rfl⟩ := pure_ok hp
  obtain ⟨l, hrun, rfl⟩ := (write_ok ρ h).1 hw
  simp only [hcols] at hrun
  split at hrun
  · cases hrun
  · cases hcells : paramFields fields with
    | error e => simp [hcells, bind, Except.bind] at hrun
    | ok cells =>
      cases hc : param id with
      | error e => simp [hcells, hc, bind, Except.bind] at hrun
      | ok c =>
        simp only [hcells, hc, bind, Except.bind, Except.ok.injEq, Ledger.update,
          isInteger_of_isId hid hc] at hrun
        cases hfind : (Relation.table (ρ := ρ) s.database.ledger).rows.find?
            fun r => decide (id.id? = some r.id) with
        | none =>
          simp only [hfind, Except.ok.injEq, Prod.mk.injEq] at hrun
          refine .inl ⟨by rw [← hrun.2, put_ledger], fun r hr hrid => ?_⟩
          simpa [hrid] using List.find?_eq_none.1 hfind r hr
        | some old =>
          have hold := List.mem_of_find?_eq_some hfind
          have hoid : id.id? = some old.id := by simpa using List.find?_some hfind
          simp only [hfind] at hrun
          split at hrun
          · cases hrun
          · rename_i r hr
            split at hrun
            · cases hrun
            · rename_i x hx
              obtain ⟨rfl, -, hclash, -⟩ := checked_ok hx
              split at hrun
              · cases hrun
              · simp only [Except.ok.injEq, Prod.mk.injEq] at hrun
                refine .inr ⟨cells, old, x, rfl, hold, hoid, hr, fun o ho hne => ?_, ?_⟩
                · exact hclash o (by simp [ho, hne])
                · rw [hrun.2]

theorem update_ready (h : s.Ready) {id : Value} {fields : List (String × Value)} {found : Bool}
    (hid : id.isId = true) (hf : fields ≠ []) (hx : (update ρ id fields).exec s = (.ok found, t)) :
    t.Ready := by
  rcases update_ok h hid hf hx with ⟨rfl, -⟩ | ⟨_, _, _, -, -, -, -, -, rfl⟩
  · exact h
  · exact h.put _

/-- A deletion that succeeds removes the row of the id. -/
theorem delete_ok (h : s.Ready) {id : Value} {found : Bool} (hid : id.isId = true)
    (hx : (delete ρ id).exec s = (.ok found, t)) :
    ∃ n l, Ledger.remove s.enforce s.database.ledger
      (fun r : Row ρ => decide (id.id? = some r.id)) = .ok (n, l) ∧ t = s.put l := by
  rw [delete] at hx
  obtain ⟨n, u, hw, hp⟩ := bind_ok hx
  obtain ⟨-, rfl⟩ := pure_ok hp
  obtain ⟨l, hrun, rfl⟩ := (write_ok ρ h).1 hw
  cases hc : param id with
  | error e => simp [hc, bind, Except.bind] at hrun
  | ok c =>
    simp only [hc, bind, Except.bind, Except.ok.injEq, isInteger_of_isId hid hc] at hrun
    exact ⟨n, l, hrun, rfl⟩

end

end Store

end Bookkeeping
