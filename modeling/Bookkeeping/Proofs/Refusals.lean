import Bookkeeping.Proofs.Layers

/-! # Operations that fail and change nothing

An operation that starts by looking up a row of the user fails as the lookup does. The lookup takes any
integer that the store can hold; a larger one is refused for its size.
-/

namespace Bookkeeping.Store

open Op

variable {α β γ : Type} {s t : Session} {e : Failure}

/-! ## Failures that leave no trace -/

/-- An operation fails in a given way, and leaves the database as it was and the session where it
was. -/
def Op.Fails (op : Op α) (s : Session) (e : Failure) : Prop :=
  ∃ t, op.exec s = (.error e, t) ∧ t.database = s.database ∧ t.standing = s.standing

/-- The failure of a check that does not pass. -/
def fault? (x : Except Failure α) : Option Failure :=
  match x with
  | .ok _ => none
  | .error e => some e

namespace Op.Fails

theorem map {op : Op α} (h : op.Fails s e) (f : α → β) : (f <$> op).Fails s e := by
  obtain ⟨t, hrun, ht⟩ := h
  exact ⟨t, by rw [exec_map, hrun], ht⟩

theorem logged {op : Op α} (h : op.Fails s e) (operation : String) :
    (Service.logged operation op).Fails s e := by
  obtain ⟨t, hrun, ht⟩ := h
  rw [Op.Fails, Service.exec_logged, hrun]
  cases e <;> exact ⟨_, rfl, ht⟩

/-- What a transaction did before it failed is undone. -/
theorem transaction {body : Op α} (ho : s.inBlock = false) (hb : s.breaks = none)
    (h : body.Fails s.start e) : (Store.transaction body).Fails s e := by
  obtain ⟨t, hrun, -, ht⟩ := h
  replace ht : t.standing = .inside s.database := ht
  exact ⟨_, exec_transaction_error ho hb hrun, by simp [Session.rollBack, ht],
    by simp [Session.rollBack, ht, Session.inBlock_eq_false.1 ho]⟩

theorem bind {x : Op β} (h : x.Fails s e) (f : β → Op α) : (x >>= f).Fails s e := by
  obtain ⟨t, hrun, ht⟩ := h
  exact ⟨t, exec_bind_error hrun, ht⟩

/-- What goes before succeeds. -/
theorem after {x : Op β} {f : β → Op α} {b : β} (hx : x.exec s = (.ok b, s))
    (h : (f b).Fails s e) : (x >>= f).Fails s e := by
  obtain ⟨t, hrun, ht⟩ := h
  exact ⟨t, (exec_bind_ok hx).trans hrun, ht⟩

theorem lift {x : Except Failure α} (h : x = .error e) : (Op.lift x).Fails s e :=
  ⟨s, by rw [exec_lift, h], rfl, rfl⟩

/-- A check that passes goes before. -/
theorem passed {x : Except Failure β} {f : β → Op α} {b : β} (hx : x = .ok b)
    (h : (f b).Fails s e) : (Op.lift x >>= f).Fails s e :=
  .after (by rw [exec_lift, hx]) h

/-- A check that does not pass goes before the failure of what follows. -/
theorem checked {x : Except Failure β} {f : β → Op α} (h : ∀ b, x = .ok b → (f b).Fails s e) :
    (Op.lift x >>= f).Fails s ((fault? x).getD e) := by
  cases x with
  | ok b => exact .passed rfl (h b rfl)
  | error e' => exact .bind (.lift rfl) f

/-- The same of a check of what may be missing. -/
theorem optionally {c : Bool} {x : Except Failure β} {k : Option β → Op α}
    (h : ∀ o, (∀ b ∈ o, x = .ok b) → (k o).Fails s e) :
    (if c = true then do let b ← pure none; k b else do let b ← some <$> Op.lift x; k b).Fails s
      ((if c then none else fault? x).getD e) := by
  cases c with
  | true => exact .after (exec_pure none s) (h none (by simp))
  | false =>
    cases x with
    | ok b =>
      refine .after (b := some b) ?_ (h (some b) (by simp))
      rw [exec_map, exec_lift]
    | error e' => exact .bind (.map (.lift rfl) some) k

end Op.Fails

end Bookkeeping.Store

namespace Bookkeeping.Service

open Store Op

variable {s : Session} {user id : Value} {u n : Int}

/-! ## Looking up -/

theorem param_of_id_or_overflow {v : Value} (hv : v.id? = some n) :
    param v = if fitsInteger n then .ok (.integer n) else .error (.misuse .overflow) := by
  cases hn : fitsInteger n with
  | true => exact param_of_id hv hn
  | false =>
    cases v with
    | int k =>
      obtain rfl : k = n := by simpa [Value.id?] using hv
      simp [param, Cell.ofValue, hn, Except.mapError]
    | bool b =>
      obtain rfl : (if b then 1 else 0) = n := by simpa [Value.id?] using hv
      cases b <;> cases hn
    | _ => cases hv

/-- What is said of an id under which the user has no row. -/
def unresolved (field : String) (user id : Value) (n : Int) : Failure :=
  if fitsInteger n then .rejected (.notFound field user id) else .misuse .overflow

theorem isNull_of_id? {v : Value} (h : v.id? = some n) : v.isNull = false := by
  cases v <;> first | rfl | cases h

section

variable {ρ α : Type} [OwnedRecord ρ α] (hb : s.breaks = none) (hl : s.database.layout = .full)
  (ht : (Relation.table (ρ := ρ) s.database.ledger).Tidy) (huid : user.id? = some u)
  (hu : fitsInteger u = true) (hid : id.id? = some n)
  (hnone : ¬ (Relation.table (ρ := ρ) s.database.ledger).Owns u n)

include hb hl ht huid hu hid hnone

/-- No row is found for an id that the store can hold. -/
theorem exec_findOwned_absent : ∃ t, (findOwned ρ user id).exec s
    = (if fitsInteger n then .ok none else .error (.misuse .overflow), t) ∧
      t.database = s.database := by
  have hfind : (Relation.table (ρ := ρ) s.database.ledger).rows.find? (fun r =>
      (Cell.integer n).isInteger (.integer r.id) && (Cell.integer u).isInteger (ownerCell r))
      = none := by
    refine List.find?_eq_none.2 fun r hr hp => hnone ?_
    simp only [ownerCell, Row.cell_of_odd_nil r (ht.proper r hr), Cell.isInteger_integer,
      Bool.and_eq_true, beq_iff_eq] at hp
    exact ⟨r, hr, hp.1, hp.2⟩
  obtain ⟨t, hx, hd, -⟩ := exec_selectOne_row ρ hb (by rw [hl]; rfl)
    (do
      let id ← param id
      let user ← param user
      .ok (id, user)) fun c r => c.1.isInteger (.integer r.id) && c.2.isInteger (ownerCell r)
  refine ⟨t, ?_, hd⟩
  rw [findOwned, hx, param_of_id_or_overflow hid, param_of_id huid hu]
  cases fitsInteger n with
  | false => rfl
  | true => simp only [if_true, bind, Except.bind, hfind]

theorem fails_loadOwned (field : String) (active : Bool) :
    (loadOwned ρ user id field active).Fails s (unresolved field user id n) := by
  obtain ⟨t, hfind, ht⟩ := exec_findOwned_absent hb hl ht huid hu hid hnone
  rw [loadOwned, isNull_of_id? hid, if_neg (by simp), unresolved]
  have hkept : (findOwned ρ user id).Kept s :=
    (orderly_selectOne (T := .calls s.setting) ρ _ _).kept rfl
  cases hn : fitsInteger n with
  | false =>
    rw [hn] at hfind
    exact .bind ⟨t, hfind, ht, hkept.of_error hfind (by simp [Undoes, Trouble.failure])⟩ _
  | true =>
    rw [hn] at hfind
    exact ⟨t, exec_bind_ok hfind, ht, hkept.of_ok hfind⟩

end

/-- A user who is not there. -/
theorem fails_requireUser (h : s.Ready) (huid : user.id? = some u) (hu : fitsInteger u = true)
    (hnone : ¬ s.database.ledger.users.Has u) :
    (requireUser user).Fails s (.rejected (.noUser user)) := by
  have hrows : s.database.ledger.users.rows.find? (fun r : Row User =>
      (Cell.integer u).isInteger (.integer r.id)) = none := by
    refine List.find?_eq_none.2 fun r hr hp => hnone ⟨r, hr, ?_⟩
    simpa only [Cell.isInteger_integer, beq_iff_eq] using hp
  have hfind : (find User user).exec s = (.ok none, s) := by
    rw [find, exec_selectOne User h, param_of_id huid hu]
    exact congrArg (·, s) (pick_none.2 hrows)
  exact ⟨s, by rw [requireUser, exec_bind_ok hfind]; rfl, rfl, rfl⟩

end Bookkeeping.Service
