import Bookkeeping.Proofs.Requests

/-! # Outcomes that are alike

Two ways of asking for the same thing may be refused in different words. Here is what it means that
nothing else is different: the same is done and the same comes of it, or both are refused by an error
of the same class about the same field.
-/

namespace Bookkeeping

/-- The field that a failure is about, if it names one. -/
def Failure.field? : Failure → Option String
  | .rejected r => r.field
  | _ => none

/-- Failures of one class about one field. -/
def Failure.Like (e e' : Failure) : Prop := e.text = e'.text ∧ e.field? = e'.field?

/-- Outcomes that differ in the wording of a failure at most. -/
inductive Alike {α β : Type} (R : α → β → Prop) : Except Failure α → Except Failure β → Prop
  | ok {a : α} {b : β} (h : R a b) : Alike R (.ok a) (.ok b)
  | error {e e' : Failure} (h : e.Like e') : Alike R (.error e) (.error e')

namespace Alike

variable {α β γ δ : Type} {R : α → β → Prop} {S : γ → δ → Prop}

theorem refl (x : Except Failure α) : Alike Eq x x := by
  cases x with
  | ok a => exact .ok rfl
  | error e => exact .error ⟨rfl, rfl⟩

theorem bind {x : Except Failure α} {y : Except Failure β} {f : α → Except Failure γ}
    {g : β → Except Failure δ} (h : Alike R x y) (hf : ∀ a b, R a b → Alike S (f a) (g b)) :
    Alike S (x >>= f) (y >>= g) := by
  cases h with
  | ok h => exact hf _ _ h
  | error h => exact .error h

/-- The same after outcomes that are alike. -/
theorem bind_eq {x y : Except Failure α} {f : α → Except Failure γ} {g : α → Except Failure δ}
    (h : Alike Eq x y) (hf : ∀ a, x = .ok a → Alike S (f a) (g a)) : Alike S (x >>= f) (y >>= g) := by
  cases h with
  | ok h => exact h ▸ hf _ rfl
  | error h => exact .error h

theorem map {x : Except Failure α} {y : Except Failure β} {f : α → γ} {g : β → δ} (h : Alike R x y)
    (hf : ∀ a b, R a b → S (f a) (g b)) : Alike S (f <$> x) (g <$> y) := by
  cases h with
  | ok h => exact .ok (hf _ _ h)
  | error h => exact .error h

/-- Rejections of one kind about one field. -/
theorem reject {r r' : Rejection} (hk : r.kind = r'.kind) (hf : r.field = r'.field) :
    Alike R (Check.reject r) (Check.reject r') :=
  .error ⟨congrArg RejectionKind.text hk, hf⟩

end Alike

namespace Store

/-- Operations that come to the same in every session. -/
def Op.Alike {α : Type} (x y : Op α) : Prop :=
  ∀ s, Bookkeeping.Alike Eq (x.exec s).1 (y.exec s).1 ∧ (x.exec s).2 = (y.exec s).2

namespace Op.Alike

variable {α β : Type}

theorem refl (x : Op α) : x.Alike x := fun _ => ⟨.refl _, rfl⟩

theorem lift {x y : Except Failure α} (h : Bookkeeping.Alike Eq x y) :
    (Op.lift x).Alike (Op.lift y) := fun _ => ⟨h, rfl⟩

theorem reject {r r' : Rejection} (hk : r.kind = r'.kind) (hf : r.field = r'.field) :
    (Op.reject r : Op α).Alike (Op.reject r') := fun _ => ⟨.reject hk hf, rfl⟩

theorem bind {x y : Op α} {f g : α → Op β} (h : x.Alike y) (hf : ∀ a, (f a).Alike (g a)) :
    (x >>= f).Alike (y >>= g) := by
  intro s
  obtain ⟨hresult, hstate⟩ := h s
  rw [exec_bind, exec_bind]
  cases hx : x.exec s with
  | mk r t =>
    cases hy : y.exec s with
    | mk r' t' =>
      rw [hx, hy] at hresult hstate
      obtain rfl : t = t' := hstate
      cases hresult with
      | ok heq =>
        subst heq
        exact hf _ t
      | error he => exact ⟨.error he, rfl⟩

/-- What is done under a condition only. -/
theorem whether {c : Bool} {x x' : Op α} {k k' : Op β} (hx : x.Alike x') (hk : k.Alike k') :
    (if c = true then do let _ ← x; k else k : Op β).Alike
      (if c = true then do let _ ← x'; k' else k') := by
  cases c with
  | false => exact hk
  | true => exact hx.bind fun _ => hk

/-- What is done in one of two ways. -/
theorem either {c : Bool} {x x' y y' : Op α} {k k' : α → Op β} (hx : c = true → x.Alike x')
    (hy : c = false → y.Alike y') (hk : ∀ a, (k a).Alike (k' a)) :
    (if c = true then do let a ← x; k a else do let a ← y; k a : Op β).Alike
      (if c = true then do let a ← x'; k' a else do let a ← y'; k' a) := by
  cases c with
  | false => exact (hy rfl).bind hk
  | true => exact (hx rfl).bind hk

theorem undoing {x y : Op α} (h : x.Alike y) : (Store.undoing x).Alike (Store.undoing y) := by
  intro s
  obtain ⟨hresult, hstate⟩ := h s
  rw [exec_undoing, exec_undoing]
  cases hx : x.exec s with
  | mk r t =>
    cases hy : y.exec s with
    | mk r' t' =>
      rw [hx, hy] at hresult hstate
      obtain rfl : t = t' := hstate
      cases hresult with
      | ok heq => exact ⟨.ok heq, rfl⟩
      | error he => exact ⟨.error he, rfl⟩

theorem transaction {x y : Op α} (h : x.Alike y) :
    (Store.transaction x).Alike (Store.transaction y) := by
  intro s
  cases hs : s.inBlock with
  | true =>
    rw [exec_transaction_inside x hs, exec_transaction_inside y hs]
    exact h s
  | false =>
    rw [exec_transaction_outside x hs, exec_transaction_outside y hs]
    exact (refl openBlock).bind (fun _ => h.undoing.bind fun _ => refl _) s

end Op.Alike

/-! ## Looking up what an id refers to -/

/-- What the store compares ids with, given a value. -/
def idCell (v : Value) : Except Failure Cell := (param v).map Cell.asInteger

theorem findOwned_congr (ρ : Type) {α : Type} [OwnedRecord ρ α] {user v w : Value}
    (h : idCell v = idCell w) : findOwned ρ user v = findOwned ρ user w := by
  unfold idCell at h
  unfold findOwned
  cases hv : param v with
  | error e =>
    cases hw : param w with
    | error e' =>
      rw [hv, hw] at h
      cases h
      rfl
    | ok c' =>
      rw [hv, hw] at h
      cases h
  | ok c =>
    cases hw : param w with
    | error e' =>
      rw [hv, hw] at h
      cases h
    | ok c' =>
      rw [hv, hw] at h
      have hc : c.asInteger = c'.asInteger := Except.ok.inj h
      unfold selectOne
      have hcell (held : Cell) : c.isInteger held = c'.isInteger held := by
        rw [Cell.isInteger, hc, Cell.isInteger]
      cases param user <;> simp [bind, Except.bind, hcell]

end Store

namespace Service

open Store

theorem alike_loadOwned (ρ : Type) {α : Type} [OwnedRecord ρ α] {user v w : Value} (field : String)
    (active : Bool) (hn : v.isNull = w.isNull) (h : v.isNull = false → idCell v = idCell w) :
    (loadOwned ρ user v field active).Alike (loadOwned ρ user w field active) := by
  unfold loadOwned
  rw [← hn]
  refine Op.Alike.either (fun _ => .refl _) (fun hv => ?_) fun found => ?_
  · rw [findOwned_congr ρ (h hv)]
    exact .refl _
  · cases found with
    | none => exact .reject rfl rfl
    | some r =>
      dsimp only
      split
      · exact .reject rfl rfl
      · exact .refl _

/-- A rejection that is logged stays what it is, and the log is no part of the database. -/
theorem exec_logged_outcome {α : Type} (operation : String) (op : Op α) (s : Session) :
    ((logged operation op).exec s).1 = (op.exec s).1 ∧
      ((logged operation op).exec s).2.database = (op.exec s).2.database := by
  rw [exec_logged]
  cases op.exec s with
  | mk r t =>
    cases r with
    | ok a => exact ⟨rfl, rfl⟩
    | error e => cases e <;> exact ⟨rfl, rfl⟩

theorem logged_alike {α : Type} {x y : Op α} (h : x.Alike y) (operation : String) (s : Session) :
    Alike Eq ((logged operation x).exec s).1 ((logged operation y).exec s).1 ∧
      ((logged operation x).exec s).2.database = ((logged operation y).exec s).2.database := by
  obtain ⟨hx, hxd⟩ := exec_logged_outcome operation x s
  obtain ⟨hy, hyd⟩ := exec_logged_outcome operation y s
  rw [hx, hy, hxd, hyd]
  exact ⟨(h s).1, congrArg Session.database (h s).2⟩

/-- Runs of calls that come to the same: the database is the same afterwards, and so is the answer or
what is at fault. -/
def SameOutcome (x y : Except Failure Answer × Session) : Prop :=
  Alike Eq x.1 y.1 ∧ x.2.database = y.2.database

end Service

end Bookkeeping
