import Bookkeeping.Proofs.Atomicity

/-! # Calls without interruptions

A call may be broken off from outside, at a statement or at a balance shift. If it is not, and
succeeds, it does what it does in a session that nothing will break off. So whatever is to be said
about successful calls need only be said about calm sessions.
-/

namespace Bookkeeping.Store

open Op

variable {T : Terms} {k : Grade} {α β : Type} {Q : α → Prop}

/-- A block that succeeds does the same in a calm session, if its body does. -/
theorem unbroken_transaction {body : Op α} {s t : Session} {a : α} (hkept : body.Kept s.start)
    (h : ∀ u v, (u = s ∨ u = s.start) → body.exec u = (.ok a, v) → body.exec u.calm = (.ok a, v.calm))
    (hx : (transaction body).exec s = (.ok a, t)) :
    (transaction body).exec s.calm = (.ok a, t.calm) := by
  cases hs : s.inBlock with
  | true =>
    rw [exec_transaction_inside body hs] at hx
    rw [exec_transaction_inside body (show s.calm.inBlock = true from hs)]
    exact h s t (.inl rfl) hx
  | false =>
    obtain ⟨u, hu, rfl⟩ := transaction_ok hs hx
    have hin : u.standing = .inside s.database := hkept.of_ok hu
    exact exec_transaction_ok (show s.calm.inBlock = false from hs) rfl (h s.start u (.inr rfl) hu)
      ⟨by rw [Session.isOpen, show u.calm.standing = _ from hin], rfl⟩

theorem unbroken_bind {x : Op α} {f : α → Op β} {s t : Session} {b : β}
    (hx : ∀ a u, x.exec s = (.ok a, u) → x.exec s.calm = (.ok a, u.calm))
    (hf : ∀ a u, x.exec s = (.ok a, u) → (f a).exec u = (.ok b, t) →
      (f a).exec u.calm = (.ok b, t.calm))
    (h : (x >>= f).exec s = (.ok b, t)) : (x >>= f).exec s.calm = (.ok b, t.calm) := by
  obtain ⟨a, u, hxs, hfu⟩ := bind_ok h
  rw [exec_bind_ok (hx a u hxs)]
  exact hf a u hxs hfu

theorem unbroken_countStatement {s t : Session} {a : Unit}
    (h : countStatement.exec s = (.ok a, t)) : countStatement.exec s.calm = (.ok a, t.calm) := by
  rw [countStatement, exec_of] at h
  split at h <;> cases h
  rfl

theorem unbroken_statement {run : Session → Except Failure (α × Database)}
    (calm : ∀ s, run s.calm = run s) {s t : Session} {a : α}
    (h : (statement run).exec s = (.ok a, t)) : (statement run).exec s.calm = (.ok a, t.calm) := by
  refine unbroken_transaction ((Kept.countStatement _).bind fun _ t _ => .replacing run t)
    (fun u v _ hu => unbroken_bind (fun _ _ => unbroken_countStatement) (fun _ w _ hw => ?_) hu) h
  rw [replacing, exec_of] at hw ⊢
  rw [calm]
  cases hr : run w with
  | error e =>
    rw [hr] at hw
    cases hw
  | ok p =>
    rw [hr] at hw
    cases hw
    rfl

/-- An orderly operation that succeeds does the same in a calm session. -/
theorem Op.Orderly.unbroken {op : Op α} (h : op.Orderly T k Q) {s t : Session}
    (hs : s.setting = T.setting) {a : α} (hx : op.exec s = (.ok a, t)) :
    op.exec s.calm = (.ok a, t.calm) := by
  induction h generalizing s t with
  | pure | hashed | emit =>
    cases hx
    rfl
  | lift r =>
    obtain ⟨rfl, rfl⟩ := lift_ok hx
    rfl
  | look calm h ih =>
    rw [exec_bind, exec_get] at hx ⊢
    simp only [calm]
    exact ih s hs hx
  | logged hlogs operation h ih =>
    rw [Service.exec_logged, ih hs (Service.logged_ok hx)]
  | burnFuse =>
    rw [Store.burnFuse, exec_of] at hx
    split at hx <;> cases hx <;> rfl
  | reading calm h => exact unbroken_statement calm hx
  | change calm h =>
    refine unbroken_transaction ((Kept.statement _ _).bind fun _ t _ => .obey _ _ _ t)
      (fun u v _ hu => unbroken_bind
        (fun _ _ => unbroken_statement fun s => by rw [calm]; rfl) (fun changed w _ hw => ?_) hu) hx
    cases changed <;> cases hw
    rfl
  | abandoning h ih => exact abandoning_ok.2 (ih hs (abandoning_ok.1 hx))
  | transaction h ih =>
    refine unbroken_transaction (h.kept hs) (fun u v hu hv => ih ?_ hv) hx
    rcases hu with rfl | rfl <;> exact hs
  | bind hx' hf ihx ihf =>
    refine unbroken_bind (fun a u => ihx hs) (fun a u hxs hfu => ?_) hx
    obtain ⟨ha, ht⟩ := hx'.next hs hxs
    exact ihf a ha ht hfu
  | finish hx' hf ihx ihf =>
    refine unbroken_bind (fun a u => ihx hs) (fun a u hxs hfu => ?_) hx
    obtain ⟨ha, ht⟩ := hx'.next hs hxs
    exact ihf a ha ht hfu
  | weaken h hk hQ ih => exact ih hs hx

end Bookkeeping.Store

namespace Bookkeeping.Service

open Store

theorem Call.unbroken (c : Call) {s t : Session} {a : Answer} (hx : c.run.exec s = (.ok a, t)) :
    c.run.exec s.calm = (.ok a, t.calm) :=
  (c.orderly (T := .calls s.setting) trivial).unbroken rfl hx

/-- A call leaves the database as it was, or succeeds and does what it does in a calm session. -/
theorem Call.unchanged_or_calm (c : Call) {s : Session} (hs : s.inBlock = false) :
    (c.run.exec s).2.database = s.database ∨
      ∃ a t, c.run.exec s.calm = (.ok a, t) ∧ t.database = (c.run.exec s).2.database := by
  cases h : c.run.exec s with
  | mk r t =>
    cases r with
    | error e => exact .inl (by simpa [h] using (c.atomic s hs).2 e (by rw [h]))
    | ok a => exact .inr ⟨a, t.calm, c.unbroken h, rfl⟩

end Bookkeeping.Service
