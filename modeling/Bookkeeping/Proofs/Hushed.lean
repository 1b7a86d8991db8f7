import Bookkeeping.Proofs.Atomicity

/-! # What is logged on the way

What an operation does to the tables is logged by the operation itself, when it is done. The
statements that it is made of log nothing of their own, but for the transactions: each of them that
fails says so, in an event of the lowest level.
-/

namespace Bookkeeping.Store

variable {α : Type} {s t u : Session} {P : Log.Event → Prop} {T : Terms} {k : Grade} {Q : α → Prop}

/-- The event of a transaction that is undone. -/
def IsRollback (e : Log.Event) : Prop := ∃ path, e = Session.rollbackEvent path

theorem IsRollback.level {e : Log.Event} (h : IsRollback e) : e.level = .debug := by
  obtain ⟨path, rfl⟩ := h
  rfl

/-- A session whose log goes on with events of some kind. -/
def Session.Logs (P : Log.Event → Prop) (s t : Session) : Prop :=
  ∃ events, t.log = s.log ++ events ∧ ∀ e ∈ events, P e

namespace Session

namespace Logs

theorem of_log_eq (h : t.log = s.log) : s.Logs P t := ⟨[], by simpa using h, by simp⟩

theorem trans (h : s.Logs P t) (h' : t.Logs P u) : s.Logs P u := by
  obtain ⟨events, hlog, hall⟩ := h
  obtain ⟨more, hmore, hall'⟩ := h'
  refine ⟨events ++ more, by rw [hmore, hlog, List.append_assoc], fun e he => ?_⟩
  rcases List.mem_append.1 he with he | he
  · exact hall e he
  · exact hall' e he

/-- One more event. -/
theorem snoc {e : Log.Event} (h : s.Logs P t) (he : P e) (hlog : u.log = t.log ++ [e]) :
    s.Logs P u :=
  h.trans ⟨[e], hlog, by simpa using he⟩

end Logs

theorem log_rollBack (s : Session) : s.rollBack.log = s.log ++ [rollbackEvent s.path] := by
  cases hs : s.standing <;> simp [rollBack, hs]

theorem log_abandon (s : Session) : s.abandon.log = s.log := by
  cases hs : s.standing <;> simp [abandon, hs]

theorem log_leaveOpen (s : Session) : s.leaveOpen.log = s.log := by
  cases hs : s.standing <;> simp [leaveOpen, hs]

theorem Served.logs (h : s.Served t) (hP : ∀ e, IsRollback e → P e) : s.Logs P t := by
  cases h with
  | rollBack => exact (Logs.of_log_eq rfl).snoc (hP _ ⟨s.path, rfl⟩) s.log_rollBack
  | abandon => exact .of_log_eq s.log_abandon
  | leaveOpen => exact .of_log_eq s.log_leaveOpen
  | same | counted | freed | start | commit | leave => exact .of_log_eq rfl

theorem Moves.logs (h : s.Moves T t) (hT : ¬T.logs) : s.Logs IsRollback t := by
  cases h with
  | served h => exact h.logs fun _ he => he
  | told h => exact absurd h hT
  | salted | burnt | wrote | noted => exact .of_log_eq rfl

theorem Leads.logs (h : s.Leads T t) (hT : ¬T.logs) : s.Logs IsRollback t := by
  induction h with
  | refl => exact .of_log_eq rfl
  | tail _ h ih => exact ih.trans (h.logs hT)

end Session

/-- The terms of operations that log nothing of their own. -/
abbrev Terms.silent (g : Setting) : Terms := .calls g False

/-- What logs nothing of its own logs nothing but that transactions are undone. -/
theorem Op.Orderly.hushed {op : Op α} {g : Setting} (h : op.Orderly (.silent g) k Q)
    (hs : s.setting = g) : s.Logs IsRollback (op.exec s).2 :=
  (h.leads hs).1.logs id

end Bookkeeping.Store
