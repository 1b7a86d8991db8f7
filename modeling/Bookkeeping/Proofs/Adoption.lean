import Bookkeeping.Proofs.Acceptance
import Bookkeeping.Proofs.Accounts

/-! # New references

A row may go on referring to another one that has been archived. It does not begin to: whatever a call
comes to, what a row refers to after it and did not refer to before is a row of the same user that was
not archived, or that the call made.
-/

namespace Bookkeeping.Store

open Service

variable {l m : Ledger} {k : Reference} {user row id : Int}

/-! ## Changes -/

/-- A source that only moves money goes on being held as before. -/
theorem Ledger.Adopts.of_shifts {shifts : List Shift}
    (users : ∀ u ∈ m.users.rows, u ∈ l.users.rows) (hs : m.sources = (l.shiftAll shifts).sources)
    (entries : ∀ e ∈ m.entries.rows, (∃ r ∈ l.entries.rows, r.id = e.id ∧
      r.data.owner = e.data.owner ∧ r.data.refersTo = e.data.refersTo) ∨
      ∀ k id, e.data.refersTo k = some id → l.Eligible m k e.data.owner id) : l.Adopts m := by
  refine .of_rows (fun u hu c hc => .inl ⟨u, users u hu, rfl, hc⟩) (fun x hx => .inl ?_) entries
  obtain ⟨r, hr, hid, ⟨howner, hcurrency⟩, -⟩ := mem_shiftAll (hs ▸ hx)
  exact ⟨r, hr, hid, howner, hcurrency⟩

/-- A change makes rows refer to nothing new but active rows of their users. -/
theorem Change.adopts {gone : Row StoredEntry → Prop} (h : Change gone l m) : l.Adopts m := by
  -- but for the one that is recorded, an entry refers to what it referred to before
  have hsame {e : Row StoredEntry} (he : e ∈ l.entries.rows) : ∃ r ∈ l.entries.rows, r.id = e.id ∧
      r.data.owner = e.data.owner ∧ r.data.refersTo = e.data.refersTo := ⟨e, he, rfl, rfl, rfl⟩
  cases h with
  | settings settling => exact settling.adopts
  | record e shifts room active filed effects bears placed =>
    refine .of_shifts (fun u hu => by simpa using hu) rfl fun x hx => ?_
    rcases Table.mem_insert.1 hx with hx | rfl
    · exact .inl (hsame hx)
    · exact .inr fun k id hid => .inl (placed k id hid)
  | mark r archived shifts mem other effects bears =>
    refine .of_shifts (fun u hu => by simpa using hu) rfl fun x hx => .inl ?_
    rcases Table.mem_replace.1 hx with ⟨rfl, -⟩ | ⟨hx, -⟩
    · exact ⟨r, mem, rfl, rfl, funext fun k => by cases k <;> rfl⟩
    · exact hsame hx
  | remove r shifts mem meant undone bears =>
    exact .of_shifts (fun u hu => by simpa using hu) rfl fun x hx =>
      .inl (hsame (Table.mem_erase.1 hx).1)
  | clear user meant =>
    exact .of_rows (fun u hu c hc => .inl ⟨u, (Table.mem_erase.1 hu).1, rfl, hc⟩)
      (fun x hx => .inl ⟨x, (Table.mem_erase.1 hx).1, rfl, rfl, rfl⟩)
      fun x hx => .inl (hsame (Table.mem_erase.1 hx).1)

/-- In an intact ledger every row refers to rows of its own user. -/
theorem Intact.owns_of_refers (h : Intact l) (hr : l.Refers k user row id) :
    l.AtTarget k fun {_} [_] t => t.Owns user id := by
  cases k with
  | reporting =>
    obtain ⟨u, hu, rfl, rfl, hid⟩ := hr
    exact h.reporting u hu id hid
  | held =>
    obtain ⟨x, hx, rfl, rfl, rfl⟩ := hr
    exact h.funded x hx
  | category =>
    obtain ⟨e, he, rfl, rfl, hid⟩ := hr
    cases hid
    exact (h.filed e he).category
  | currency =>
    obtain ⟨e, he, rfl, rfl, hid⟩ := hr
    cases hid
    exact (h.filed e he).currency
  | source =>
    obtain ⟨e, he, rfl, rfl, hid⟩ := hr
    cases hid
    exact (h.filed e he).source
  | secondary =>
    obtain ⟨e, he, rfl, rfl, hid⟩ := hr
    exact (h.filed e he).secondary id hid

/-! ## Calls -/

variable {s : Session} {c : Call}

/-- What a row of a user refers to after a call and did not refer to before is a row of that user. It
was one before the call and was not archived then, or the call made it and it is not archived. -/
theorem Reachable.adopts_offered (hd : Reachable s.database) (ho : s.inTransaction = false)
    (hc : c.Typed) (hnow : (c.run.exec s).2.database.ledger.Refers k user row id)
    (hnew : ¬ s.database.ledger.Refers k user row id) :
    ((c.run.exec s).2.database.ledger.AtTarget k fun {_} [_] t => t.Owns user id) ∧
      (s.database.ledger.Offers k user id ∨
        (¬ s.database.ledger.AtTarget k fun {_} [_] t => t.Has id) ∧
          (c.run.exec s).2.database.ledger.Offers k user id) := by
  have howns := (hd.call (Session.not_inBlock ho) hc).intact.2.owns_of_refers hnow
  exact ⟨howns, ((hd.change (Session.not_inBlock ho) hc).adopts k user row id hnow).resolve_left hnew⟩

/-- Registering makes the currency that the new user reports in, and the first entry refers to a source
that was there before. -/
theorem first_references :
    (let t := (registration.run.exec newSession).2
     t.database.ledger.Refers .reporting 1 1 1 ∧ ¬ newSession.database.ledger.currencies.Has 1 ∧
      t.database.ledger.currencies.OwnsActive 1 1) ∧
    let s := newSession.after (firstSpending.take 3)
    let t := ((Call.createEntry (.int 1) (some bread) []).run.exec s).2
    t.database.ledger.Refers .source 1 1 1 ∧ s.database.ledger.sources.OwnsActive 1 1 ∧
      t.database.ledger.sources.Owns 1 1 := by
  constructor
  · have hnow : (registration.run.exec newSession).2.database.ledger.Refers .reporting 1 1 1 := by
      decide +kernel
    have hold : ¬ newSession.database.ledger.Refers .reporting 1 1 1 := by decide +kernel
    have hnone : ¬ newSession.database.ledger.Offers .reporting 1 1 := by
      rintro ⟨r, hr, -⟩
      cases hr
    exact ⟨hnow, ((Reachable.adopts_offered .migrated rfl (typed_firstSpending _
      List.mem_cons_self) hnow hold).2).resolve_left hnone⟩
  · intro s t
    have hd : Reachable s.database := reachable_firstSpending 3
    have ho : s.inTransaction = false := by decide +kernel
    have hnow : t.database.ledger.Refers .source 1 1 1 := by decide +kernel
    have hold : ¬ s.database.ledger.Refers .source 1 1 1 := by decide +kernel
    have hhas : ∃ r ∈ s.database.ledger.sources.rows, r.id = 1 := by decide +kernel
    clear_value s
    obtain ⟨howns, hoffered | ⟨hnone, -⟩⟩ := Reachable.adopts_offered hd ho typed_bread hnow hold
    · exact ⟨hnow, hoffered, howns⟩
    · exact absurd hhas hnone

end Bookkeeping.Store
