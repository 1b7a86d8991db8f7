import Bookkeeping.Proofs.Numbers
import Bookkeeping.Proofs.Steps
import Bookkeeping.Service.Call

/-! # Looking up what a call names

Before a call changes anything it looks up the user and the rows that it names. What it finds is a
row of that user; looking it up changes nothing.
-/

namespace Bookkeeping

/-- A value of the type of ids is read as the integer that it stands for. -/
theorem Part.int_of_id {v : Value} {n m : Int} (hv : v.id? = some n) (h : Part.int v = .ok m) :
    m = n := by
  cases v with
  | int k =>
    cases h
    simpa [Value.id?] using hv
  | bool b =>
    cases h
    simpa [Value.id?] using hv
  | _ => cases hv

theorem Part.int_eq {v : Value} {n : Int} (hv : v.id? = some n) : Part.int v = .ok n := by
  cases v with
  | int k => exact congrArg Reading.ok (Option.some.inj hv)
  | bool b => exact congrArg Reading.ok (Option.some.inj hv)
  | _ => cases hv

/-- The same of an id that may be missing. -/
theorem Part.optional_int_eq {v : Value} (hv : v.isId = true) :
    Part.optional Part.int v = .ok v.id? := by
  cases v with
  | null => rfl
  | int n => rfl
  | bool b => rfl
  | _ => cases hv

/-- Two ids are the same if they stand for the same integer. -/
theorem Value.same_of_id? {v w : Value} {m n : Int} (hv : v.id? = some m) (hw : w.id? = some n) :
    v.same w = decide (m = n) := by
  have hnumber {v : Value} {m : Int} (h : v.id? = some m) :
      v.exactNumber? = some (Number.Exact.ofInt m) ∧ v.text? = none := by
    cases v <;> first
      | exact ⟨congrArg (some ∘ Number.Exact.ofInt) (Option.some.inj h), rfl⟩
      | cases h
  have hsame : v.same w = (Number.Exact.ofInt m == Number.Exact.ofInt n) := by
    cases v <;> cases w <;> first
      | cases hv; done
      | cases hw; done
      | simp [Value.same, (hnumber hv).1, (hnumber hv).2, (hnumber hw).1]
  rw [hsame, beq_eq_decide]
  exact decide_eq_decide.2 ⟨Number.Exact.ofInt_injective, congrArg _⟩

namespace Store

variable {s t : Session}

/-- An id that fits is stored as its integer. -/
theorem param_of_id {v : Value} {n : Int} (hv : v.id? = some n) (hn : fitsInteger n = true) :
    param v = .ok (.integer n) := by
  cases v with
  | int k =>
    obtain rfl : k = n := by simpa [Value.id?] using hv
    exact param_int hn
  | bool b =>
    obtain rfl : (if b then 1 else 0) = n := by simpa [Value.id?] using hv
    rfl
  | _ => cases hv

/-- A row that a successful pick singles out can be read. -/
theorem readable_of_pick {ρ α : Type} [Persistent ρ α] {l : Ledger} {r : Row ρ} {p : Row ρ → Bool}
    {found : Option (Row α)} (ht : (Relation.table (ρ := ρ) l).Tidy)
    (hr : r ∈ (Relation.table (ρ := ρ) l).rows)
    (hp : ∀ x ∈ (Relation.table (ρ := ρ) l).rows, p x = true ↔ x.id = r.id)
    (h : pick ρ l p = .ok found) : ∃ a, Persistent.decode .full r = .ok a := by
  rw [pick_of_mem ρ ht hr hp] at h
  cases hd : Persistent.decode (ρ := ρ) .full r with
  | error e =>
    rw [hd] at h
    cases h
  | ok a => exact ⟨a, rfl⟩

/-- The row of a user that a successful pick finds. -/
theorem findOwned_ok {ρ α : Type} [OwnedRecord ρ α] (h : s.Ready)
    (ht : (Relation.table (ρ := ρ) s.database.ledger).Tidy) {user id : Value} {a : Row α}
    (hu : user.isId = true) (hid : id.isId = true)
    (hx : (findOwned ρ user id).exec s = (.ok (some a), t)) :
    t = s ∧ ∃ r ∈ (Relation.table (ρ := ρ) s.database.ledger).rows, id.id? = some r.id ∧
      user.id? = some (Owned.owner r.data) ∧ Persistent.decode .full r = .ok a := by
  rw [findOwned, exec_selectOne ρ h] at hx
  cases hi : param id with
  | error e => simp [hi, bind, Except.bind] at hx
  | ok i =>
    cases hc : param user with
    | error e => simp [hi, hc, bind, Except.bind] at hx
    | ok u =>
      simp only [hi, hc, bind, Except.bind, isInteger_of_isId hid hi, Prod.mk.injEq] at hx
      obtain ⟨r, hfind, hd⟩ := (pick_some).1 hx.1
      have hr := List.mem_of_find?_eq_some hfind
      have hp := List.find?_some hfind
      simp only [ownerCell, Row.cell_of_odd_nil r (ht.proper r hr), isInteger_of_isId hu hc,
        Bool.and_eq_true, decide_eq_true_eq] at hp
      exact ⟨hx.2.symm, r, hr, hp.1, hp.2, hd⟩

/-- Looking up a row of a user under its id gives the record of the row. -/
theorem exec_findOwned {ρ α : Type} [OwnedRecord ρ α] (h : s.Ready)
    (ht : (Relation.table (ρ := ρ) s.database.ledger).Tidy) {user id : Value} {r : Row ρ}
    (hr : r ∈ (Relation.table (ρ := ρ) s.database.ledger).rows) (hid : id.id? = some r.id)
    (huid : user.id? = some (Owned.owner r.data)) (hfit : fitsInteger (Owned.owner r.data) = true) :
    (findOwned ρ user id).exec s = (some <$> Persistent.decode .full r, s) := by
  rw [findOwned, exec_selectOne ρ h, param_of_id hid (ht.fits r hr), param_of_id huid hfit]
  simp only [bind, Except.bind]
  rw [pick_of_mem ρ ht hr]
  intro x hx
  simp only [ownerCell, Row.cell_of_odd_nil x (ht.proper x hx), Cell.isInteger_integer,
    Bool.and_eq_true, beq_iff_eq]
  constructor
  · exact fun hp => hp.1
  · intro hxr
    obtain rfl := ht.eq_of_id hx hr hxr
    exact ⟨rfl, rfl⟩

end Store

namespace Service

open Store

variable {s t : Session}

theorem requireUser_ok (h : s.Ready) {user : Value} {u : Row User} (hu : user.isId = true)
    (hx : (requireUser user).exec s = (.ok u, t)) :
    t = s ∧ ∃ r ∈ s.database.ledger.users.rows, user.id? = some r.id := by
  obtain ⟨found, v, hf, hx⟩ := Op.bind_ok hx
  obtain ⟨rfl, hpick⟩ := find_ok User h hu hf
  cases found with
  | none => cases hx
  | some a =>
    cases hx
    obtain ⟨r, hfind, -⟩ := pick_some.1 hpick
    exact ⟨rfl, r, List.mem_of_find?_eq_some hfind, by simpa using List.find?_some hfind⟩

theorem loadOwned_ok {ρ α : Type} [OwnedRecord ρ α] (h : s.Ready)
    (ht : (Relation.table (ρ := ρ) s.database.ledger).Tidy) {user id : Value} {field : String}
    {active : Bool} {a : Row α} (hu : user.isId = true) (hid : id.isId = true)
    (hx : (loadOwned ρ user id field active).exec s = (.ok a, t)) :
    t = s ∧ ∃ r ∈ (Relation.table (ρ := ρ) s.database.ledger).rows, id.id? = some r.id ∧
      user.id? = some (Owned.owner r.data) ∧ Persistent.decode .full r = .ok a ∧
      (active = true → OwnedRecord.isArchived ρ a.data = false) := by
  unfold loadOwned at hx
  split at hx
  · obtain ⟨found, v, hf, hm⟩ := Op.bind_ok hx
    obtain ⟨rfl, rfl⟩ := Op.pure_ok hf
    cases hm
  · obtain ⟨found, v, hf, hm⟩ := Op.bind_ok hx
    cases found with
    | none => cases hm
    | some b =>
      dsimp only at hm
      split at hm
      · cases hm
      · rename_i hne
        obtain ⟨rfl, rfl⟩ := Op.pure_ok hm
        obtain ⟨rfl, r, hr, hrid, hro, hd⟩ := findOwned_ok h ht hu hid hf
        exact ⟨rfl, r, hr, hrid, hro, hd, fun hact => by simpa [hact] using hne⟩

/-- Loading a row of a user that can be read and is active, if that is asked for. -/
theorem exec_loadOwned {ρ α : Type} [OwnedRecord ρ α] (h : s.Ready)
    (ht : (Relation.table (ρ := ρ) s.database.ledger).Tidy) {user id : Value} {r : Row ρ} {a : Row α}
    (field : String) {active : Bool} (hr : r ∈ (Relation.table (ρ := ρ) s.database.ledger).rows)
    (hid : id.id? = some r.id) (huid : user.id? = some (Owned.owner r.data))
    (hfit : fitsInteger (Owned.owner r.data) = true) (hd : Persistent.decode .full r = .ok a)
    (hactive : active = true → OwnedRecord.isArchived ρ a.data = false) :
    (loadOwned ρ user id field active).exec s = (.ok a, s) := by
  have hnull : id.isNull = false := by
    cases id <;> first | rfl | cases hid
  have hfound : (findOwned ρ user id).exec s = (.ok (some a), s) := by
    rw [exec_findOwned h ht hr hid huid hfit, hd]
    rfl
  have hopen : (OwnedRecord.isArchived ρ a.data && active) = false := by
    cases active with
    | false => simp
    | true => simp [hactive rfl]
  rw [loadOwned, hnull, if_neg (by simp), Op.exec_bind, hfound]
  simp only [hopen]
  rfl

end Service

end Bookkeeping
