import Mathlib.Data.List.Find
import Bookkeeping.Proofs.Domains
import Bookkeeping.Proofs.Layers

/-! # Looking up names

No two rows of a user that are of one kind have the same name, archived or not, and no two accounts
have the same user name. So a name has at most one row, and looking the name up finds it. Blanks at
the ends of what is looked up do not count: no name that is stored has any.
-/

namespace Bookkeeping.Store

open Op

variable {s : Session}

/-! ## Rows of a name -/

/-- Whether the row of an id is one of a user's under a name. -/
def Table.Names {ρ : Type} [Named ρ] (t : Table ρ) (user : Int) (name : String) (n : Int) : Prop :=
  ∃ r ∈ t.rows, r.id = n ∧ Owned.owner r.data = user ∧ Named.rowName r.data = name

/-- Whether the row of an id is an account of a user name. -/
def Table.Usernames (t : Table User) (name : String) (n : Int) : Prop :=
  ∃ r ∈ t.rows, r.id = n ∧ r.data.username = name

/-- Whether an answer is the record of the row of an id. -/
def Table.Shows {ρ α : Type} [Persistent ρ α] (t : Table ρ) (one : Option (Row α) → Service.Answer)
    (n : Int) (x : Service.Answer) : Prop :=
  ∃ r ∈ t.rows, r.id = n ∧ ∃ a, Persistent.decode .full r = .ok a ∧ x = one (some a)

theorem Table.Kept.names_unique {ρ : Type} [NamedRecord ρ] {users : Int → Prop} {t : Table ρ}
    (h : t.Kept users) {user m n : Int} {name : String} (hm : t.Names user name m)
    (hn : t.Names user name n) : m = n := by
  obtain ⟨a, ha, rfl, hao, han⟩ := hm
  obtain ⟨b, hb, rfl, hbo, hbn⟩ := hn
  exact h.distinct a ha b hb (hao.trans hbo.symm) (han.trans hbn.symm)

/-! ## What a condition picks -/

section

variable {ρ α : Type} [Persistent ρ α] {l : Ledger} {p q : Row ρ → Bool}

theorem pick_congr (h : ∀ r ∈ (Relation.table (ρ := ρ) l).rows, p r = q r) :
    pick ρ l p = pick ρ l q := by
  rw [pick, pick, List.find?_congr h]

/-- Among rows that can be read a condition picks one that meets it, if there is any. -/
theorem pick_readable
    (hread : ∀ r ∈ (Relation.table (ρ := ρ) l).rows, ∃ a, Persistent.decode .full r = .ok a) :
    (∃ r ∈ (Relation.table (ρ := ρ) l).rows, p r = true ∧
      ∃ a, Persistent.decode .full r = .ok a ∧ pick ρ l p = .ok (some a)) ∨
    (∀ r ∈ (Relation.table (ρ := ρ) l).rows, p r = false) ∧ pick ρ l p = .ok none := by
  cases hf : (Relation.table (ρ := ρ) l).rows.find? p with
  | none =>
    refine .inr ⟨fun r hr => ?_, pick_none.2 hf⟩
    simpa using List.find?_eq_none.1 hf r hr
  | some r =>
    have hr := List.mem_of_find?_eq_some hf
    obtain ⟨a, ha⟩ := hread r hr
    exact .inl ⟨r, hr, List.find?_some hf, a, ha, pick_some.2 ⟨r, hf, ha⟩⟩

/-- Looking for the row that meets a condition, which at most one row does, shows that row. -/
theorem shows_picked {op : Op (Option (Row α))} {one : Option (Row α) → Service.Answer}
    (hone : ∀ x y, one x = one y → x = y)
    (hread : ∀ r ∈ (Relation.table (ρ := ρ) s.database.ledger).rows,
      ∃ a, Persistent.decode .full r = .ok a)
    (hid : ∀ r a, r ∈ (Relation.table (ρ := ρ) s.database.ledger).rows →
      Persistent.decode .full r = .ok a → a.id = r.id)
    (hsame : ∀ r x, r ∈ (Relation.table (ρ := ρ) s.database.ledger).rows →
      x ∈ (Relation.table (ρ := ρ) s.database.ledger).rows → p r = true → p x = true → r.id = x.id)
    (hrun : ∃ t, op.exec s = (pick ρ s.database.ledger p, t) ∧ t.database = s.database) :
    ∃ x t, (one <$> op).exec s = (.ok x, t) ∧ t.database = s.database ∧
      (∀ n, (Relation.table (ρ := ρ) s.database.ledger).Shows one n x ↔
        ∃ r ∈ (Relation.table (ρ := ρ) s.database.ledger).rows, r.id = n ∧ p r = true) ∧
      (x = one none ↔
        ∀ n, ¬ ∃ r ∈ (Relation.table (ρ := ρ) s.database.ledger).rows, r.id = n ∧ p r = true) := by
  obtain ⟨t, hrun, ht⟩ := hrun
  rcases pick_readable (p := p) hread with ⟨r, hr, hp, a, ha, hpick⟩ | ⟨hnone, hpick⟩
  · refine ⟨one (some a), t, by rw [exec_map, hrun, hpick], ht, fun n => ⟨?_, ?_⟩, fun h => ?_,
      fun h => (h r.id ⟨r, hr, rfl, hp⟩).elim⟩
    · rintro ⟨x, hx, rfl, b, hb, hshown⟩
      obtain rfl := Option.some.inj (hone _ _ hshown)
      exact ⟨r, hr, (hid r a hr ha).symm.trans (hid x a hx hb), hp⟩
    · rintro ⟨x, hx, rfl, hpx⟩
      exact ⟨r, hr, hsame r x hr hx hp hpx, a, ha, rfl⟩
    · cases hone _ _ h
  · have hfree : ∀ n, ¬ ∃ r ∈ (Relation.table (ρ := ρ) s.database.ledger).rows,
        r.id = n ∧ p r = true := by
      rintro n ⟨x, hx, -, hpx⟩
      rw [hnone x hx] at hpx
      cases hpx
    refine ⟨one none, t, by rw [exec_map, hrun, hpick], ht,
      fun n => ⟨?_, fun h => (hfree n h).elim⟩, iff_of_true rfl hfree⟩
    rintro ⟨x, -, -, b, -, hshown⟩
    cases hone _ _ hshown

end

/-! ## Lookups -/

/-- The condition of having an owner and a name. -/
def goesBy {ρ : Type} [Named ρ] (user : Int) (name : String) (r : Row ρ) : Bool :=
  Owned.owner r.data == user && Named.rowName r.data == name

theorem names_iff {ρ : Type} [Named ρ] {t : Table ρ} {user n : Int} {name : String} :
    t.Names user name n ↔ ∃ r ∈ t.rows, r.id = n ∧ goesBy user name r = true := by
  simp [Table.Names, goesBy]

section

variable {ρ : Type} [NamedRecord ρ] {user : Value} {u : Int} (huid : user.id? = some u)
  (hu : fitsInteger u = true) (ht : (Relation.table (ρ := ρ) s.database.ledger).Tidy)

include huid hu ht

/-- What the statement behind a lookup by name picks. -/
theorem pick_named (name : String) :
    (do
      let c ← (do
        let user ← param user
        let name ← param (.text name)
        .ok (user, name))
      pick ρ s.database.ledger fun r =>
        c.1.isInteger (ownerCell r) && c.2.isText (.text (Named.rowName r.data)))
      = pick ρ s.database.ledger (goesBy u name) := by
  rw [param_of_id huid hu]
  refine pick_congr fun r hr => ?_
  rw [ownerCell, Row.cell_of_odd_nil r (ht.proper r hr), Cell.isInteger_integer, goesBy,
    Bool.beq_comm]
  rfl

theorem exec_findByName (h : s.Ready) (name : String) : (findByName ρ user (.text name)).exec s
    = (pick ρ s.database.ledger (goesBy u (Text.strip name)), s) := by
  rw [← pick_named huid hu ht (Text.strip name)]
  exact exec_selectOne ρ h _ _

/-- The same outside of a transaction. -/
theorem exec_findByName_apart (hb : s.breaks = none) (hl : s.database.layout = .full)
    (name : String) : ∃ t, (findByName ρ user (.text name)).exec s
      = (pick ρ s.database.ledger (goesBy u (Text.strip name)), t) ∧ t.database = s.database := by
  rw [← pick_named huid hu ht (Text.strip name)]
  exact exec_selectOne_unbroken ρ hb hl _ _

end

/-- The condition of having a user name. -/
def calledBy (name : String) (r : Row User) : Bool := r.data.username == name

theorem usernames_iff {t : Table User} {n : Int} {name : String} :
    t.Usernames name n ↔ ∃ r ∈ t.rows, r.id = n ∧ calledBy name r = true := by
  simp [Table.Usernames, calledBy]

theorem exec_findUsername (h : s.Ready) (name : String) : (findByUsername (.text name)).exec s
    = (pick User s.database.ledger (calledBy (Text.strip name)), s) :=
  exec_selectOne User h (param (.text (Text.strip name)))
    fun c r => c.isText (.text r.data.username)

theorem exec_findUsername_apart (hb : s.breaks = none) (hl : s.database.layout = .full)
    (name : String) : ∃ t, (findByUsername (.text name)).exec s
      = (pick User s.database.ledger (calledBy (Text.strip name)), t) ∧ t.database = s.database :=
  exec_selectOne_unbroken User hb hl (param (.text (Text.strip name)))
    fun c r => c.isText (.text r.data.username)

end Bookkeeping.Store

namespace Bookkeeping.Service

open Store

variable {s : Session} {user : Value} {u : Int}

/-! ## Directories -/

/-- Where a name has at most one row: among a user's rows of a kind, or among the accounts. -/
inductive Directory where
  | rows (kind : CatalogKind)
  | accounts

namespace Directory

/-- Whether the row of an id has a name, archived or not. -/
def Holds (l : Ledger) (user : Int) (name : String) (n : Int) : Directory → Prop
  | rows kind => kind.run fun ρ [Catalog ρ] [Shown ρ] =>
      (Relation.table (ρ := ρ) l).Names user name n
  | accounts => l.users.Usernames name n

/-- The call that looks a name up. -/
def lookup (user name : Value) : Directory → Call
  | rows kind => .getByName kind user name
  | accounts => .getUserByUsername name

/-- Whether an answer to the lookup is the record of the row of an id. -/
def Shows (l : Ledger) (n : Int) (x : Answer) : Directory → Prop
  | rows kind => kind.run fun ρ [Catalog ρ] [Shown ρ] =>
      (Relation.table (ρ := ρ) l).Shows Shown.one n x
  | accounts => l.users.Shows Answer.user n x

/-- The answer that there is no such row. -/
def nobody : Directory → Answer
  | rows kind => kind.run fun ρ [Catalog ρ] [Shown ρ] => Shown.one (none : Option (Row ρ))
  | accounts => .user none

/-- What looking a name up comes to: the row of the name is shown if there is one. -/
def Tells (d : Directory) (s : Session) (user : Value) (u : Int) (t : String) : Prop :=
  ∃ x w, (d.lookup user (.text t)).run.exec s = (.ok x, w) ∧ w.database = s.database ∧
    (∀ n, d.Shows s.database.ledger n x ↔ d.Holds s.database.ledger u (Text.strip t) n) ∧
    (x = d.nobody ↔ ∀ n, ¬ d.Holds s.database.ledger u (Text.strip t) n)

end Directory

section

variable (hi : Intact s.database.ledger) (hb : s.breaks = none) (hl : s.database.layout = .full)

include hi hb hl

theorem shows_named {ρ : Type} [Catalog ρ] [Revisable ρ] {one : Option (Row ρ) → Answer}
    (hone : ∀ x y, one x = one y → x = y) (huid : user.id? = some u) (hu : fitsInteger u = true)
    (t : String) : ∃ x w, (one <$> findByName ρ user (.text t)).exec s = (.ok x, w) ∧
      w.database = s.database ∧
      (∀ n, (Relation.table (ρ := ρ) s.database.ledger).Shows one n x ↔
        (Relation.table (ρ := ρ) s.database.ledger).Names u (Text.strip t) n) ∧
      (x = one none ↔
        ∀ n, ¬ (Relation.table (ρ := ρ) s.database.ledger).Names u (Text.strip t) n) := by
  have hk := Revisable.kept (ρ := ρ) s.database.ledger hi
  simp only [names_iff]
  exact shows_picked hone hk.readable
    (fun r a hr ha => (LawfulNamed.read_eq r a (hk.tidy.proper r hr) ha).1)
    (fun r x hr hx hpr hpx =>
      hk.names_unique (names_iff.2 ⟨r, hr, rfl, hpr⟩) (names_iff.2 ⟨x, hx, rfl, hpx⟩))
    (exec_findByName_apart huid hu hk.tidy hb hl t)

/-- Every name that is looked up is told, with or without blanks at its ends. -/
theorem Directory.tells (hv : Vetted s.database.ledger) (huid : user.id? = some u)
    (hu : fitsInteger u = true) (d : Directory) (t : String) : d.Tells s user u t := by
  cases d with
  | rows kind =>
    cases kind with
    | currency => exact shows_named (ρ := Currency) hi hb hl (by rintro _ _ ⟨⟩; rfl) huid hu t
    | category => exact shows_named (ρ := Category) hi hb hl (by rintro _ _ ⟨⟩; rfl) huid hu t
    | source => exact shows_named (ρ := Source) hi hb hl (by rintro _ _ ⟨⟩; rfl) huid hu t
  | accounts =>
    simp only [Tells, Holds, usernames_iff]
    refine shows_picked (ρ := User) (by rintro _ _ ⟨⟩; rfl)
      (fun r hr => (hv.users r hr).readable (hi.users.proper r hr)) (fun r a hr ha => ?_)
      (fun r x hr hx hpr hpx => ?_) (exec_findUsername_apart hb hl t)
    · obtain ⟨n, k, -, -, rfl⟩ := (reread_user (hi.users.proper r hr)).1 ha
      rfl
    · exact hi.usernames r hr x hx ((beq_iff_eq.1 hpr).trans (beq_iff_eq.1 hpx).symm)

omit hb hl in
/-- A name has at most one row. -/
theorem Directory.holds_unique {d : Directory} {name : String} {m n : Int}
    (hm : d.Holds s.database.ledger u name m) (hn : d.Holds s.database.ledger u name n) :
    m = n := by
  cases d with
  | rows kind =>
    cases kind with
    | currency => exact hi.currencies.names_unique hm hn
    | category => exact hi.categories.names_unique hm hn
    | source => exact hi.sources.names_unique hm hn
  | accounts =>
    obtain ⟨a, ha, rfl, han⟩ := hm
    obtain ⟨b, hb, rfl, hbn⟩ := hn
    exact hi.usernames a ha b hb (han.trans hbn.symm)

end

end Bookkeeping.Service
