import Bookkeeping.Proofs.Lookups
import Bookkeeping.Proofs.Records

/-! # Calls on currencies, categories and sources

A named row that is made is new, and one that is changed is revised: the key of its table sees to
the name, and reading the row after the statement to the rest. So each of these calls takes steps.
-/

namespace Bookkeeping.Store

variable {s t : Session}

instance : LawfulRelation User := ⟨fun _ _ => rfl⟩
instance : LawfulRelation StoredEntry := ⟨fun _ _ => rfl⟩

/-- Named rows whose key is their owner and name, and which are read with their ids and flags. -/
class LawfulNamed (ρ : Type) [NamedRecord ρ] : Prop extends LawfulRelation ρ where
  key_eq (r : Row ρ) (ho : r.odd = []) :
    Relation.key r = [.integer (Owned.owner r.data), .text (Named.rowName r.data)]
  read_eq (r a : Row ρ) (ho : r.odd = []) (h : Persistent.decode .full r = .ok a) :
    a.id = r.id ∧ OwnedRecord.isArchived ρ a.data = Owned.archived r.data

instance : LawfulNamed Currency where
  table_withTable _ _ := rfl
  key_eq r ho := by simp [Relation.key, ho, Owned.owner, Named.rowName]
  read_eq r a ho h := by
    obtain ⟨n, -, -, -, rfl⟩ := (reread_currency ho).1 h
    exact ⟨rfl, rfl⟩

instance : LawfulNamed Category where
  table_withTable _ _ := rfl
  key_eq r ho := by simp [Relation.key, ho, Owned.owner, Named.rowName]
  read_eq r a ho h := by
    obtain ⟨n, -, rfl⟩ := (reread_category ho).1 h
    exact ⟨rfl, rfl⟩

instance : LawfulNamed Source where
  table_withTable _ _ := rfl
  key_eq r ho := by simp [Relation.key, ho, Owned.owner, Named.rowName]
  read_eq r a ho h := by
    obtain ⟨n, -, -, rfl⟩ := (reread_source ho).1 h
    exact ⟨rfl, rfl⟩

section

variable {ρ : Type} [NamedRecord ρ] [LawfulNamed ρ]

/-- Rows that do not clash have different names or owners. -/
theorem name_ne_of_clash {a b : Row ρ} (ha : a.odd = []) (hb : b.odd = [])
    (h : Ledger.clash a b = false) (ho : Owned.owner a.data = Owned.owner b.data) :
    Named.rowName a.data ≠ Named.rowName b.data := by
  intro hn
  rw [Ledger.clash, LawfulNamed.key_eq a ha, LawfulNamed.key_eq b hb, ho, hn] at h
  simp [Cell.same] at h

/-- A named row that is stored is admitted by its table, if its owner exists. -/
theorem Insertable.admits {l : Ledger} {enforce : Bool} {a : ρ} {x : Row ρ} {users : Int → Prop}
    (h : Insertable enforce l a) (ht : (Relation.table (ρ := ρ) l).Tidy)
    (ho : users (Owned.owner a))
    (hr : Persistent.decode .full
      (⟨(Relation.table (ρ := ρ) l).nextId, a, []⟩ : Row ρ) = .ok x) :
    (Relation.table (ρ := ρ) l).Admits users a where
  room := h.room
  owner := ho
  name r hrow := name_ne_of_clash (ht.proper r hrow) rfl (h.fresh r hrow)
  readable := ⟨x, hr⟩

/-- An update of a named row that is read afterwards revises the row, or finds none. -/
theorem revise_ok {users : Int → Prop} {id : Value} {fields : List (String × Value)}
    {change : ρ → ρ} {done : Bool} {found : Option (Row ρ)} (h : s.Ready)
    (hk : (Relation.table (ρ := ρ) s.database.ledger).Kept users) (hid : id.isId = true)
    (hf : fields ≠ [])
    (hassigned : ∀ cells (old r : Row ρ), paramFields fields = .ok cells → old.odd = [] →
      Ledger.assigned Relation.columns cells old = .ok r → r = ⟨old.id, change old.data, []⟩)
    (howner : ∀ a, Owned.owner (change a) = Owned.owner a)
    (hx : (update ρ id fields).exec s = (.ok done, t))
    (hpick : pick ρ t.database.ledger (fun r => decide (id.id? = some r.id)) = .ok found) :
    t = s ∨ ∃ r, (Relation.table (ρ := ρ) s.database.ledger).Revises r (change r.data) ∧
      t = s.put (Relation.withTable s.database.ledger
        ((Relation.table (ρ := ρ) s.database.ledger).replace r.id ⟨r.id, change r.data, []⟩)) := by
  rcases update_ok h hid hf hx with ⟨ht, -⟩ | ⟨cells, old, r, hc, hold, hoid, ha, hclash, rfl⟩
  · exact .inl ht
  · have hodd := hk.tidy.proper old hold
    obtain rfl := hassigned cells old r hc hodd ha
    refine .inr ⟨old, ⟨hold, howner _, fun o ho hown => ?_, ?_⟩, rfl⟩
    · obtain ⟨hot, hne⟩ := List.mem_filter.1 ho
      exact name_ne_of_clash (hk.tidy.proper o hot) rfl (hclash o hot (by simpa using hne)) hown
    · rw [Session.ledger_put] at hpick
      refine readable_of_pick (l := Relation.withTable s.database.ledger _) ?_ ?_ ?_ hpick
      · rw [LawfulRelation.table_withTable]
        exact hk.tidy.replace (r := ⟨old.id, change old.data, []⟩) rfl
      · rw [LawfulRelation.table_withTable]
        exact Table.mem_replace.2 (.inl ⟨rfl, old, hold, rfl⟩)
      · intro x _
        simp [hoid, eq_comm]

end

/-! ## Names and archive flags -/

section

variable {ρ : Type} {columns : List (Column ρ)} {c : Column ρ} {name : String}

/-- What assigning cells does with one column. -/
def assignStep (cells : List (String × Cell)) (acc : Row ρ × List Breach) (c : Column ρ) :
    Row ρ × List Breach :=
  match cells.lookup c.name with
  | none => acc
  | some cell =>
    match c.store cell acc.1 with
    | .ok r => (r, acc.2)
    | .error b => (acc.1, acc.2 ++ [b])

theorem assigned_eq [Relation ρ] (cells : List (String × Cell)) (r : Row ρ) :
    Ledger.assigned columns cells r
      = match Ledger.firstBreach? (columns.foldl (assignStep cells) (r, [])).2 with
        | none => .ok (columns.foldl (assignStep cells) (r, [])).1
        | some b => .error b := rfl

theorem assignStep_other (h : c.name ≠ name) (cell : Cell) (acc : Row ρ × List Breach) :
    assignStep [(name, cell)] acc c = acc := by
  have hb : (c.name == name) = false := by simpa using h
  simp [assignStep, List.lookup_cons, hb]

theorem foldl_assignStep_others (h : columns.filter (fun d => d.name == name) = []) (cell : Cell)
    (acc : Row ρ × List Breach) : columns.foldl (assignStep [(name, cell)]) acc = acc := by
  induction columns with
  | nil => rfl
  | cons d rest ih =>
    have hne : d.name ≠ name := by simpa using List.filter_eq_nil_iff.1 h d List.mem_cons_self
    rw [List.foldl_cons, assignStep_other hne]
    exact ih (by simpa [hne] using h)

theorem foldl_assignStep_single (h : columns.filter (fun d => d.name == name) = [c]) (cell : Cell)
    (r : Row ρ) :
    columns.foldl (assignStep [(name, cell)]) (r, []) = match c.store cell r with
      | .ok r => (r, [])
      | .error b => (r, [b]) := by
  induction columns with
  | nil => cases h
  | cons d rest ih =>
    by_cases hne : d.name = name
    · have hcons : d = c ∧ rest.filter (fun d => d.name == name) = [] := by simpa [hne] using h
      obtain ⟨rfl, hrest⟩ := hcons
      rw [List.foldl_cons, foldl_assignStep_others hrest]
      simp [assignStep, hne]
    · rw [List.foldl_cons, assignStep_other hne]
      exact ih (by simpa [hne] using h)

/-- A cell assigned to one column is stored in that column. -/
theorem assigned_single [Relation ρ] (h : columns.filter (fun d => d.name == name) = [c])
    (cell : Cell) (r : Row ρ) : Ledger.assigned columns [(name, cell)] r = c.store cell r := by
  rw [assigned_eq, foldl_assignStep_single h]
  cases c.store cell r <;> rfl

end

/-- Named rows that can be renamed and archived, each of which is a step. -/
class Revisable (ρ : Type) [NamedRecord ρ] extends LawfulNamed ρ where
  named : String → ρ → ρ
  marked : Bool → ρ → ρ
  owner_named (name : String) (a : ρ) : Owned.owner (named name a) = Owned.owner a
  owner_marked (archived : Bool) (a : ρ) : Owned.owner (marked archived a) = Owned.owner a
  assigned_name (name : String) (old r : Row ρ) (ho : old.odd = [])
    (h : Ledger.assigned Relation.columns [("name", .text name)] old = .ok r) :
    r = ⟨old.id, named name old.data, []⟩
  assigned_archived (archived : Bool) (old r : Row ρ) (ho : old.odd = [])
    (h : Ledger.assigned Relation.columns [("archived", Cell.ofBool archived)] old = .ok r) :
    r = ⟨old.id, marked archived old.data, []⟩
  kept (l : Ledger) (h : Intact l) : (Relation.table (ρ := ρ) l).Kept l.users.Has
  step_named (l : Ledger) (r : Row ρ) (name : String)
    (h : (Relation.table (ρ := ρ) l).Revises r (named name r.data)) :
    Step l (Relation.withTable l
      ((Relation.table (ρ := ρ) l).replace r.id ⟨r.id, named name r.data, []⟩))
  step_marked (l : Ledger) (r : Row ρ) (archived : Bool)
    (h : (Relation.table (ρ := ρ) l).Revises r (marked archived r.data)) :
    Step l (Relation.withTable l
      ((Relation.table (ρ := ρ) l).replace r.id ⟨r.id, marked archived r.data, []⟩))

instance : Revisable Currency where
  named name c := { c with name }
  marked archived c := { c with archived }
  owner_named _ _ := rfl
  owner_marked _ _ := rfl
  assigned_name name old r ho h := by
    rw [assigned_single rfl] at h
    cases h
    simp [Row.put, Row.oddBut, ho, Column.text]
  assigned_archived archived old r ho h := by
    rw [assigned_single rfl] at h
    cases archived <;> cases h <;> simp [Row.put, Row.oddBut, ho]
  kept l h := h.currencies
  step_named l r name h := .reviseCurrency r _ h
  step_marked l r archived h := .reviseCurrency r _ h

instance : Revisable Category where
  named name c := { c with name }
  marked archived c := { c with archived }
  owner_named _ _ := rfl
  owner_marked _ _ := rfl
  assigned_name name old r ho h := by
    rw [assigned_single rfl] at h
    cases h
    simp [Row.put, Row.oddBut, ho, Column.text]
  assigned_archived archived old r ho h := by
    rw [assigned_single rfl] at h
    cases archived <;> cases h <;> simp [Row.put, Row.oddBut, ho]
  kept l h := h.categories
  step_named l r name h := .reviseCategory r _ h
  step_marked l r archived h := .reviseCategory r _ h

instance : Revisable Source where
  named name s := { s with name }
  marked archived s := { s with archived }
  owner_named _ _ := rfl
  owner_marked _ _ := rfl
  assigned_name name old r ho h := by
    rw [assigned_single rfl] at h
    cases h
    simp [Row.put, Row.oddBut, ho, Column.text]
  assigned_archived archived old r ho h := by
    rw [assigned_single rfl] at h
    cases archived <;> cases h <;> simp [Row.put, Row.oddBut, ho]
  kept l h := h.sources
  step_named l r name h := .reviseSource r _ h rfl rfl
  step_marked l r archived h := .reviseSource r _ h rfl rfl

/-! ## Sessions before and after a call -/

/-- A session outside of any transaction, on a database of the full layout, that nothing will break
off. -/
structure Session.Idle (s : Session) : Prop where
  outside : s.inTransaction = false
  layout : s.database.layout = .full
  fuse : s.fuse = none
  breaks : s.breaks = none

theorem Session.Idle.not_inBlock (h : s.Idle) : s.inBlock = false := Session.not_inBlock h.outside

theorem Session.Idle.ready (h : s.Idle) : s.start.Ready :=
  ⟨rfl, h.layout, h.fuse, Session.hindrance_of_breaks h.breaks⟩

theorem Session.Ready.idle (h : s.Ready) : s.commit.Idle where
  outside := Session.inTransaction_of_breaks (Session.hindrance_of_breaks h.breaks) rfl
  layout := h.layout
  fuse := h.fuse
  breaks := Session.hindrance_of_breaks h.breaks

/-- A block that goes through is committed. -/
theorem Session.Idle.exec_transaction {α : Type} {body : Op α} {a : α} {l : Ledger} (h : s.Idle)
    (hb : body.exec s.start = (.ok a, s.start.put l)) :
    (transaction body).exec s = (.ok a, (s.start.put l).commit) :=
  exec_transaction_ok h.not_inBlock h.breaks hb ⟨rfl, h.ready.breaks⟩

/-- A session is followed by another one whose ledger comes about by steps. -/
def Session.Settles (s t : Session) : Prop :=
  ∃ m, t.database = s.database.withLedger m ∧ Settling s.database.ledger m

theorem Session.Settles.refl (h : t.database = s.database) : s.Settles t :=
  ⟨s.database.ledger, by rw [h]; rfl, .refl _⟩

theorem Session.Settles.step {m : Ledger} (h : t.database = s.database.withLedger m)
    (hs : Step s.database.ledger m) : s.Settles t :=
  ⟨m, h, .of_step hs⟩

/-- What a transaction settles is what its body settles. -/
theorem settles_transaction {α : Type} {body : Op α} {a : α} (hs : s.Idle)
    (hx : (transaction body).exec s = (.ok a, t))
    (hb : ∀ u, body.exec s.start = (.ok a, u) → s.start.Settles u) : s.Settles t := by
  obtain ⟨u, hu, rfl⟩ := transaction_ok hs.not_inBlock hx
  exact hb u hu

theorem emit_ok {level : Log.Level} {part : Log.Part} {event : String}
    {fields : List (String × Value)} {u : Unit}
    (h : (emit level part event fields).exec s = (.ok u, t)) :
    t.database = s.database ∧ (s.Ready → t.Ready) := by
  cases h
  exact ⟨rfl, fun hr => ⟨hr.inside, hr.layout, hr.fuse, hr.breaks⟩⟩

/-- What is announced when it has succeeded is done by then. -/
theorem announced_ok {α : Type} {x : Op α} {level : Log.Level} {part : Log.Part} {event : String}
    {fields : α → List (String × Value)} {a : α}
    (h : (do let a ← x; emit level part event (fields a); pure a : Op α).exec s = (.ok a, t)) :
    ∃ u, x.exec s = (.ok a, u) ∧ t.database = u.database := by
  obtain ⟨b, u, hx, hrest⟩ := Op.bind_ok h
  obtain ⟨_, v, he, hp⟩ := Op.bind_ok hrest
  obtain ⟨rfl, rfl⟩ := Op.pure_ok hp
  exact ⟨u, hx, (emit_ok he).1⟩

/-- The active row of a user that an id refers to. -/
structure Table.Offers {ρ : Type} [Owned ρ] (t : Table ρ) (user id : Value) (r : Row ρ) : Prop where
  mem : r ∈ t.rows
  id : id.id? = some r.id
  owner : user.id? = some (Owned.owner r.data)
  active : Owned.archived r.data = false

theorem Table.Offers.ne_null {ρ : Type} [Owned ρ] {t : Table ρ} {user id : Value} {x : Row ρ}
    (h : t.Offers user id x) : id ≠ .null := by
  rintro rfl
  cases h.id

theorem Table.Offers.contains {ρ : Type} [Owned ρ] {t : Table ρ} {user id : Value} {x : Row ρ}
    (h : t.Offers user id x) : t.contains x.id = true :=
  List.any_eq_true.2 ⟨x, h.mem, by simp⟩

end Bookkeeping.Store

namespace Bookkeeping.Service

open Store

variable {s t : Session}

/-- An active row of a user is loaded if there is one to offer. -/
theorem loadActive_ok {ρ : Type} [NamedRecord ρ] [LawfulNamed ρ] (h : s.Ready)
    (hi : Intact s.database.ledger)
    (hk : (Relation.table (ρ := ρ) s.database.ledger).Kept s.database.ledger.users.Has)
    {user id : Value} (field : String) {a : Row ρ} (hu : user.isId = true) (hid : id.isId = true) :
    (loadOwned ρ user id field true).exec s = (.ok a, t) ↔
      t = s ∧ ∃ r, (Relation.table (ρ := ρ) s.database.ledger).Offers user id r ∧
        Persistent.decode .full r = .ok a := by
  constructor
  · intro hx
    obtain ⟨rfl, r, hr, hrid, hown, hd, hactive⟩ := loadOwned_ok h hk.tidy hu hid hx
    refine ⟨rfl, r, ⟨hr, hrid, hown, ?_⟩, hd⟩
    rw [← (LawfulNamed.read_eq r a (hk.tidy.proper r hr) hd).2]
    exact hactive rfl
  · rintro ⟨rfl, r, hr, hd⟩
    refine exec_loadOwned h hk.tidy field hr.mem hr.id hr.owner
      ((hk.owned r hr.mem).fits hi.users) hd fun _ => ?_
    rw [(LawfulNamed.read_eq r a (hk.tidy.proper r hr.mem) hd).2]
    exact hr.active

/-- A row that a user may refer to is loaded. -/
theorem exec_loadActive {ρ : Type} [NamedRecord ρ] [LawfulNamed ρ] (h : s.Ready)
    (hi : Intact s.database.ledger)
    (hk : (Relation.table (ρ := ρ) s.database.ledger).Kept s.database.ledger.users.Has)
    {user id : Value} (field : String) {r : Row ρ} (hu : user.isId = true) (hid : id.isId = true)
    (hr : (Relation.table (ρ := ρ) s.database.ledger).Offers user id r) :
    ∃ a, Persistent.decode .full r = .ok a ∧
      (loadOwned ρ user id field true).exec s = (.ok a, s) := by
  obtain ⟨a, ha⟩ := hk.readable r hr.mem
  exact ⟨a, ha, (loadActive_ok h hi hk field hu hid).2 ⟨rfl, r, hr, ha⟩⟩

section

variable {ρ : Type} [Catalog ρ]

theorem ensureUnique_ok (h : s.Ready) {user except : Value} {name : String} {u : Unit}
    (hx : (ensureUnique ρ user name except).exec s = (.ok u, t)) : t = s := by
  obtain ⟨found, v, hf, hm⟩ := Op.bind_ok hx
  have hv : v = s := by
    obtain ⟨n, -, hs⟩ := Op.lift_bind_ok hf
    rw [exec_selectOne ρ h] at hs
    exact (congrArg Prod.snd hs).symm
  subst hv
  cases found with
  | none => exact (Op.pure_ok hm).2
  | some r =>
    dsimp only at hm
    split at hm
    · exact (Op.pure_ok hm).2
    · cases hm

variable [Revisable ρ]

theorem settles_named (h : s.Ready) (hi : Intact s.database.ledger) {id : Value} {name : String}
    {done : Bool} {found : Option (Row ρ)} (hid : id.isId = true)
    (hx : (update ρ id [("name", .text name)]).exec s = (.ok done, t))
    (hpick : pick ρ t.database.ledger (fun r => decide (id.id? = some r.id)) = .ok found) :
    s.Settles t := by
  have hassigned (cells : List (String × Cell)) (old r : Row ρ)
      (hc : paramFields [("name", .text name)] = .ok cells) (ho : old.odd = [])
      (ha : Ledger.assigned Relation.columns cells old = .ok r) :
      r = ⟨old.id, Revisable.named name old.data, []⟩ := by
    cases hc
    exact Revisable.assigned_name name old r ho ha
  rcases revise_ok h (Revisable.kept _ hi) hid (by simp) hassigned
    (Revisable.owner_named name) hx hpick with rfl | ⟨r, hr, rfl⟩
  · exact .refl rfl
  · exact .step rfl (Revisable.step_named _ r name hr)

theorem settles_marked (h : s.Ready) (hi : Intact s.database.ledger) {id : Value} {archived : Bool}
    {done : Bool} {found : Option (Row ρ)} (hid : id.isId = true)
    (hx : (setArchived ρ id (.bool archived)).exec s = (.ok done, t))
    (hpick : pick ρ t.database.ledger (fun r => decide (id.id? = some r.id)) = .ok found) :
    s.Settles t := by
  obtain ⟨flag, hflag, hup⟩ := Op.lift_bind_ok hx
  cases hflag
  have hassigned (cells : List (String × Cell)) (old r : Row ρ)
      (hc : paramFields [("archived", .int (if archived then 1 else 0))] = .ok cells)
      (ho : old.odd = []) (ha : Ledger.assigned Relation.columns cells old = .ok r) :
      r = ⟨old.id, Revisable.marked archived old.data, []⟩ := by
    refine Revisable.assigned_archived archived old r ho ?_
    rw [← ha]
    cases archived <;> cases hc <;> rfl
  rcases revise_ok h (Revisable.kept _ hi) hid (by simp) hassigned
    (Revisable.owner_marked archived) hup hpick with rfl | ⟨r, hr, rfl⟩
  · exact .refl rfl
  · exact .step rfl (Revisable.step_marked _ r archived hr)

theorem settles_rename (hs : s.Idle) (hi : Intact s.database.ledger) {user id name : Value}
    {found : Option (Row ρ)} (hu : user.isId = true) (hid : id.isId = true)
    (hx : (rename ρ user id name).exec s = (.ok found, t)) : s.Settles t := by
  obtain ⟨n, -, h₁⟩ := Op.lift_bind_ok (logged_ok hx)
  obtain ⟨w, htx, hdone⟩ := announced_ok h₁
  rw [Session.Settles, hdone]
  refine settles_transaction hs htx fun z hz => ?_
  have hr := hs.ready
  obtain ⟨_, x₁, hf, h₃⟩ := Op.bind_ok hz
  obtain ⟨rfl, -⟩ := loadOwned_ok hr (Revisable.kept (ρ := ρ) _ hi).tidy hu hid hf
  obtain ⟨_, x₂, hn, h₄⟩ := Op.bind_ok h₃
  obtain rfl := ensureUnique_ok hr hn
  obtain ⟨done, x₃, hup, hfind⟩ := Op.bind_ok h₄
  obtain ⟨rfl, hpick⟩ := find_ok ρ (update_ready hr hid (by simp) hup) hid hfind
  exact settles_named hr hi hid hup hpick

theorem settles_mark (hs : s.Idle) (hi : Intact s.database.ledger) {archived : Bool}
    {user id : Value} {found : Option (Row ρ)} (hu : user.isId = true) (hid : id.isId = true)
    (hx : (mark ρ archived user id).exec s = (.ok found, t)) : s.Settles t := by
  refine settles_transaction hs hx fun z hz => ?_
  have hr := hs.ready
  obtain ⟨a, x₁, hf, h₁⟩ := Op.bind_ok hz
  obtain ⟨rfl, -⟩ := loadOwned_ok hr (Revisable.kept (ρ := ρ) _ hi).tidy hu hid hf
  dsimp only at h₁
  split at h₁
  · obtain ⟨done, x₂, hup, h₂⟩ := Op.bind_ok h₁
    obtain ⟨_, x₃, he, hfind⟩ := Op.bind_ok h₂
    have hready : x₂.Ready := by
      obtain ⟨flag, -, hupd⟩ := Op.lift_bind_ok hup
      exact update_ready hr hid (by simp) hupd
    obtain ⟨rfl, hpick⟩ := find_ok ρ ((emit_ok he).2 hready) hid hfind
    rw [(emit_ok he).1] at hpick
    rw [Session.Settles, (emit_ok he).1]
    exact settles_marked hr hi hid hup hpick
  · obtain ⟨rfl, -⟩ := find_ok ρ hr hid h₁
    exact .refl rfl

end

/-! ## Making rows -/

/-- A named row is made for its owner if its record belongs to the user who asks. -/
theorem settles_create {ρ : Type} [Catalog ρ] [LawfulNamed ρ] (hs : s.Idle)
    {user : Value} {name : String} {record : Except Failure ρ} {check : Op Unit} {row : Row ρ}
    {P : Prop} (hu : user.isId = true)
    (hk : (Relation.table (ρ := ρ) s.database.ledger).Kept s.database.ledger.users.Has)
    (hcheck : ∀ u x, check.exec s.start = (.ok u, x) → x = s.start ∧ P)
    (howner : ∀ a n, record = .ok a → user.id? = some n →
      Owned.owner (Persistent.encode (ρ := ρ) s.now a) = n)
    (hstep : ∀ a, record = .ok a → P →
      (Relation.table (ρ := ρ) s.database.ledger).Admits s.database.ledger.users.Has
        (Persistent.encode (ρ := ρ) s.now a) →
      Step s.database.ledger (Relation.withTable s.database.ledger
        ((Relation.table (ρ := ρ) s.database.ledger).insert (Persistent.encode s.now a))))
    (hx : (create ρ user name (Op.lift record) check).exec s = (.ok row, t)) : s.Settles t := by
  refine settles_transaction hs hx fun z hz => ?_
  have hr := hs.ready
  obtain ⟨_, x₁, hf, h₁⟩ := Op.bind_ok hz
  obtain ⟨rfl, owner, hmem, hoid⟩ := requireUser_ok hr hu hf
  obtain ⟨_, x₂, hc, h₂⟩ := Op.bind_ok h₁
  obtain ⟨rfl, hP⟩ := hcheck _ _ hc
  obtain ⟨_, x₃, hn, h₃⟩ := Op.bind_ok h₂
  obtain rfl := ensureUnique_ok hr hn
  obtain ⟨a, ha, h₄⟩ := Op.lift_bind_ok h₃
  obtain ⟨hins, hread, rfl⟩ := (insert_ok hr hk.tidy).1 h₄
  have howned : s.database.ledger.users.Has (Owned.owner (Persistent.encode (ρ := ρ) s.now a)) :=
    ⟨owner, hmem, (howner a owner.id ha hoid).symm⟩
  exact .step rfl (hstep a ha hP (hins.admits hk.tidy howned hread))

theorem settles_createCurrency (hs : s.Idle) (hi : Intact s.database.ledger)
    {user name rate : Value} {row : Row Currency} (hu : user.isId = true)
    (hx : (createCurrency user name rate).exec s = (.ok row, t)) : s.Settles t := by
  obtain ⟨n, -, h₁⟩ := Op.lift_bind_ok (logged_ok hx)
  obtain ⟨x, -, h₂⟩ := Op.lift_bind_ok h₁
  obtain ⟨y, hc, hdone⟩ := announced_ok h₂
  rw [Session.Settles, hdone]
  refine settles_create (ρ := Currency) (P := True) hs hu hi.currencies
    (fun u x h => ⟨(Op.pure_ok h).2, trivial⟩) (fun a m ha hm => ?_)
    (fun a _ _ new => .addCurrency _ new) hc
  obtain ⟨item, hread, rfl⟩ := read_of_recordOf ha
  obtain ⟨owner, _, _, howner, -, -, rfl⟩ := Currency.read_ok.1 hread
  exact Part.int_of_id hm howner

theorem settles_createCategory (hs : s.Idle) (hi : Intact s.database.ledger)
    {user name : Value} {row : Row Category} (hu : user.isId = true)
    (hx : (createCategory user name).exec s = (.ok row, t)) : s.Settles t := by
  obtain ⟨n, -, h₁⟩ := Op.lift_bind_ok (logged_ok hx)
  obtain ⟨y, hc, hdone⟩ := announced_ok h₁
  rw [Session.Settles, hdone]
  refine settles_create (ρ := Category) (P := True) hs hu hi.categories
    (fun u x h => ⟨(Op.pure_ok h).2, trivial⟩) (fun a m ha hm => ?_)
    (fun a _ _ new => .addCategory _ new) hc
  obtain ⟨item, hread, rfl⟩ := read_of_recordOf ha
  obtain ⟨owner, _, howner, -, rfl⟩ := Category.read_ok.1 hread
  exact Part.int_of_id hm howner

/-- A source is made in a currency that was looked up for the same user. -/
theorem settles_createSource (hs : s.Idle) (hi : Intact s.database.ledger)
    {user name currency amount : Value} {row : Row Source} (hu : user.isId = true)
    (hcur : currency.isId = true)
    (hx : (createSource user name currency amount).exec s = (.ok row, t)) : s.Settles t := by
  obtain ⟨n, -, h₁⟩ := Op.lift_bind_ok (logged_ok hx)
  obtain ⟨x, -, h₂⟩ := Op.lift_bind_ok h₁
  obtain ⟨y, hc, hdone⟩ := announced_ok h₂
  rw [Session.Settles, hdone]
  refine settles_create (ρ := Source)
    (P := ∃ c ∈ s.database.ledger.currencies.rows, currency.id? = some c.id ∧
      user.id? = some c.data.owner ∧ c.data.archived = false)
    hs hu hi.sources (fun u x h => ?_) (fun a m ha hm => ?_) (fun a ha hP new => ?_) hc
  · obtain ⟨c, y, hload, hp⟩ := Op.bind_ok h
    obtain ⟨rfl, c, hc, -⟩ := (loadActive_ok hs.ready hi hi.currencies _ hu hcur).1 hload
    exact ⟨(Op.pure_ok hp).2, c, hc.mem, hc.id, hc.owner, hc.active⟩
  · obtain ⟨item, hread, rfl⟩ := read_of_recordOf ha
    obtain ⟨_, _, _, _, howner, -, -, -, rfl⟩ := Source.read_ok.1 hread
    exact Part.int_of_id hm howner
  · obtain ⟨item, hread, rfl⟩ := read_of_recordOf ha
    obtain ⟨_, _, _, _, howner, -, hcurrency, -, rfl⟩ := Source.read_ok.1 hread
    obtain ⟨c, hmem, hcid, hco, hactive⟩ := hP
    have hid := (Part.int_of_id hcid hcurrency).symm
    exact .addSource _ new ⟨c, hmem, hid, (Part.int_of_id hco howner).symm, hactive⟩

/-! ## Changing a currency -/

/-- A currency with another name, another rate or both. -/
def adjusted (name : Option String) (rate : Option Float) (c : Currency) : Currency :=
  { c with name := name.getD c.name, rate := (rate.map unsigned).getD c.rate }

/-- The fields that are changed in a currency. -/
def adjustments (name : Option String) (rate : Option Float) : List (String × Value) :=
  (name.map fun s => ("name", Value.text s)).toList
    ++ (rate.map fun x => ("rate_to_fixed", Value.float x)).toList

theorem assigned_adjustments (name : Option String) {rate : Option Float}
    (hrate : ∀ x ∈ rate, Number.isNaN x = false) {cells : List (String × Cell)}
    {old r : Row Currency} (hc : paramFields (adjustments name rate) = .ok cells)
    (ho : old.odd = []) (h : Ledger.assigned Relation.columns cells old = .ok r) :
    r = ⟨old.id, adjusted name rate old.data, []⟩ := by
  cases name with
  | none =>
    cases rate with
    | none =>
      cases hc
      cases h
      rw [← ho]
      rfl
    | some x =>
      have hx := hrate x rfl
      obtain rfl : cells = [("rate_to_fixed", .real x)] := by
        simpa [adjustments, paramFields, param, Cell.ofValue, hx, bind, Except.bind, Except.mapError,
          eq_comm] using hc
      rw [assigned_single rfl] at h
      cases h
      simp [Row.put, Row.oddBut, ho, adjusted, Column.real]
  | some n =>
    cases rate with
    | none =>
      cases hc
      rw [assigned_single rfl] at h
      cases h
      simp [Row.put, Row.oddBut, ho, adjusted, Column.text]
    | some x =>
      have hx := hrate x rfl
      obtain rfl : cells = [("name", .text n), ("rate_to_fixed", .real x)] := by
        simpa [adjustments, paramFields, param, Cell.ofValue, hx, bind, Except.bind, Except.mapError,
          eq_comm] using hc
      have hput : Ledger.assigned Relation.columns
          [("name", Cell.text n), ("rate_to_fixed", Cell.real x)] old
            = .ok ((old.put "name" { old.data with name := n }).put "rate_to_fixed"
              { old.data with name := n, rate := unsigned x }) := rfl
      rw [hput] at h
      cases h
      simp [Row.put, Row.oddBut, ho, adjusted]

theorem isFinite_of_amount {field : String} {positive : Bool} {v : Value} {x : Float}
    (h : Check.amount field positive v = .ok x) : Number.isFinite x = true := by
  unfold Check.amount Check.float at h
  cases ha : Check.anyFloat field v with
  | error e => simp [ha, bind, Except.bind] at h
  | ok y =>
    cases hy : Number.isFinite y with
    | false => simp [ha, hy, bind, Except.bind, Check.reject] at h
    | true =>
      simp only [ha, hy, bind, Except.bind, if_true] at h
      split at h
      · cases h
      · cases h
        exact hy

theorem settles_updateCurrency (hs : s.Idle) (hi : Intact s.database.ledger)
    {user id name rate : Value} {found : Option (Row Currency)} (hu : user.isId = true)
    (hid : id.isId = true)
    (hx : (updateCurrency user id name rate).exec s = (.ok found, t)) : s.Settles t := by
  obtain ⟨name, -, h₁⟩ := Op.optionally_ok (logged_ok hx)
  obtain ⟨rate, hrate, h₂⟩ := Op.optionally_ok h₁
  obtain ⟨row, u, htx, h₃⟩ := Op.bind_ok h₂
  have ht : t.database = u.database := by
    dsimp only at h₃
    split at h₃
    · obtain ⟨_, v, he, hp⟩ := Op.bind_ok h₃
      obtain ⟨-, rfl⟩ := Op.pure_ok hp
      exact (emit_ok he).1
    · rw [(Op.pure_ok h₃).2]
  rw [Session.Settles, ht]
  refine settles_transaction hs htx fun z hz => ?_
  have hr := hs.ready
  obtain ⟨_, x₁, hf, h₄⟩ := Op.bind_ok hz
  obtain ⟨rfl, -⟩ := loadOwned_ok hr hi.currencies.tidy hu hid hf
  obtain ⟨done, x₂, hup, hfind⟩ : ∃ done x₂,
      (update Currency id (adjustments name rate)).exec s.start = (.ok done, x₂) ∧
        (find Currency id).exec x₂ = (.ok row, z) := by
    cases name with
    | none => exact Op.bind_ok h₄
    | some n =>
      obtain ⟨_, x₃, hn, h₅⟩ := Op.bind_ok h₄
      obtain rfl := ensureUnique_ok hr hn
      exact Op.bind_ok h₅
  by_cases hempty : adjustments name rate = []
  · rw [hempty] at hup
    obtain ⟨-, rfl⟩ := Op.pure_ok hup
    exact .refl (by rw [(find_ok Currency hr hid hfind).1])
  · obtain ⟨rfl, hpick⟩ := find_ok Currency (update_ready hr hid hempty hup) hid hfind
    have hassigned (cells : List (String × Cell)) (old r : Row Currency)
        (hc : paramFields (adjustments name rate) = .ok cells) (ho : old.odd = [])
        (ha : Ledger.assigned Relation.columns cells old = .ok r) :
        r = ⟨old.id, adjusted name rate old.data, []⟩ :=
      assigned_adjustments name
        (fun x hx => Number.isNaN_of_isFinite (isFinite_of_amount (hrate x hx))) hc ho ha
    rcases revise_ok hr hi.currencies hid hempty hassigned (fun _ => rfl) hup hpick with
      rfl | ⟨r, hrev, rfl⟩
    · exact .refl rfl
    · exact .step rfl (.reviseCurrency r _ hrev)

end Bookkeeping.Service
