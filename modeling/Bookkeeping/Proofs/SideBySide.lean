import Bookkeeping.Proofs.Agreement

/-! # Statements side by side

What is looked up for a user in view is the same in two databases that have the same rows of the
users in view: a condition that goes by the owner or by the id of a row selects no row of anybody
else. And a statement on such rows has the same effect in both, if it leads to intact ledgers.
-/

namespace Bookkeeping.Store

open Op

variable {v : Scope} {s s' : Session}

/-- A user, by a value of the type of ids, who is in view if there is one. -/
structure Scope.Covers (v : Scope) (user : Value) : Prop where
  isId : user.isId = true
  sees : ∀ n, user.id? = some n → v.sees n = true

theorem Scope.Covers.of_isInteger {user : Value} (hu : v.Covers user) {c : Cell}
    (hc : param user = .ok c) {n : Int} (h : c.isInteger (.integer n) = true) : v.sees n = true := by
  rw [isInteger_of_isId hu.isId hc, decide_eq_true_eq] at h
  exact hu.sees n h

/-! ## Selecting -/

section

variable {ρ α β : Type} [Persistent ρ α]

theorem consults_select (h : s.Beside v s') (run : Ledger → Except Failure β)
    (heq : run s'.database.ledger = run s.database.ledger) : Consults v (select ρ run) s s' := by
  have hinside {u u' : Session} (hu : u.Beside v u') (hin : u.inBlock = true)
      (heq : run u'.database.ledger = run u.database.ledger) : Consults v (select ρ run) u u' :=
    consults_of_eq hu (exec_select ρ (hu.ready hin) run)
      ((exec_select ρ (hu.ready' hin) run).trans (by rw [heq]))
  cases hin : s.inBlock with
  | true => exact hinside h hin heq
  | false =>
    have hstarted := hinside h.start rfl heq
    unfold select statement at hstarted ⊢
    exact hstarted.outermost h hin

theorem consults_decode (h : s.Beside v s') {x : Type} (read : Layout → Except Failure x) :
    Consults v (do let layout := (← get).database.layout; lift (read layout)) s s' :=
  consults_get (consults_lift h _) (by rw [h.layout.1, h.layout.2])

theorem consults_selectAll {γ : Type} (h : s.Beside v s') (params : Except Failure γ)
    (pick : γ → List (Row ρ) → List (Row ρ))
    (heq : ∀ c, params = .ok c → pick c (Relation.table (ρ := ρ) s'.database.ledger).rows
      = pick c (Relation.table (ρ := ρ) s.database.ledger).rows) :
    Consults v (selectAll ρ params pick) s s' := by
  refine (consults_select h _ ?_).bind fun rows t t' _ _ ht _ _ =>
    consults_decode ht fun layout => decodeAll layout rows
  cases params with
  | error e => rfl
  | ok c => exact congrArg Except.ok (heq c rfl)

variable [Held ρ] [Parted ρ]

theorem consults_selectOne {γ : Type} (h : s.Beside v s') {params : Except Failure γ}
    {p : γ → Row ρ → Bool}
    (hp : ∀ l, Intact l → ∀ c, params = .ok c → ∀ r ∈ (Relation.table (ρ := ρ) l).rows,
      p c r = true → v.sees (Held.holder r) = true) : Consults v (selectOne ρ params p) s s' := by
  refine (consults_select h _ ?_).bind fun found t t' _ _ ht _ _ => ?_
  · cases params with
    | error e => rfl
    | ok c =>
      exact congrArg Except.ok ((h.table (ρ := ρ)).same.find? (hp _ h.intact c rfl)
        (hp _ h.intact' c rfl)).symm
  · cases found with
    | none => exact consults_pure ht none
    | some r =>
      exact consults_get ((consults_lift ht _).map some) (by rw [ht.layout.1, ht.layout.2])

/-- What two tables have of the rows in view is the same under any condition on these. -/
theorem filter_eq (h : s.Beside v s') {p : Row ρ → Bool}
    (hp : ∀ l, Intact l → ∀ r ∈ (Relation.table (ρ := ρ) l).rows, p r = true →
      v.sees (Held.holder r) = true) :
    (Relation.table (ρ := ρ) s'.database.ledger).rows.filter p
      = (Relation.table (ρ := ρ) s.database.ledger).rows.filter p :=
  ((h.table (ρ := ρ)).same.filter (hp _ h.intact) (hp _ h.intact')).symm

/-- A row in view is in both databases. -/
theorem Session.Beside.mem (h : s.Beside v s') {r : Row ρ}
    (hr : r ∈ (Relation.table (ρ := ρ) s.database.ledger).rows)
    (hs : v.sees (Held.holder r) = true) : r ∈ (Relation.table (ρ := ρ) s'.database.ledger).rows :=
  (h.table (ρ := ρ)).same.mem hr hs

end

/-! ## Looking up -/

section

variable (h : s.Beside v s')

include h

theorem consults_findUser {user : Value} (hu : v.Covers user) : Consults v (find User user) s s' :=
  consults_selectOne h fun _ _ _ hc _ _ hp => hu.of_isInteger hc hp

theorem consults_requireUser {user : Value} (hu : v.Covers user) :
    Consults v (Service.requireUser user) s s' := by
  refine (consults_findUser h hu).bind fun found t t' _ _ ht _ _ => ?_
  cases found with
  | none => exact consults_fail ht _
  | some u => exact consults_pure ht u

/-- Names are looked up among all users. -/
theorem consults_findByUsername (hall : ∀ n, v.sees n = true) (username : Value) :
    Consults v (findByUsername username) s s' :=
  (consults_lift h _).bind fun _ _ _ _ _ ht _ _ =>
    consults_selectOne ht fun _ _ _ _ r _ _ => hall r.id

section

variable {ρ α : Type} [OwnedRecord ρ α] [Governed ρ] {user : Value} (hu : v.Covers user)

include hu

omit h in
/-- A condition on the owner selects rows in view only. -/
theorem sees_owner {l : Ledger} (hi : Intact l) {c : Cell} (hc : param user = .ok c) {r : Row ρ}
    (hr : r ∈ (Relation.table (ρ := ρ) l).rows) (hp : c.isInteger (ownerCell r) = true) :
    v.sees (Owned.owner r.data) = true := by
  rw [ownerCell, Row.cell_of_odd_nil r ((Governed.tidy hi).proper r hr)] at hp
  exact hu.of_isInteger hc hp

theorem consults_findOwned (id : Value) : Consults v (findOwned ρ user id) s s' := by
  refine consults_selectOne h fun l hi c hc r hr hp => ?_
  obtain ⟨i, -, hrest⟩ := Service.except_bind_ok_iff.1 hc
  obtain ⟨u, hparam, hpair⟩ := Service.except_bind_ok_iff.1 hrest
  cases hpair
  exact sees_owner hu hi hparam hr (Bool.and_eq_true _ _ ▸ hp).2

theorem consults_loadOwned (id : Value) (field : String) (active : Bool) :
    Consults v (Service.loadOwned ρ user id field active) s s' := by
  refine .either (consults_pure h none) (consults_findOwned h hu id) fun found t t' ht => ?_
  cases found with
  | none => exact consults_fail ht _
  | some r => exact .ite (consults_fail ht _) (consults_pure ht r)

theorem consults_findByUser (includeArchived : Value) :
    Consults v (findByUser ρ user includeArchived) s s' := by
  refine consults_selectAll h _ _ fun c hc => filter_eq h fun l hi r hr hp => ?_
  exact sees_owner hu hi hc hr (Bool.and_eq_true _ _ ▸ hp).1

end

section

variable {ρ : Type} {user : Value} (hu : v.Covers user)

include hu

theorem consults_findByName [NamedRecord ρ] [Governed ρ] (name : Value) :
    Consults v (findByName ρ user name) s s' := by
  refine (consults_lift h _).bind fun name t t' _ _ ht _ _ => consults_selectOne ht ?_
  intro l hi c hc r hr hp
  obtain ⟨u, hparam, hrest⟩ := Service.except_bind_ok_iff.1 hc
  obtain ⟨n, -, hpair⟩ := Service.except_bind_ok_iff.1 hrest
  cases hpair
  exact sees_owner hu hi hparam hr (Bool.and_eq_true _ _ ▸ hp).1

theorem consults_ensureUnique [Service.Catalog ρ] [Governed ρ] (name : String) (except : Value) :
    Consults v (Service.ensureUnique ρ user name except) s s' := by
  refine (consults_findByName h hu _).bind fun found t t' _ _ ht _ _ => ?_
  cases found with
  | none => exact consults_pure ht ()
  | some r =>
    dsimp only
    split
    · exact consults_pure ht ()
    · exact consults_fail ht _

theorem consults_findFiltered (filter : EntryFilter) :
    Consults v (findFiltered user filter) s s' := by
  refine (consults_lift h _).bind fun start _ _ _ _ h₁ _ _ =>
    (consults_lift h₁ _).bind fun stop _ _ _ _ h₂ _ _ =>
      (consults_lift h₂ _).bind fun kind t t' _ _ h₃ _ _ => consults_get ?_ ?_
  · rw [if_neg (by simp [h₃.layout.1])]
    refine consults_selectAll h₃ _ _ fun c hc => ?_
    obtain ⟨u, hparam, hrest⟩ := Service.except_bind_ok_iff.1 hc
    obtain ⟨source, -, hrest⟩ := Service.except_bind_ok_iff.1 hrest
    obtain ⟨target, -, hpair⟩ := Service.except_bind_ok_iff.1 hrest
    cases hpair
    refine congrArg (List.mergeSort · listedBefore)
      (filter_eq (ρ := StoredEntry) h₃ fun l hi r hr hp => ?_)
    simp only [Bool.and_eq_true, and_assoc] at hp
    exact sees_owner hu hi hparam hr hp.1
  · rw [h₃.layout.1, h₃.layout.2]

end

end

/-! ## Looking up within a transaction -/

section

variable {α β : Type} {sure : Bool} (h : s.Beside v s') (hin : s.inBlock = true)

include h hin

/-- A row in view that can be read is found in both databases. -/
theorem agrees_found {ρ : Type} [Persistent ρ α] [Held ρ] [Governed ρ] {id : Value} {r : Row ρ}
    {a : Row α} {f : Option (Row α) → Op β}
    (hr : r ∈ (Relation.table (ρ := ρ) s.database.ledger).rows)
    (hsees : v.sees (Held.holder r) = true) (hid : id.id? = some r.id)
    (hd : Persistent.decode .full r = .ok a) (hf : Agrees v sure (f (some a)) s s') :
    Agrees v sure (find ρ id >>= f) s s' := by
  refine agrees_next ?_ ?_ hf
  · rw [exec_find (h.ready hin) h.intact hr hid, hd]
    rfl
  · rw [exec_find (h.ready' hin) h.intact' (h.mem hr hsees) hid, hd]
    rfl

theorem agrees_find {ρ : Type} [Persistent ρ α] [Held ρ] [Governed ρ] {id : Value} {r : Row ρ}
    {a : Row α} (hr : r ∈ (Relation.table (ρ := ρ) s.database.ledger).rows)
    (hsees : v.sees (Held.holder r) = true) (hid : id.id? = some r.id)
    (hd : Persistent.decode .full r = .ok a) : Agrees v sure (find ρ id) s s' := by
  rw [← bind_pure (find ρ id)]
  exact agrees_found h hin hr hsees hid hd (agrees_pure h (some a))

/-- A user who must exist is the same row in both databases. -/
theorem agrees_required {user : Value} {f : Row User → Op β} (hu : v.Covers user)
    (hf : ∀ r a, r ∈ s.database.ledger.users.rows → r ∈ s'.database.ledger.users.rows →
      user.id? = some r.id → v.sees r.id = true → reread r = .ok a → Agrees v false (f a) s s') :
    Agrees v false (Service.requireUser user >>= f) s s' := by
  refine (consults_requireUser h hu).before fun a t t' run run' _ _ _ => ?_
  obtain ⟨rfl, -⟩ := Service.requireUser_ok (h.ready' hin) hu.isId run'
  obtain ⟨found, w, hfind, hm⟩ := bind_ok run
  obtain ⟨rfl, hpick⟩ := find_ok User (h.ready hin) hu.isId hfind
  cases found with
  | none => cases hm
  | some b =>
    obtain ⟨rfl, rfl⟩ := pure_ok hm
    obtain ⟨r, hrow, hd⟩ := pick_some.1 hpick
    have hid : user.id? = some r.id := by simpa using List.find?_some hrow
    have hr : r ∈ t.database.ledger.users.rows := List.mem_of_find?_eq_some hrow
    exact hf r a hr (h.mem (ρ := User) hr (hu.sees _ hid)) hid (hu.sees _ hid) hd

/-- A row that a user must own is the same in both databases. -/
theorem agrees_loaded {ρ : Type} [OwnedRecord ρ α] [Governed ρ] {user id : Value} {field : String}
    {active : Bool} {f : Row α → Op β} (hu : v.Covers user) (hid : id.isId = true)
    (hf : ∀ (r : Row ρ) a, r ∈ (Relation.table (ρ := ρ) s.database.ledger).rows →
      r ∈ (Relation.table (ρ := ρ) s'.database.ledger).rows → id.id? = some r.id →
      user.id? = some (Owned.owner r.data) → v.sees (Owned.owner r.data) = true →
      Persistent.decode .full r = .ok a →
      (active = true → OwnedRecord.isArchived ρ a.data = false) → Agrees v false (f a) s s') :
    Agrees v false (Service.loadOwned ρ user id field active >>= f) s s' := by
  refine (consults_loadOwned h hu id field active).before fun a t t' run run' _ _ _ => ?_
  obtain ⟨rfl, -⟩ :=
    Service.loadOwned_ok (h.ready' hin) (Governed.tidy h.intact') hu.isId hid run'
  obtain ⟨rfl, r, hr, hrid, hown, hd, hactive⟩ :=
    Service.loadOwned_ok (h.ready hin) (Governed.tidy h.intact) hu.isId hid run
  have hsees := hu.sees _ hown
  exact hf r a hr (h.mem hr hsees) hrid hown hsees hd hactive

omit h hin in
/-- A name that is found to be unique is used by the excepted row at most. -/
theorem ensureUnique_names {ρ : Type} [Service.Catalog ρ] [LawfulNamed ρ] (h : s.Ready)
    {users : Int → Prop} (hk : (Relation.table (ρ := ρ) s.database.ledger).Kept users)
    {user except : Value} {name : String} (hu : user.isId = true) (hname : Text.strip name = name)
    {x : Unit} (hx : (Service.ensureUnique ρ user name except).exec s = (.ok x, s')) :
    ∀ r ∈ (Relation.table (ρ := ρ) s.database.ledger).rows, user.id? = some (Owned.owner r.data) →
      Named.rowName r.data = name → (Value.int r.id).same except = true := by
  obtain ⟨found, t, hfind, hm⟩ := bind_ok hx
  obtain ⟨n, hn, hs⟩ := lift_bind_ok hfind
  obtain rfl : .text name = n := by simpa [lookupName, Value.text?, hname] using hn
  rw [exec_selectOne ρ h] at hs
  obtain ⟨hpick, rfl⟩ := Prod.mk.inj hs
  obtain ⟨c, hc, hpick⟩ := Service.except_bind_ok_iff.1 hpick
  obtain ⟨w, hw, hrest⟩ := Service.except_bind_ok_iff.1 hc
  cases hrest
  have hmatch (r : Row ρ) (hr : r ∈ (Relation.table (ρ := ρ) s.database.ledger).rows) :
      (w.isInteger (ownerCell r) && (Cell.text name).isText (.text (Named.rowName r.data)))
        = true ↔ user.id? = some (Owned.owner r.data) ∧ Named.rowName r.data = name := by
    rw [ownerCell, Row.cell_of_odd_nil r (hk.tidy.proper r hr), isInteger_of_isId hu hw]
    simp [Cell.isText, Cell.asText, Cell.same]
  intro r hr hown hrn
  cases found with
  | none =>
    exact absurd ((hmatch r hr).2 ⟨hown, hrn⟩) (List.find?_eq_none.1 (pick_none.1 hpick) r hr)
  | some a =>
    -- the row that was found is the only one of its owner under the name, so it is the one at hand
    obtain ⟨o, hf, hd⟩ := pick_some.1 hpick
    have ho := List.mem_of_find?_eq_some hf
    have hsome := List.find?_some (p := fun r =>
      w.isInteger (ownerCell r) && (Cell.text name).isText (.text (Named.rowName r.data))) hf
    obtain ⟨hoo, hon⟩ := (hmatch o ho).1 hsome
    have hid : o.id = r.id :=
      hk.distinct o ho r hr (Option.some.inj (hoo.symm.trans hown)) (hon.trans hrn.symm)
    rw [← hid, ← (LawfulNamed.read_eq o a (hk.tidy.proper o ho) hd).1]
    dsimp only at hm
    split at hm
    · assumption
    · cases hm

/-- A name that must be unique is so in both databases. -/
theorem agrees_unique {ρ : Type} [Service.Catalog ρ] [Revisable ρ] [Governed ρ]
    {user except : Value} {name : String} {f : Unit → Op β} (hu : v.Covers user)
    (hname : Text.strip name = name)
    (hf : (∀ r ∈ (Relation.table (ρ := ρ) s.database.ledger).rows,
        user.id? = some (Owned.owner r.data) → Named.rowName r.data = name →
        (Value.int r.id).same except = true) →
      (∀ r ∈ (Relation.table (ρ := ρ) s'.database.ledger).rows,
        user.id? = some (Owned.owner r.data) → Named.rowName r.data = name →
        (Value.int r.id).same except = true) → Agrees v false (f ()) s s') :
    Agrees v false (Service.ensureUnique ρ user name except >>= f) s s' := by
  refine (consults_ensureUnique h hu name except).before fun a t t' run run' _ _ _ => ?_
  have hn := ensureUnique_names (h.ready hin) (Revisable.kept _ h.intact) hu.isId hname run
  have hn' := ensureUnique_names (h.ready' hin) (Revisable.kept _ h.intact') hu.isId hname run'
  obtain rfl := Service.ensureUnique_ok (h.ready hin) run
  obtain rfl := Service.ensureUnique_ok (h.ready' hin) run'
  exact hf hn hn'

end

/-! ## Writing -/

section

variable {ρ α β : Type} [Persistent ρ α] [Held ρ] [Governed ρ] {sure : Bool} (h : s.Beside v s')
  (hin : s.inBlock = true)

include h hin

/-- Without an id left for it a record is stored in neither database, and both transactions are
undone. -/
theorem agrees_insert_full {a : α} {f : Row α → Op β}
    (hfits : (Relation.references (Persistent.encode (ρ := ρ) s.now a)).all fitsInteger = true)
    (hroom : (Relation.table (ρ := ρ) s.database.ledger).isFull = true)
    (hlate : v.timely → v.late (.operational noRoom)) :
    Agrees v sure (Store.insert ρ a >>= f) s s' := by
  have hfull := (h.table (ρ := ρ)).isFull (Governed.tidy h.intact) (Governed.tidy h.intact')
  have run := exec_insert_full (h.ready hin) (a := a) hfits hroom
  have run' := exec_insert_full (h.ready' hin) (a := a) (by rwa [h.now]) (hfull.symm.trans hroom)
  exact .error (exec_bind_error run) (exec_bind_error run') h.abandon.toPaired
    (Session.fallen_abandon hin) (Session.fallen_abandon (h.inBlock.trans hin))
    fun hv => ⟨h.abandon, .inl (hlate hv)⟩

/-- A record is stored in both databases, under the same id, or in neither. -/
theorem agrees_insert {a : α} {f : Row α → Op β}
    (hfits : (Relation.references (Persistent.encode (ρ := ρ) s.now a)).all fitsInteger = true)
    (hsees : v.sees (Held.holder (⟨(Relation.table (ρ := ρ) s.database.ledger).nextId,
      Persistent.encode s.now a, []⟩ : Row ρ)) = true)
    (hread : ∃ x, Persistent.decode .full
      { id := (Relation.table (ρ := ρ) s.database.ledger).nextId
        data := Persistent.encode (ρ := ρ) s.now a } = .ok x)
    (hi : (Relation.table (ρ := ρ) s.database.ledger).isFull = false →
      Intact (Relation.withTable s.database.ledger
        ((Relation.table (ρ := ρ) s.database.ledger).insert (Persistent.encode s.now a))))
    (hi' : (Relation.table (ρ := ρ) s'.database.ledger).isFull = false →
      Intact (Relation.withTable s'.database.ledger
        ((Relation.table (ρ := ρ) s'.database.ledger).insert (Persistent.encode s.now a))))
    (hlate : (Relation.table (ρ := ρ) s.database.ledger).isFull = true →
      v.late (.operational noRoom))
    (hf : ∀ x t t', (Relation.table (ρ := ρ) s.database.ledger).isFull = false →
      t = s.put (Relation.withTable s.database.ledger
        ((Relation.table (ρ := ρ) s.database.ledger).insert (Persistent.encode s.now a))) →
      t' = s'.put (Relation.withTable s'.database.ledger
        ((Relation.table (ρ := ρ) s'.database.ledger).insert (Persistent.encode s.now a))) →
      Persistent.decode .full { id := (Relation.table (ρ := ρ) s.database.ledger).nextId
                                data := Persistent.encode (ρ := ρ) s.now a } = .ok x →
      t.Beside v t' → Agrees v true (f x) t t') :
    Agrees v sure (Store.insert ρ a >>= f) s s' := by
  have ht : (Relation.table (ρ := ρ) s.database.ledger).Tidy := Governed.tidy h.intact
  have ht' : (Relation.table (ρ := ρ) s'.database.ledger).Tidy := Governed.tidy h.intact'
  have htable := h.table (ρ := ρ)
  have hnext := htable.nextId ht ht'
  cases hroom : (Relation.table (ρ := ρ) s.database.ledger).isFull with
  | true => exact agrees_insert_full h hin hfits hroom fun _ => hlate hroom
  | false =>
    have hroom' := (htable.isFull ht ht').symm.trans hroom
    obtain ⟨x, hx⟩ := hread
    have w : Writes v (Store.insert ρ a) x s s'
        (Relation.withTable s.database.ledger
          ((Relation.table (ρ := ρ) s.database.ledger).insert (Persistent.encode s.now a)))
        (Relation.withTable s'.database.ledger
          ((Relation.table (ρ := ρ) s'.database.ledger).insert (Persistent.encode s.now a))) :=
      { run := exec_insert (h.ready hin) h.intact hroom (hi hroom) hx
        run' := by
          rw [← h.now] at hi' hx ⊢
          exact exec_insert (h.ready' hin) h.intact' hroom' (hi' hroom') (by rwa [← hnext])
        intact := hi hroom
        intact' := hi' hroom'
        alike := Parted.withTable h.alike (htable.insert ht ht' _)
        same := same_withTable (Table.same_insert (by simp [hsees])) }
    exact w.before h fun hbeside => hf x _ _ hroom rfl rfl hx hbeside

/-- A record whose row cannot be read afterwards is refused in both databases, if only then. -/
theorem agrees_insert_unreadable {a : α} {e : Failure} {f : Row α → Op β}
    (hfits : (Relation.references (Persistent.encode (ρ := ρ) s.now a)).all fitsInteger = true)
    (hi : (Relation.table (ρ := ρ) s.database.ledger).isFull = false →
      Insertable s.enforce s.database.ledger (Persistent.encode (ρ := ρ) s.now a))
    (hi' : (Relation.table (ρ := ρ) s'.database.ledger).isFull = false →
      Insertable s'.enforce s'.database.ledger (Persistent.encode (ρ := ρ) s.now a))
    (hread : Persistent.decode .full { id := (Relation.table (ρ := ρ) s.database.ledger).nextId
                                       data := Persistent.encode (ρ := ρ) s.now a } = .error e)
    (hv : ¬ v.timely) : Agrees v sure (Store.insert ρ a >>= f) s s' := by
  have ht : (Relation.table (ρ := ρ) s.database.ledger).Tidy := Governed.tidy h.intact
  have ht' : (Relation.table (ρ := ρ) s'.database.ledger).Tidy := Governed.tidy h.intact'
  have htable := h.table (ρ := ρ)
  have hnow := h.now
  cases hroom : (Relation.table (ρ := ρ) s.database.ledger).isFull with
  | true => exact agrees_insert_full h hin hfits hroom fun hw => absurd hw hv
  | false =>
    have run := exec_insertable (h.ready hin) ht (hi hroom)
    have run' := exec_insertable (h.ready' hin) ht' (a := a)
      (by rw [hnow]; exact hi' ((htable.isFull ht ht').symm.trans hroom))
    -- the row goes in under the same id in both databases, and neither can read it back
    rw [hread] at run
    rw [hnow, ← htable.nextId ht ht', hread] at run'
    exact .error (exec_bind_error run) (exec_bind_error run')
      { h.toPaired with } ⟨.inl rfl, fun _ => rfl⟩ ⟨.inl rfl, fun _ => rfl⟩
      fun hw => absurd hw hv

/-- A row in view is changed in both databases. -/
theorem writes_update {id : Value} {fields : List (String × Value)} {cells : List (String × Cell)}
    {r : Row ρ} {a : ρ} (hr : r ∈ (Relation.table (ρ := ρ) s.database.ledger).rows)
    (hid : id.id? = some r.id) (hsees : v.sees (Held.holder r) = true)
    (hholder : Held.holder (⟨r.id, a, []⟩ : Row ρ) = Held.holder r) (hf : fields ≠ [])
    (hknown : missingColumn? ρ .full fields = none) (hc : paramFields fields = .ok cells)
    (ha : Ledger.assigned Relation.columns cells r = .ok ⟨r.id, a, []⟩)
    (hi : Intact (Relation.withTable s.database.ledger
      ((Relation.table (ρ := ρ) s.database.ledger).replace r.id ⟨r.id, a, []⟩)))
    (hi' : Intact (Relation.withTable s'.database.ledger
      ((Relation.table (ρ := ρ) s'.database.ledger).replace r.id ⟨r.id, a, []⟩))) :
    Writes v (update ρ id fields) true s s'
      (Relation.withTable s.database.ledger
        ((Relation.table (ρ := ρ) s.database.ledger).replace r.id ⟨r.id, a, []⟩))
      (Relation.withTable s'.database.ledger
        ((Relation.table (ρ := ρ) s'.database.ledger).replace r.id ⟨r.id, a, []⟩)) := by
  have hr' := h.mem hr hsees
  -- no other row has the id, so nobody else's row is replaced
  have hrow {l : Ledger} (hl : Intact l) (hr : r ∈ (Relation.table (ρ := ρ) l).rows) :
      ∀ x ∈ (Relation.table (ρ := ρ) l).rows, (x.id == r.id) = true →
        Held.holder (⟨r.id, a, []⟩ : Row ρ) = Held.holder x := fun x hx hid => by
    rw [hholder, (Governed.tidy hl).eq_of_id hx hr (beq_iff_eq.1 hid)]
  refine
    { run := exec_update (h.ready hin) h.intact hr hid hf hknown hc ha hi
      run' := exec_update (h.ready' hin) h.intact' hr' hid hf hknown hc ha hi'
      intact := hi
      intact' := hi'
      alike := Parted.withTable h.alike ?_
      same := same_withTable ?_ }
  · rw [Table.replace_eq_change _ (⟨r.id, a, []⟩ : Row ρ),
      Table.replace_eq_change _ (⟨r.id, a, []⟩ : Row ρ)]
    exact (h.table (ρ := ρ)).change (fun x hx hid => by rw [hrow h.intact hr x hx hid])
      fun x hx hid => by rw [hrow h.intact' hr' x hx hid]
  · rw [Table.replace_eq_change _ (⟨r.id, a, []⟩ : Row ρ)]
    refine Table.same_change fun x hx hid => ?_
    rw [← hrow h.intact hr x hx hid, hholder, hsees]
    exact ⟨rfl, rfl⟩

/-- An operation after a change of a row in view finds the changed row. -/
theorem agrees_update {id : Value} {fields : List (String × Value)} {cells : List (String × Cell)}
    {r : Row ρ} {a : ρ} {f : Bool → Op β}
    (hr : r ∈ (Relation.table (ρ := ρ) s.database.ledger).rows)
    (hid : id.id? = some r.id) (hsees : v.sees (Held.holder r) = true)
    (hholder : Held.holder (⟨r.id, a, []⟩ : Row ρ) = Held.holder r) (hf : fields ≠ [])
    (hknown : missingColumn? ρ .full fields = none) (hc : paramFields fields = .ok cells)
    (ha : Ledger.assigned Relation.columns cells r = .ok ⟨r.id, a, []⟩)
    (hi : ∀ l, Intact l → r ∈ (Relation.table (ρ := ρ) l).rows →
      (l = s.database.ledger ∨ l = s'.database.ledger) → Intact (Relation.withTable l
        ((Relation.table (ρ := ρ) l).replace r.id ⟨r.id, a, []⟩)))
    (hnext : ∀ t t', t = s.put (Relation.withTable s.database.ledger
        ((Relation.table (ρ := ρ) s.database.ledger).replace r.id ⟨r.id, a, []⟩)) →
      t' = s'.put (Relation.withTable s'.database.ledger
        ((Relation.table (ρ := ρ) s'.database.ledger).replace r.id ⟨r.id, a, []⟩)) →
      ⟨r.id, a, []⟩ ∈ (Relation.table (ρ := ρ) t.database.ledger).rows → t.Beside v t' →
      Agrees v true (f true) t t') :
    Agrees v sure (update ρ id fields >>= f) s s' := by
  refine (writes_update h hin hr hid hsees hholder hf hknown hc ha (hi _ h.intact hr (.inl rfl))
    (hi _ h.intact' (h.mem hr hsees) (.inr rfl))).before h (hnext _ _ rfl rfl ?_)
  rw [Session.ledger_put, LawfulRelation.table_withTable]
  exact Table.mem_replace.2 (.inl ⟨rfl, r, hr, rfl⟩)

/-- A row in view is removed from both databases. -/
theorem writes_delete {id : Value} {r : Row ρ}
    (hr : r ∈ (Relation.table (ρ := ρ) s.database.ledger).rows) (hid : id.id? = some r.id)
    (hsees : v.sees (Held.holder r) = true)
    (hi : Intact (Relation.withTable s.database.ledger
      ((Relation.table (ρ := ρ) s.database.ledger).erase fun x => x.id == r.id)))
    (hi' : Intact (Relation.withTable s'.database.ledger
      ((Relation.table (ρ := ρ) s'.database.ledger).erase fun x => x.id == r.id))) :
    Writes v (delete ρ id) true s s'
      (Relation.withTable s.database.ledger
        ((Relation.table (ρ := ρ) s.database.ledger).erase fun x => x.id == r.id))
      (Relation.withTable s'.database.ledger
        ((Relation.table (ρ := ρ) s'.database.ledger).erase fun x => x.id == r.id)) where
  run := exec_delete (h.ready hin) h.intact hr hid hi
  run' := exec_delete (h.ready' hin) h.intact' (h.mem hr hsees) hid hi'
  intact := hi
  intact' := hi'
  alike := Parted.withTable h.alike ((h.table (ρ := ρ)).erase _)
  same := by
    refine same_withTable (Table.same_erase fun x hx hid => ?_)
    rw [(Governed.tidy h.intact).eq_of_id hx hr (beq_iff_eq.1 hid), hsees]
    rfl

end

section

variable (h : s.Beside v s') (hin : s.inBlock = true)

include h hin

/-- The rows of a user in view are removed from both databases. -/
theorem writes_deleteByUser {ρ α : Type} [OwnedRecord ρ α] [Governed ρ] {user : Value} {uid : Int}
    (huid : user.id? = some uid) (hfit : fitsInteger uid = true) (hsees : v.sees uid = true)
    (hi : Intact (Relation.withTable s.database.ledger
      ((Relation.table (ρ := ρ) s.database.ledger).erase fun r => Owned.owner r.data == uid)))
    (hi' : Intact (Relation.withTable s'.database.ledger
      ((Relation.table (ρ := ρ) s'.database.ledger).erase fun r => Owned.owner r.data == uid))) :
    Writes v (deleteByUser ρ user)
      ((Relation.table (ρ := ρ) s.database.ledger).count fun r => Owned.owner r.data == uid) s s'
      (Relation.withTable s.database.ledger
        ((Relation.table (ρ := ρ) s.database.ledger).erase fun r => Owned.owner r.data == uid))
      (Relation.withTable s'.database.ledger
        ((Relation.table (ρ := ρ) s'.database.ledger).erase fun r => Owned.owner r.data == uid)) where
  run := exec_deleteByUser (h.ready hin) h.intact huid hfit hi
  run' := by
    have hview (t : Table ρ) : ∀ r ∈ t.rows, (Owned.owner r.data == uid) = true →
        v.sees (Held.holder r) = true := fun r _ hp => by
      rw [show Held.holder r = uid from beq_iff_eq.1 hp, hsees]
    rw [exec_deleteByUser (h.ready' hin) h.intact' huid hfit hi',
      (h.table (ρ := ρ)).same.count (hview _) (hview _)]
  intact := hi
  intact' := hi'
  alike := Parted.withTable h.alike ((h.table (ρ := ρ)).erase _)
  same := by
    refine same_withTable (Table.same_erase fun r _ hp => ?_)
    rw [show Held.holder r = uid from beq_iff_eq.1 hp, hsees]
    rfl

/-- The users who report in a currency in view are released in both databases. -/
theorem writes_clearFixedCurrency {id : Value} {r : Row Currency}
    (hr : r ∈ s.database.ledger.currencies.rows) (hid : id.id? = some r.id)
    (hsees : v.sees r.data.owner = true) :
    Writes v (clearFixedCurrency id)
      (s.database.ledger.users.count fun u => u.data.fixedCurrency == some r.id) s s'
      (s.database.ledger.freed r.id) (s'.database.ledger.freed r.id) := by
  have hr' : r ∈ s'.database.ledger.currencies.rows := h.mem (ρ := Currency) hr hsees
  have hview {l : Ledger} (hi : Intact l) (hr : r ∈ l.currencies.rows) : ∀ u ∈ l.users.rows,
      (u.data.fixedCurrency == some r.id) = true → v.sees u.id = true := fun u hu hp => by
    rw [hi.reporting_owner hr hu (beq_iff_eq.1 hp)]
    exact hsees
  have hfit := h.intact.currencies.tidy.fits r hr
  refine
    { run := exec_clearFixedCurrency (h.ready hin) h.intact hid hfit
      run' := ?_
      intact := h.intact.freed r.id
      intact' := h.intact'.freed r.id
      alike := { h.alike with users := h.alike.users.change (fun _ _ _ => rfl) fun _ _ _ => rfl }
      same := ?_ }
  · rw [exec_clearFixedCurrency (h.ready' hin) h.intact' hid hfit,
      h.alike.users.same.count (hview h.intact hr) (hview h.intact' hr')]
  · refine same_withTable (ρ := User) (Table.same_change fun u hu hp => ?_)
    have hs := hview h.intact hr u hu hp
    exact ⟨by simp [Held.holder, hs], by simp [Held.holder, released, Row.put, hs]⟩

end

end Bookkeeping.Store
