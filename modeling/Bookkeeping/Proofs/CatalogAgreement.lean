import Bookkeeping.Proofs.SideBySide

/-! # Calls on currencies, categories and sources side by side

The rows that such a call looks at are the user's own: names are compared within the user's rows,
and nothing of another user refers to the row that is changed. So two runs of the call agree.
-/

namespace Bookkeeping.Service

open Store

variable {v : Scope} {s s' : Session} {user id : Value}

/-! ## Making rows -/

/-- A row that a call makes for a user: what must hold of it, given what was found out before. -/
structure Makes {ρ : Type} [NamedRecord ρ] (user : Value) (name : String) (P : Ledger → Prop)
    (a : ρ) : Prop where
  owner : ∀ n, user.id? = some n → Owned.owner a = n
  name : Named.rowName a = name
  readable : ∀ id, ∃ x, Persistent.decode .full (⟨id, a, []⟩ : Row ρ) = .ok x
  fits : ∀ l, Intact l → P l → l.users.Has (Owned.owner a) →
    (Relation.references a).all fitsInteger = true
  step : ∀ l, P l → (Relation.table (ρ := ρ) l).Admits l.users.Has a →
    Step l (Relation.withTable l ((Relation.table (ρ := ρ) l).insert a))

theorem agrees_create {ρ : Type} [Catalog ρ] [Revisable ρ] [Governed ρ] {name : String}
    {record : Except Failure ρ} {check : Op Unit} {P : Ledger → Prop} (h : s.Beside v s')
    (hu : v.Covers user) (hname : Text.strip name = name)
    (hcheck : ∀ u u', u.Beside v u' → Consults v check u u')
    (hP : ∀ u t : Session, u.Ready → Intact u.database.ledger → check.exec u = (.ok (), t) →
      P u.database.ledger)
    (hmakes : ∀ a now, record = .ok a → Makes user name P (Persistent.encode (ρ := ρ) now a))
    (hlate : v.late (.operational noRoom)) :
    Agrees v false (create ρ user name (Op.lift record) check) s s' := by
  refine agrees_transaction h fun u u' hbeside hin _ _ => ?_
  refine agrees_required hbeside hin hu fun o _ ho ho' hid hsees _ => ?_
  refine (hcheck u u' hbeside).before fun _ t t' run run' ht still still' => ?_
  -- the check has only looked, so what it has found out holds where the row is stored
  have hPt : P t.database.ledger := by
    rw [still.database]
    exact hP u t (hbeside.ready hin) hbeside.intact run
  have hPt' : P t'.database.ledger := by
    rw [still'.database]
    exact hP u' t' (hbeside.ready' hin) hbeside.intact' run'
  rw [← still.database] at ho
  rw [← still'.database] at ho'
  refine agrees_unique ht (still.inBlock hin) hu hname fun hn hn' => ?_
  refine agrees_lift ht fun a hr => ?_
  have hm := hmakes a t.now hr
  have howner := hm.owner o.id hid
  have hadmits {l : Ledger} (ho : o ∈ l.users.rows)
      (hn : ∀ r ∈ (Relation.table (ρ := ρ) l).rows, user.id? = some (Owned.owner r.data) →
        Named.rowName r.data = name → (Value.int r.id).same .null = true)
      (room : (Relation.table (ρ := ρ) l).isFull = false) :
      (Relation.table (ρ := ρ) l).Admits l.users.Has (Persistent.encode (ρ := ρ) t.now a) :=
    { room
      owner := ⟨o, ho, howner.symm⟩
      name := fun r hr hown hsame => by
        have hnull := hn r hr (by rw [hown, howner, hid]) (hsame.trans hm.name)
        simp [Value.same, Value.text?, Value.exactNumber?, Value.infinite?] at hnull
      readable := hm.readable _ }
  rw [← bind_pure (Store.insert ρ a)]
  refine agrees_insert ht (still.inBlock hin) (hm.fits _ ht.intact hPt ⟨o, ho, howner.symm⟩)
    ?_ (hm.readable _) (fun room => (hm.step _ hPt (hadmits ho hn room)).intact ht.intact)
    (fun room => (hm.step _ hPt' (hadmits ho' hn' room)).intact ht.intact') (fun _ => hlate)
    fun x _ _ _ _ _ _ hend => agrees_pure hend x
  show v.sees (Owned.owner (Persistent.encode (ρ := ρ) t.now a)) = true
  rw [howner]
  exact hsees

theorem fits_owner {l : Ledger} (hi : Intact l) {owner : Int} (ho : l.users.Has owner) :
    [owner].all fitsInteger = true := by
  simpa using ho.fits hi.users

theorem makes_currency {name : String} {rate : Value} {item : Item Currency}
    (hread : Currency.read [("user_id", user), ("name", .text name), ("rate_to_fixed", rate)]
      = .ok item) (hpart : Part.name (.text name) = .ok name) (now : String) :
    Makes user name (fun _ => True) (Persistent.encode (ρ := Currency) now item.data) := by
  have hreadable := readable_newCurrency hread
  obtain ⟨owner, n, x, howner, hn, -, rfl⟩ := Currency.read_ok.1 hread
  exact
    { owner := fun m hm => Part.int_of_id hm howner
      name := Reading.ok_inj.1 (hn.symm.trans hpart)
      readable := hreadable
      fits := fun l hi _ ho => fits_owner hi ho
      step := fun l _ new => .addCurrency _ new }

theorem makes_category {name : String} {item : Item Category}
    (hread : Category.read [("user_id", user), ("name", .text name)] = .ok item)
    (hpart : Part.name (.text name) = .ok name) (now : String) :
    Makes user name (fun _ => True) (Persistent.encode (ρ := Category) now item.data) := by
  have hreadable := readable_newCategory hread
  obtain ⟨owner, n, howner, hn, rfl⟩ := Category.read_ok.1 hread
  exact
    { owner := fun m hm => Part.int_of_id hm howner
      name := Reading.ok_inj.1 (hn.symm.trans hpart)
      readable := hreadable
      fits := fun l hi _ ho => fits_owner hi ho
      step := fun l _ new => .addCategory _ new }

/-- The currency of a source is an active one of the user's own. -/
theorem makes_source {name : String} {currency amount : Value} {item : Item Source}
    (hread : Source.read [("user_id", user), ("name", .text name), ("currency_id", currency),
      ("amount", amount)] = .ok item) (hpart : Part.name (.text name) = .ok name) (now : String) :
    Makes user name
      (fun l => ∃ c ∈ l.currencies.rows, currency.id? = some c.id ∧
        user.id? = some c.data.owner ∧ c.data.archived = false)
      (Persistent.encode (ρ := Source) now item.data) := by
  have hreadable := readable_newSource hread
  obtain ⟨owner, n, k, x, howner, hn, hcurrency, -, rfl⟩ := Source.read_ok.1 hread
  refine
    { owner := fun m hm => Part.int_of_id hm howner
      name := Reading.ok_inj.1 (hn.symm.trans hpart)
      readable := hreadable
      fits := ?_
      step := ?_ }
  · intro l hi ⟨c, hmem, hid, _⟩ ho
    have hfit : fitsInteger owner = true := ho.fits hi.users
    show [owner, k].all fitsInteger = true
    simpa [Part.int_of_id hid hcurrency] using ⟨hfit, hi.currencies.tidy.fits c hmem⟩
  · intro l ⟨c, hmem, hid, hown, hactive⟩ new
    exact .addSource _ new ⟨c, hmem, (Part.int_of_id hid hcurrency).symm,
      (Part.int_of_id hown howner).symm, hactive⟩

theorem agrees_createCurrency (h : s.Beside v s') (hu : v.Covers user) (name rate : Value)
    (hlate : v.late (.operational noRoom)) :
    Agrees v false (createCurrency user name rate) s s' := by
  refine (agrees_lift h fun n hn => agrees_lift h fun x _ => ?_).logged
  obtain ⟨hstrip, hpart⟩ := Check.name_ok hn
  refine (agrees_create h hu hstrip (P := fun _ => True) (fun _ _ hw => consults_pure hw ())
    (fun _ _ _ _ _ => trivial) (fun a now ha => ?_) hlate).bind
      fun r _ _ _ _ hw => agrees_announced hw r
  obtain ⟨item, hread, rfl⟩ := read_of_recordOf ha
  exact makes_currency hread hpart now

theorem agrees_createCategory (h : s.Beside v s') (hu : v.Covers user) (name : Value)
    (hlate : v.late (.operational noRoom)) :
    Agrees v false (createCategory user name) s s' := by
  refine (agrees_lift h fun n hn => ?_).logged
  obtain ⟨hstrip, hpart⟩ := Check.name_ok hn
  refine (agrees_create h hu hstrip (P := fun _ => True) (fun _ _ hw => consults_pure hw ())
    (fun _ _ _ _ _ => trivial) (fun a now ha => ?_) hlate).bind
      fun r _ _ _ _ hw => agrees_announced hw r
  obtain ⟨item, hread, rfl⟩ := read_of_recordOf ha
  exact makes_category hread hpart now

/-- The currency of a source is the user's own. -/
theorem agrees_createSource (h : s.Beside v s') (hu : v.Covers user) {currency : Value}
    (hc : currency.isId = true) (name amount : Value) (hlate : v.late (.operational noRoom)) :
    Agrees v false (createSource user name currency amount) s s' := by
  refine (agrees_lift h fun n hn => agrees_lift h fun x _ => ?_).logged
  obtain ⟨hstrip, hpart⟩ := Check.name_ok hn
  refine (agrees_create h hu hstrip
    (P := fun l => ∃ c ∈ l.currencies.rows, currency.id? = some c.id ∧
      user.id? = some c.data.owner ∧ c.data.archived = false)
    (fun _ _ hw => (consults_loadOwned hw hu currency _ true).bind fun _ _ _ _ _ hz _ _ =>
      consults_pure hz ()) (fun w z hw hi hx => ?_) (fun a now ha => ?_) hlate).bind
        fun r _ _ _ _ hw => agrees_announced hw r
  · obtain ⟨c, y, hload, -⟩ := Op.bind_ok hx
    obtain ⟨-, c, hoffered, -⟩ := (loadActive_ok hw hi hi.currencies _ hu.isId hc).1 hload
    exact ⟨c, hoffered.mem, hoffered.id, hoffered.owner, hoffered.active⟩
  · obtain ⟨item, hread, rfl⟩ := read_of_recordOf ha
    exact makes_source hread hpart now

/-! ## Names and archive flags -/

theorem paramFields_archived (archived : Bool) :
    paramFields [("archived", .int (if archived then 1 else 0))]
      = .ok [("archived", Cell.ofBool archived)] := by
  cases archived <;> rfl

section

variable {ρ : Type} [Catalog ρ] [Legible ρ] [Governed ρ]

omit [Governed ρ] in
/-- A row gets a name that no other row of its owner has. -/
theorem intact_named {l : Ledger} (hi : Intact l) {r a : Row ρ} {name : String}
    (hr : r ∈ (Relation.table (ρ := ρ) l).rows) (hid : id.id? = some r.id)
    (hown : user.id? = some (Owned.owner r.data)) (hd : Persistent.decode .full r = .ok a)
    (hpart : Part.name (.text name) = .ok name)
    (hn : ∀ x ∈ (Relation.table (ρ := ρ) l).rows, user.id? = some (Owned.owner x.data) →
      Named.rowName x.data = name → (Value.int x.id).same id = true) :
    Intact (Relation.withTable l ((Relation.table (ρ := ρ) l).replace r.id
      ⟨r.id, Revisable.named name r.data, []⟩)) := by
  have hodd := (Revisable.kept (ρ := ρ) l hi).tidy.proper r hr
  refine (Revisable.step_named l r name ⟨hr, Revisable.owner_named name _, ?_,
    Legible.readable_named hodd hd hpart⟩).intact hi
  -- another row of the owner under the name would have been found before
  intro x hx hxo hsame
  obtain ⟨hx, hne⟩ := List.mem_filter.1 hx
  rw [Revisable.owner_named] at hxo
  rw [Legible.rowName_named] at hsame
  have hxid := hn x hx (by rw [hown, hxo]) hsame
  rw [Value.same_of_id? (m := x.id) rfl hid, decide_eq_true_eq] at hxid
  simp [hxid] at hne

omit [Governed ρ] in
theorem intact_marked {l : Ledger} (hi : Intact l) {r a : Row ρ} {archived : Bool}
    (hr : r ∈ (Relation.table (ρ := ρ) l).rows) (hd : Persistent.decode .full r = .ok a) :
    Intact (Relation.withTable l ((Relation.table (ρ := ρ) l).replace r.id
      ⟨r.id, Revisable.marked archived r.data, []⟩)) := by
  have hkept := Revisable.kept (ρ := ρ) l hi
  refine (Revisable.step_marked l r archived ⟨hr, Revisable.owner_marked archived _, ?_,
    Legible.readable_marked (hkept.tidy.proper r hr) hd archived⟩).intact hi
  intro x hx hxo hsame
  obtain ⟨hx, hne⟩ := List.mem_filter.1 hx
  rw [Revisable.owner_marked] at hxo
  rw [Legible.rowName_marked] at hsame
  simp [hkept.distinct x hx r hr hxo hsame] at hne

theorem agrees_rename (h : s.Beside v s') (hu : v.Covers user) (hid : id.isId = true)
    (name : Value) : Agrees v false (rename ρ user id name) s s' := by
  refine (agrees_lift h fun n hn => ?_).logged
  obtain ⟨hstrip, hpart⟩ := Check.name_ok hn
  refine (agrees_transaction h fun w w' hw hin _ _ => ?_).bind
    fun r _ _ _ _ hz => agrees_announced hz r
  refine agrees_loaded hw hin hu hid fun r a hr hr' hrid hown hsees hd _ => ?_
  refine agrees_unique hw hin hu hstrip fun hnew hnew' => ?_
  have hodd := (Governed.tidy hw.intact).proper r hr
  obtain ⟨b, hb⟩ := Legible.readable_named hodd hd hpart
  refine agrees_update hw hin hr hrid hsees (Revisable.owner_named n _) (by simp)
    (Legible.known _).1 rfl (Legible.assign_name n hodd) (fun l hi hrl hl => ?_) ?_
  · rcases hl with rfl | rfl
    · exact intact_named hi hrl hrid hown hd hpart hnew
    · exact intact_named hi hrl hrid hown hd hpart hnew'
  · intro z z' hz _ hmem hbeside
    have hinz : z.inBlock = true := by
      rw [hz]
      exact hin
    exact agrees_find hbeside hinz hmem
      ((congrArg v.sees (Revisable.owner_named n r.data)).trans hsees) hrid hb

theorem agrees_mark (h : s.Beside v s') (hu : v.Covers user) (hid : id.isId = true)
    (archived : Bool) : Agrees v false (mark ρ archived user id) s s' := by
  refine agrees_transaction h fun w w' hw hin _ _ => ?_
  refine agrees_loaded hw hin hu hid fun r a hr hr' hrid hown hsees hd _ => ?_
  have hodd := (Governed.tidy hw.intact).proper r hr
  dsimp only
  split
  · obtain ⟨b, hb⟩ := Legible.readable_marked hodd hd archived
    unfold setArchived
    rw [bind_assoc]
    refine agrees_next (x := Op.lift (whole (.bool archived))) rfl rfl ?_
    refine agrees_update hw hin hr hrid hsees (Revisable.owner_marked archived _) (by simp)
      (Legible.known _).2 (paramFields_archived archived) (Legible.assign_archived archived hodd)
      (fun l hi hrl _ => intact_marked hi hrl hd) ?_
    intro z z' hz _ hmem hbeside
    refine agrees_emit hbeside fun y y' hy hstill _ => ?_
    have hiny : y.inBlock = true := by
      rw [Session.inBlock_congr hstill.standing, hz]
      exact hin
    rw [← hstill.database] at hmem
    exact agrees_find hy hiny hmem
      ((congrArg v.sees (Revisable.owner_marked archived r.data)).trans hsees) hrid hb
  · exact agrees_find hw hin hr hsees hrid hd

end

/-! ## Changing a currency -/

theorem assign_adjustments (name : Option String) {rate : Option Float}
    (hrate : ∀ x ∈ rate, Number.isNaN x = false) {r : Row Currency} (ho : r.odd = []) :
    ∃ cells, paramFields (adjustments name rate) = .ok cells ∧
      Ledger.assigned Relation.columns cells r = .ok ⟨r.id, adjusted name rate r.data, []⟩ := by
  have hreal (x : Float) (hx : Number.isNaN x = false) : param (.float x) = .ok (.real x) := by
    simp [param, Cell.ofValue, hx, Except.mapError]
  cases name with
  | none =>
    cases rate with
    | none =>
      cases r
      cases ho
      exact ⟨[], rfl, rfl⟩
    | some x =>
      refine ⟨[("rate_to_fixed", .real x)], ?_, ?_⟩
      · simp [adjustments, paramFields, hreal x (hrate x rfl), bind, Except.bind]
      · rw [assigned_single rfl]
        exact congrArg Except.ok (by simp [Row.put, Row.oddBut, ho, adjusted])
  | some n =>
    cases rate with
    | none =>
      refine ⟨[("name", .text n)], rfl, ?_⟩
      rw [assigned_single rfl]
      exact congrArg Except.ok (by simp [Row.put, Row.oddBut, ho, adjusted])
    | some x =>
      refine ⟨[("name", .text n), ("rate_to_fixed", .real x)], ?_, ?_⟩
      · have htext : param (.text n) = .ok (.text n) := rfl
        simp [adjustments, paramFields, htext, hreal x (hrate x rfl), bind, Except.bind]
      · show Except.ok ((r.put "name" { r.data with name := n }).put "rate_to_fixed"
          { r.data with name := n, rate := unsigned x }) = _
        simp [Row.put, Row.oddBut, ho, adjusted]

theorem readable_adjusted {name : Option String} {rate : Option Float} {r a : Row Currency}
    (ho : r.odd = []) (hd : reread r = .ok a) (hname : ∀ n ∈ name, Part.name (.text n) = .ok n)
    (hrate : ∀ x ∈ rate, IsPositive x) :
    ∃ b, reread (⟨r.id, adjusted name rate r.data, []⟩ : Row Currency) = .ok b := by
  obtain ⟨n, hn, hfinite, hpos, -⟩ := (reread_currency ho).1 hd
  have hread : ∃ m, Part.name (.text (adjusted name rate r.data).name) = .ok m := by
    cases name with
    | none => exact ⟨n, hn⟩
    | some m => exact ⟨m, hname m rfl⟩
  obtain ⟨m, hm⟩ := hread
  cases rate with
  | none => exact ⟨_, (reread_currency rfl).2 ⟨m, hm, hfinite, hpos, rfl⟩⟩
  | some x =>
    have hx := hrate x rfl
    have heq : (adjusted name (some x) r.data).rate = x := hx.unsigned_eq
    refine ⟨_, (reread_currency rfl).2 ⟨m, hm, ?_, ?_, rfl⟩⟩
    · rw [heq]
      exact hx.finite
    · rw [heq]
      exact hx.pos

theorem intact_adjusted {l : Ledger} (hi : Intact l) {r a : Row Currency} {name : Option String}
    {rate : Option Float} (hr : r ∈ l.currencies.rows) (hid : id.id? = some r.id)
    (hown : user.id? = some r.data.owner) (hd : reread r = .ok a)
    (hname : ∀ n ∈ name, Part.name (.text n) = .ok n) (hrate : ∀ x ∈ rate, IsPositive x)
    (hn : ∀ n ∈ name, ∀ x ∈ l.currencies.rows, user.id? = some x.data.owner → x.data.name = n →
      (Value.int x.id).same id = true) :
    Intact { l with currencies :=
      l.currencies.replace r.id ⟨r.id, adjusted name rate r.data, []⟩ } := by
  have hodd := hi.currencies.tidy.proper r hr
  refine (Step.reviseCurrency r (adjusted name rate r.data)
    ⟨hr, rfl, ?_, readable_adjusted hodd hd hname hrate⟩).intact hi
  intro x hx hxo hsame
  obtain ⟨hx, hne⟩ := List.mem_filter.1 hx
  have hxid : x.id = r.id := by
    cases name with
    | none => exact hi.currencies.distinct x hx r hr hxo hsame
    | some n =>
      have hsameId := hn n rfl x hx (by rw [hown]; exact congrArg some hxo.symm) hsame
      rwa [Value.same_of_id? (m := x.id) rfl hid, decide_eq_true_eq] at hsameId
  simp [hxid] at hne

/-- The change itself, once the name is known to be free if one is given. -/
theorem agrees_adjusted (h : s.Beside v s') (hin : s.inBlock = true) {name : Option String}
    {rate : Option Float} {r a : Row Currency} (hr : r ∈ s.database.ledger.currencies.rows)
    (hid : id.id? = some r.id) (hown : user.id? = some r.data.owner)
    (hsees : v.sees r.data.owner = true) (hd : reread r = .ok a)
    (hname : ∀ n ∈ name, Part.name (.text n) = .ok n) (hrate : ∀ x ∈ rate, IsPositive x)
    (hn : ∀ n ∈ name, ∀ x ∈ s.database.ledger.currencies.rows,
      user.id? = some x.data.owner → x.data.name = n → (Value.int x.id).same id = true)
    (hn' : ∀ n ∈ name, ∀ x ∈ s'.database.ledger.currencies.rows,
      user.id? = some x.data.owner → x.data.name = n → (Value.int x.id).same id = true) :
    Agrees v false (do
      let _ ← update Currency id (adjustments name rate)
      find Currency id) s s' := by
  by_cases hempty : adjustments name rate = []
  · rw [hempty]
    exact agrees_next (x := update Currency id []) rfl rfl (agrees_find h hin hr hsees hid hd)
  have hodd := h.intact.currencies.tidy.proper r hr
  obtain ⟨b, hb⟩ := readable_adjusted hodd hd hname hrate
  obtain ⟨cells, hcells, hassigned⟩ :=
    assign_adjustments name (fun x hx => Number.isNaN_of_isFinite (hrate x hx).finite) hodd
  refine agrees_update (a := adjusted name rate r.data) h hin hr hid hsees rfl hempty
    (by cases name <;> cases rate <;> rfl) hcells hassigned (fun l hi hrl hl => ?_) ?_
  · rcases hl with rfl | rfl
    · exact intact_adjusted hi hrl hid hown hd hname hrate hn
    · exact intact_adjusted hi hrl hid hown hd hname hrate hn'
  · intro t t' ht _ hmem hbeside
    exact agrees_find hbeside (by rw [ht]; exact hin) hmem hsees hid hb

theorem agrees_updateCurrency (h : s.Beside v s') (hu : v.Covers user) (hid : id.isId = true)
    (name rate : Value) : Agrees v false (updateCurrency user id name rate) s s' := by
  refine Agrees.logged (agrees_optionally h fun name hname => agrees_optionally h fun rate hrate => ?_)
  have hpart (n : String) (hn : n ∈ name) : Text.strip n = n ∧ Part.name (.text n) = .ok n :=
    Check.name_ok (hname n hn)
  have hpos (x : Float) (hx : x ∈ rate) : IsPositive x := Check.rate_ok (hrate x hx)
  refine (agrees_transaction h fun w w' hw hin _ _ => ?_).bind fun r _ _ _ _ hz => ?_
  · refine agrees_loaded hw hin hu hid fun r a hr hr' hrid hown hsees hd _ => ?_
    have hend := agrees_adjusted hw hin hr hrid hown hsees hd (fun n hn => (hpart n hn).2) hpos
    cases name with
    | none => exact hend (by simp) (by simp)
    | some n =>
      refine agrees_unique hw hin hu (hpart n rfl).1 fun hnew hnew' => hend ?_ ?_
      · rintro _ ⟨⟩
        exact hnew
      · rintro _ ⟨⟩
        exact hnew'
  · dsimp only
    split
    · exact agrees_announced hz r
    · exact agrees_pure hz r

/-! ## Removing rows -/

/-! ### References to a row -/

section

variable {l : Ledger} (hi : Intact l)

include hi

/-- Entries of a category belong to its owner. -/
theorem owner_of_categoryCell {r : Row Category} (hr : r ∈ l.categories.rows)
    {e : Row StoredEntry} (he : e ∈ l.entries.rows)
    (hp : (Cell.integer r.id).isInteger (StoredEntry.categoryCell e) = true) :
    e.data.owner = r.data.owner := by
  have hcategory : e.data.category = r.id := by
    simpa [StoredEntry.categoryCell, Row.cell_of_odd_nil e (hi.entries.proper e he)] using hp
  exact hi.category_owner he hr hcategory

/-- Entries of a source belong to its owner, whichever of their two sources it is. -/
theorem owner_of_sourceCells {r : Row Source} (hr : r ∈ l.sources.rows)
    {e : Row StoredEntry} (he : e ∈ l.entries.rows)
    (hp : (StoredEntry.sourceCells e).any (Cell.integer r.id).isInteger = true) :
    e.data.owner = r.data.owner := by
  have hsource : e.data.source = r.id ∨ e.data.secondary = some r.id := by
    simp only [StoredEntry.sourceCells, Row.cell_of_odd_nil e (hi.entries.proper e he),
      List.any_cons, List.any_nil, Bool.or_false, Bool.or_eq_true] at hp
    refine hp.imp (fun hp => by simpa using hp) fun hp => ?_
    cases hs : e.data.secondary with
    | none => simp [hs, Cell.ofInt?, Cell.isInteger, Cell.asInteger, Cell.same] at hp
    | some n => simpa [hs, Cell.ofInt?] using hp
  exact hi.source_owner he hr hsource

theorem owner_of_currencyCell {r : Row Currency} (hr : r ∈ l.currencies.rows)
    {e : Row StoredEntry} (he : e ∈ l.entries.rows)
    (hp : (Cell.integer r.id).isInteger (StoredEntry.currencyCell e) = true) :
    e.data.owner = r.data.owner := by
  have hcurrency : e.data.currency = r.id := by
    simpa [StoredEntry.currencyCell, Row.cell_of_odd_nil e (hi.entries.proper e he)] using hp
  exact hi.currency_owner he hr hcurrency

/-- Sources in a currency belong to its owner. -/
theorem owner_of_sourceCurrencyCell {r : Row Currency} (hr : r ∈ l.currencies.rows)
    {x : Row Source} (hx : x ∈ l.sources.rows)
    (hp : (Cell.integer r.id).isInteger (Source.currencyCell x) = true) :
    x.data.owner = r.data.owner := by
  have hcurrency : x.data.currency = r.id := by
    simpa [Source.currencyCell, Row.cell_of_odd_nil x (hi.sources.tidy.proper x hx)] using hp
  exact hi.funded_owner hr hx hcurrency

end

/-- The rows that refer to a category are its owner's, so both databases have the same number. -/
theorem consults_categoryReferences (h : s.Beside v s') {r : Row Category}
    (hr : r ∈ s.database.ledger.categories.rows) (hid : id.id? = some r.id)
    (hsees : v.sees r.data.owner = true) : Consults v (categoryReferences id) s s' := by
  have hview {l : Ledger} (hi : Intact l) (hr : r ∈ l.categories.rows) : ∀ e ∈ l.entries.rows,
      (Cell.integer r.id).isInteger (StoredEntry.categoryCell e) = true → v.sees e.data.owner = true :=
    fun e he hp => by rwa [owner_of_categoryCell hi hr he hp]
  refine consults_select h _ ?_
  simp only [param_of_id hid (h.intact.categories.tidy.fits r hr), bind, Except.bind]
  rw [h.alike.entries.same.count (hview h.intact hr)
    (hview h.intact' (h.mem (ρ := Category) hr hsees))]

theorem consults_sourceReferences (h : s.Beside v s') {r : Row Source}
    (hr : r ∈ s.database.ledger.sources.rows) (hid : id.id? = some r.id)
    (hsees : v.sees r.data.owner = true) : Consults v (sourceReferences id) s s' := by
  have hview {l : Ledger} (hi : Intact l) (hr : r ∈ l.sources.rows) : ∀ e ∈ l.entries.rows,
      (StoredEntry.sourceCells e).any (Cell.integer r.id).isInteger = true → v.sees e.data.owner = true :=
    fun e he hp => by rwa [owner_of_sourceCells hi hr he hp]
  refine consults_select h _ ?_
  simp only [param_of_id hid (h.intact.sources.tidy.fits r hr), bind, Except.bind]
  rw [h.alike.entries.same.count (hview h.intact hr)
    (hview h.intact' (h.mem (ρ := Source) hr hsees))]

theorem consults_currencyReferences (h : s.Beside v s') {r : Row Currency}
    (hr : r ∈ s.database.ledger.currencies.rows) (hid : id.id? = some r.id)
    (hsees : v.sees r.data.owner = true) : Consults v (currencyReferences id) s s' := by
  have hr' := h.mem (ρ := Currency) hr hsees
  have hsources {l : Ledger} (hi : Intact l) (hr : r ∈ l.currencies.rows) : ∀ x ∈ l.sources.rows,
      (Cell.integer r.id).isInteger (Source.currencyCell x) = true → v.sees x.data.owner = true :=
    fun x hx hp => by rwa [owner_of_sourceCurrencyCell hi hr hx hp]
  have hentries {l : Ledger} (hi : Intact l) (hr : r ∈ l.currencies.rows) : ∀ e ∈ l.entries.rows,
      (Cell.integer r.id).isInteger (StoredEntry.currencyCell e) = true →
        v.sees e.data.owner = true :=
    fun e he hp => by rwa [owner_of_currencyCell hi hr he hp]
  refine consults_select h _ ?_
  simp only [param_of_id hid (h.intact.currencies.tidy.fits r hr), bind, Except.bind]
  rw [h.alike.sources.same.count (hsources h.intact hr) (hsources h.intact' hr'),
    h.alike.entries.same.count (hentries h.intact hr) (hentries h.intact' hr')]

/-! ### What nothing refers to -/

theorem intact_withoutCategory {l : Ledger} (hi : Intact l) {n : Int} (hid : id.id? = some n)
    (hfree : ∀ e ∈ l.entries.rows, id.id? ≠ some e.data.category) :
    Intact { l with categories := l.categories.erase fun x => x.id == n } := by
  refine (Step.dropCategory _ fun x _ hp e he hcategory => hfree e he ?_).intact hi
  rw [hcategory, beq_iff_eq.1 hp, hid]

theorem intact_withoutSource {l : Ledger} (hi : Intact l) {n : Int} (hid : id.id? = some n)
    (hfree : ∀ e ∈ l.entries.rows,
      id.id? ≠ some e.data.source ∧ ∀ n ∈ e.data.secondary, id.id? ≠ some n) :
    Intact { l with sources := l.sources.erase fun x => x.id == n } := by
  refine (Step.dropSource _ fun x _ hp e he => ⟨fun hsource => ?_, fun hsecond => ?_⟩).intact hi
  · exact (hfree e he).1 (by rw [hsource, beq_iff_eq.1 hp, hid])
  · exact (hfree e he).2 x.id hsecond (by rw [beq_iff_eq.1 hp, hid])

/-- Nobody reports in a currency any more once its users are released. -/
theorem intact_withoutCurrency {l : Ledger} (hi : Intact l) {n : Int} (hid : id.id? = some n)
    (hheld : ∀ x ∈ l.sources.rows, id.id? ≠ some x.data.currency)
    (hused : ∀ e ∈ l.entries.rows, id.id? ≠ some e.data.currency) :
    Intact { l.freed n with currencies := l.currencies.erase fun x => x.id == n } := by
  refine (Step.dropCurrency (l := l.freed n) _ (fun x _ hp u hu hfix => ?_)
    (fun x _ hp y hy hcurrency => hheld y hy ?_)
    fun x _ hp e he hcurrency => hused e he ?_).intact (hi.freed n)
  · obtain ⟨o, ho, rfl⟩ := Table.mem_change.1 hu
    split at hfix
    · cases hfix
    · rename_i hother
      exact hother (by rw [hfix, beq_iff_eq.1 hp, beq_self_eq_true])
  · rw [hcurrency, beq_iff_eq.1 hp, hid]
  · rw [hcurrency, beq_iff_eq.1 hp, hid]

/-! ### The calls -/

/-- A row that no table counts a reference to is removed. -/
theorem agrees_remove {ρ : Type} [Catalog ρ] [Governed ρ] (h : s.Beside v s')
    (hu : v.Covers user) (hid : id.isId = true)
    (husage : ∀ w w' (r : Row ρ), w.Beside v w' →
      r ∈ (Relation.table (ρ := ρ) w.database.ledger).rows → id.id? = some r.id →
      v.sees (Owned.owner r.data) = true → Consults v (Catalog.usage ρ id) w w')
    (hclear : ∀ w w' z z' (r : Row ρ) counts (f : Bool → Op Unit), w.Beside v w' →
      w.inBlock = true → r ∈ (Relation.table (ρ := ρ) w.database.ledger).rows →
      id.id? = some r.id → v.sees (Owned.owner r.data) = true →
      (Catalog.usage ρ id).exec w = (.ok counts, z) →
      (Catalog.usage ρ id).exec w' = (.ok counts, z') → (∀ c ∈ counts, c.2 = 0) →
      (∀ t t', t.Beside v t' → Agrees v true (f true) t t') →
      Agrees v false (do
        Catalog.beforeDelete ρ id
        let found ← delete ρ id
        f found) z z') : Agrees v false (remove ρ user id) s s' := by
  refine (agrees_transaction h fun w w' hw hin _ _ => ?_).logged
  refine agrees_loaded hw hin hu hid fun r a hr hr' hrid hown hsees hd _ => ?_
  refine (husage w w' r hw hr hrid hsees).before fun counts z z' run run' hz _ _ => ?_
  dsimp only
  split
  · exact ((consults_fail hz _).bind fun _ _ _ hrun => by cases hrun).agrees
  · rename_i hzero
    refine hclear w w' z z' r counts _ hw hin hr hrid hsees run run' (by simpa using hzero) ?_
    exact fun t t' ht => agrees_event ht

theorem agrees_removeCategory (h : s.Beside v s') (hu : v.Covers user) (hid : id.isId = true) :
    Agrees v false (remove Category user id) s s' := by
  refine agrees_remove h hu hid
    (fun w w' r hw hr hrid hsees => consults_categoryReferences hw hr hrid hsees) ?_
  intro w w' z z' r counts f hw hin hr hrid hsees run run' hzero hf
  obtain ⟨rfl, hunused⟩ :=
    unused_of_categoryReferences (hw.ready hin) hw.intact hid hzero run
  obtain ⟨rfl, hunused'⟩ :=
    unused_of_categoryReferences (hw.ready' hin) hw.intact' hid hzero run'
  refine agrees_next (x := Catalog.beforeDelete Category id) rfl rfl ?_
  exact (writes_delete hw hin hr hrid hsees (intact_withoutCategory hw.intact hrid hunused)
    (intact_withoutCategory hw.intact' hrid hunused')).before hw fun ht => hf _ _ ht

theorem agrees_removeSource (h : s.Beside v s') (hu : v.Covers user) (hid : id.isId = true) :
    Agrees v false (remove Source user id) s s' := by
  refine agrees_remove h hu hid
    (fun w w' r hw hr hrid hsees => consults_sourceReferences hw hr hrid hsees) ?_
  intro w w' z z' r counts f hw hin hr hrid hsees run run' hzero hf
  obtain ⟨rfl, hunused⟩ := unused_of_sourceReferences (hw.ready hin) hw.intact hid hzero run
  obtain ⟨rfl, hunused'⟩ := unused_of_sourceReferences (hw.ready' hin) hw.intact' hid hzero run'
  refine agrees_next (x := Catalog.beforeDelete Source id) rfl rfl ?_
  exact (writes_delete hw hin hr hrid hsees (intact_withoutSource hw.intact hrid hunused)
    (intact_withoutSource hw.intact' hrid hunused')).before hw fun ht => hf _ _ ht

/-- Users who report in the currency are released first, and after that nothing refers to it. -/
theorem agrees_removeCurrency (h : s.Beside v s') (hu : v.Covers user) (hid : id.isId = true) :
    Agrees v false (remove Currency user id) s s' := by
  refine agrees_remove h hu hid
    (fun w w' r hw hr hrid hsees => consults_currencyReferences hw hr hrid hsees) ?_
  intro w w' z z' r counts f hw hin hr hrid hsees run run' hzero hf
  obtain ⟨rfl, hheld, hused⟩ :=
    unused_of_currencyReferences (hw.ready hin) hw.intact hid hzero run
  obtain ⟨rfl, hheld', hused'⟩ :=
    unused_of_currencyReferences (hw.ready' hin) hw.intact' hid hzero run'
  show Agrees v false (releaseCurrency id >>= fun _ => delete Currency id >>= f) _ _
  unfold releaseCurrency
  rw [bind_assoc]
  refine (writes_clearFixedCurrency hw hin hr hrid hsees).before hw fun hbeside => ?_
  -- whether the release is logged or not, the currency is removed from the ledgers it left
  have hend {t t' : Session} (ht : t.Beside v t') (hint : t.inBlock = true)
      (hl : t.database.ledger = z.database.ledger.freed r.id)
      (hl' : t'.database.ledger = z'.database.ledger.freed r.id) :
      Agrees v true (delete Currency id >>= f) t t' := by
    refine (writes_delete (ρ := Currency) ht hint (r := r) ?_ hrid hsees ?_ ?_).before ht
      fun hy => hf _ _ hy
    · rw [hl]
      exact hr
    · rw [hl]
      exact intact_withoutCurrency hw.intact hrid hheld hused
    · rw [hl']
      exact intact_withoutCurrency hw.intact' hrid hheld' hused'
  split
  · exact agrees_emit hbeside fun t t' ht hstill hstill' => hend ht (hstill.inBlock hin)
      (by rw [hstill.database]; rfl) (by rw [hstill'.database]; rfl)
  · exact agrees_next (x := pure ()) rfl rfl (hend hbeside hin rfl rfl)

end Bookkeeping.Service
