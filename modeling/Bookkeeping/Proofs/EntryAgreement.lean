import Bookkeeping.Proofs.UserAgreement

/-! # Calls on entries side by side

An entry is recorded with rows of its user, and shifts balances of its user only. A shift that would
overflow fails after something was written; every other failure comes before that.
-/

namespace Bookkeeping.Store

open Number

variable {v : Scope} {s s' : Session} {α : Type} {sure : Bool}

/-! ## Shifting a balance -/

/-- A shift that its source cannot bear is taken by no source. -/
theorem takes_eq_false {t : Table Source} (ht : t.Tidy) {x : Shift} {r : Row Source}
    (hr : r ∈ t.rows) (hsource : x.source = some r.id)
    (hfull : isFinite (r.data.amount + x.delta) = false) : ∀ y ∈ t.rows, takes x y = false := by
  intro y hy
  by_cases hyr : y.id = r.id
  · rw [ht.eq_of_id hy hr hyr, takes, hfull, Bool.and_false]
  · have hne : (x.source == some y.id) = false := by
      rw [hsource, beq_eq_false_iff_ne]
      exact fun hid => hyr (Option.some.inj hid).symm
    rw [takes, hne, Bool.false_and]

/-- A shift that would not leave a finite balance is rejected, and nothing is changed. -/
theorem exec_applyDelta_overflow (h : s.Ready) (hi : Intact s.database.ledger) {x : Shift}
    {r : Row Source} (hr : r ∈ s.database.ledger.sources.rows) (hsource : x.source = some r.id)
    (hfull : isFinite (r.data.amount + x.delta) = false) :
    (applyDelta (Value.ofInt? x.source) (.float x.delta)).exec s
      = (.error (.rejected (.overflow (Value.ofInt? x.source) (.float x.delta))), s) := by
  have ht := hi.sources.tidy
  have hnone := takes_eq_false ht hr hsource hfull
  have hrow := exec_shiftRow h ht hr hsource
  rw [Table.change_of_none hnone, Table.count_eq_zero.2 hnone] at hrow
  -- the statement changes no row, and then the source is looked up and found
  obtain ⟨a, ha⟩ := hi.sources.readable r hr
  have hfind : (find Source (Value.ofInt? x.source)).exec (s.put s.database.ledger)
      = (.ok (some a), s) := by
    rw [exec_find (ρ := Source) (h.put _) hi hr (by rw [id?_ofInt?, hsource]), ha]
    rfl
  rw [applyDelta, Op.exec_bind, exec_burnFuse h]
  simp only [Op.exec_bind, hrow]
  rw [if_neg (Nat.lt_irrefl 0), Op.exec_bind, hfind]
  rfl

/-- A balance in view is shifted in both databases if the shift is borne. -/
theorem writes_applyDelta {x : Shift} {r : Row Source} (h : s.Beside v s')
    (hin : s.inBlock = true) (hr : r ∈ s.database.ledger.sources.rows)
    (hsource : x.source = some r.id) (hsees : v.sees r.data.owner = true)
    (hfinite : isFinite (r.data.amount + x.delta) = true) :
    Writes v (applyDelta (Value.ofInt? x.source) (.float x.delta)) true s s'
      (s.database.ledger.shift x) (s'.database.ledger.shift x) := by
  have hr' := h.mem (ρ := Source) hr hsees
  have hbears {l : Ledger} (hi : Intact l) (hr : r ∈ l.sources.rows) : ∀ y ∈ l.sources.rows,
      x.source = some y.id → isFinite (y.data.amount + x.delta) = true := fun y hy hid => by
    rw [hi.sources.tidy.eq_of_id hy hr (Option.some.inj (hid.symm.trans hsource))]
    exact hfinite
  refine
    { run := exec_applyDelta (h.ready hin) h.intact.sources.tidy hr hsource hfinite
      run' := exec_applyDelta (h.ready' hin) h.intact'.sources.tidy hr' hsource hfinite
      intact := h.intact.shift (hbears h.intact hr)
      intact' := h.intact'.shift (hbears h.intact' hr')
      alike := { h.alike with sources := h.alike.sources.change (fun _ _ _ => rfl) fun _ _ _ => rfl }
      same := same_withTable (ρ := Source) (Table.same_change fun y hy hid => ?_) }
  have hyr : y.id = r.id := by
    rw [hsource] at hid
    exact (Option.some.inj (beq_iff_eq.1 hid)).symm
  have hys : v.sees y.data.owner = true := by
    rw [h.intact.sources.tidy.eq_of_id hy hr hyr]
    exact hsees
  exact ⟨by simp [Held.holder, Owned.owner, hys],
    by simp [Held.holder, Owned.owner, shiftedBy, hys]⟩

/-- A balance in view is shifted in both databases, or overflows in both. -/
theorem agrees_applyDelta {x : Shift} {r : Row Source} {f : Bool → Op α} (h : s.Beside v s')
    (hin : s.inBlock = true) (hr : r ∈ s.database.ledger.sources.rows)
    (hsource : x.source = some r.id) (hsees : v.sees r.data.owner = true)
    (hlate : sure = true →
      v.late (.rejected (.overflow (Value.ofInt? x.source) (.float x.delta))))
    (hf : (s.put (s.database.ledger.shift x)).Beside v (s'.put (s'.database.ledger.shift x)) →
      Agrees v true (f true) (s.put (s.database.ledger.shift x))
        (s'.put (s'.database.ledger.shift x))) :
    Agrees v sure (applyDelta (Value.ofInt? x.source) (.float x.delta) >>= f) s s' := by
  cases hfinite : isFinite (r.data.amount + x.delta) with
  | true => exact (writes_applyDelta h hin hr hsource hsees hfinite).before h hf
  | false =>
    have run := exec_applyDelta_overflow (h.ready hin) h.intact hr hsource hfinite
    have run' := exec_applyDelta_overflow (h.ready' hin) h.intact' (h.mem (ρ := Source) hr hsees)
      hsource hfinite
    refine .error (Op.exec_bind_error run) (Op.exec_bind_error run') h.toPaired
      (Session.Follows.refl s).fallen (Session.Follows.refl s').fallen fun _ => ⟨h, ?_⟩
    cases sure with
    | true => exact .inl (hlate rfl)
    | false => exact .inr ⟨rfl, rfl, rfl⟩

/-! ## Storing and marking an entry -/

theorem Intact.insertEntry {l : Ledger} {e : StoredEntry} (h : Intact l)
    (room : l.entries.isFull = false) (hf : Filed l ⟨l.entries.nextId, e, []⟩) :
    Intact { l with entries := l.entries.insert e } := by
  refine h.withEntries (h.entries.insert room e) fun x hx => ?_
  rcases Table.mem_insert.1 hx with hx | rfl
  · exact h.filed x hx
  · exact hf

theorem Intact.markEntry {l : Ledger} (h : Intact l) {r : Row StoredEntry}
    (hr : r ∈ l.entries.rows) (archived : Bool) :
    Intact { l with entries := l.entries.replace r.id (markedAs archived r) } := by
  refine h.withEntries (h.entries.replace (r := markedAs archived r) rfl) fun x hx => ?_
  rcases Table.mem_replace.1 hx with ⟨rfl, -⟩ | ⟨hx, -⟩
  · exact (h.filed r hr).markedAs (h.entries.proper r hr) archived
  · exact h.filed x hx

end Bookkeeping.Store

namespace Bookkeeping.Service

open Store Number

variable {v : Scope} {s s' : Session} {α : Type} {sure : Bool}

/-- The shifts of balances in view are applied in both databases, one by one. All but the first one
come after something was written. -/
theorem agrees_applyShifts {direction : Int} {shifts : List Shift} {f : Unit → Op α}
    (h : s.Beside v s') (hin : s.inBlock = true)
    (hsources : ∀ x ∈ shifts, ∃ r ∈ s.database.ledger.sources.rows, x.source = some r.id ∧
      v.sees r.data.owner = true)
    (hlate : ∀ x ∈ if sure then shifts else shifts.tail, ∀ delta,
      v.late (.rejected (.overflow (Value.ofInt? x.source) delta)))
    (hf : ∀ t t', t.database.ledger.entries = s.database.ledger.entries →
      t.inBlock = true → t.Beside v t' → Agrees v true (f ()) t t') :
    Agrees v sure (applyShifts direction shifts >>= f) s s' := by
  induction shifts generalizing s s' sure with
  | nil => exact (hf s s' rfl hin h).late
  | cons x rest ih =>
    obtain ⟨r, hr, hid, hsees⟩ := hsources x List.mem_cons_self
    rw [applyShifts, bind_assoc]
    -- once the first shift is applied, those after it can only fail late
    refine agrees_applyDelta (x := x.directed direction) h hin hr hid hsees (fun hsure => ?_)
      fun ht => ?_
    · rw [hsure] at hlate
      exact hlate x List.mem_cons_self _
    refine ih ht hin (fun y hy => ?_) (fun y hy => hlate y ?_) fun t t' hentries hint hbeside =>
      hf t t' hentries hint hbeside
    · -- a shift keeps sources and their owners
      obtain ⟨o, ho, hoid, hosees⟩ := hsources y (List.mem_cons_of_mem x hy)
      refine ⟨_, Table.mem_change.2 ⟨o, ho, rfl⟩, ?_⟩
      split <;> exact ⟨hoid, hosees⟩
    · cases sure with
      | true => exact List.mem_cons_of_mem x hy
      | false => exact hy

/-! ## The life of an entry -/

/-- The shifts of an entry are found. -/
theorem exec_shiftsOf (h : s.Ready) (hi : Intact s.database.ledger) {r : Row StoredEntry}
    {a : Row Entry} (hf : Filed s.database.ledger r) (ho : r.odd = [])
    (hd : StoredEntry.toEntry .full r = .ok a) :
    ∃ shifts, s.database.ledger.effects r = .ok shifts ∧
      (shiftsOf a.data).exec s = (.ok shifts, s) := by
  obtain ⟨shifts, hshifts⟩ := hf.effects
  refine ⟨shifts, hshifts, ?_⟩
  rw [effects_of_toEntry hd] at hshifts
  obtain ⟨x, hx, hxid, -⟩ := hf.source
  have hsource : a.data.source = x.id := by
    obtain ⟨date, createdAt, -, -, -, -, -, rfl⟩ := (StoredEntry.toEntry_ok ho).1 hd
    exact hxid.symm
  obtain ⟨b, hb⟩ := hi.sources.readable x hx
  have hcurrency := (currency_of_readSource (hi.sources.tidy.proper x hx) hb).2
  rw [hsource, find?_of_mem hi.sources.tidy hx, shifts_congr (q := some b.data) a.data
    (by simp [hcurrency])] at hshifts
  rw [shiftsOf, Op.exec_bind, exec_find (ρ := Source) h hi hx (by rw [hsource]; rfl), hb]
  show (shiftsWith a.data (some b.data)).exec s = _
  rw [shiftsWith, Op.exec_lift, hshifts]

/-- An entry shifts sources of its user only. -/
theorem shifted_owner {l : Ledger} {r : Row StoredEntry} {shifts : List Shift} (hf : Filed l r)
    (ho : r.odd = []) (he : l.effects r = .ok shifts) : ∀ y ∈ shifts,
      ∃ x ∈ l.sources.rows, y.source = some x.id ∧ x.data.owner = r.data.owner := by
  obtain ⟨a, ha⟩ := hf.readable
  rw [effects_of_toEntry ha] at he
  obtain ⟨date, createdAt, -, -, -, -, -, rfl⟩ := (StoredEntry.toEntry_ok ho).1 ha
  obtain ⟨x, hx, hxid, hxo⟩ := hf.source
  intro y hy
  rcases shifts_cases he with ⟨d, rfl⟩ | ⟨hk, d, d', rfl⟩
  · obtain rfl := List.mem_singleton.1 hy
    exact ⟨x, hx, congrArg some hxid.symm, hxo⟩
  · rcases List.mem_pair.1 hy with rfl | rfl
    · exact ⟨x, hx, congrArg some hxid.symm, hxo⟩
    · obtain ⟨n, hn, -⟩ := hf.apart hk
      obtain ⟨z, hz, hzid, hzo⟩ := hf.secondary n hn
      exact ⟨z, hz, hn.trans (congrArg some hzid.symm), hzo⟩

/-- The source of an entry in view is held in the same currency in both databases. -/
theorem effects_eq (h : s.Beside v s') {r : Row StoredEntry} (hf : Filed s.database.ledger r)
    (ho : r.odd = []) (hsees : v.sees r.data.owner = true) :
    s'.database.ledger.effects r = s.database.ledger.effects r := by
  obtain ⟨x, hx, hxid, hxo⟩ := hf.source
  have hxs : v.sees x.data.owner = true := (congrArg v.sees hxo).trans hsees
  refine Ledger.effects_congr ho ?_
  rw [← hxid, currencyOf_of_mem h.intact.sources.tidy hx,
    currencyOf_of_mem h.intact'.sources.tidy (h.mem (ρ := Source) hx hxs)]

/-- The shifts of an entry in view are found in both databases, and then they are applied. -/
theorem agrees_shiftsOf {direction : Int} {r : Row StoredEntry} {a : Row Entry} {f : Unit → Op α}
    (h : s.Beside v s') (hin : s.inBlock = true) (hf : Filed s.database.ledger r)
    (hf' : Filed s'.database.ledger r) (ho : r.odd = [])
    (hd : StoredEntry.toEntry .full r = .ok a) (hsees : v.sees r.data.owner = true)
    (hlate : ∀ shifts, s.database.ledger.effects r = .ok shifts →
      ∀ x ∈ if sure then shifts else shifts.tail, ∀ delta,
        v.late (.rejected (.overflow (Value.ofInt? x.source) delta)))
    (hnext : ∀ t t', t.database.ledger.entries = s.database.ledger.entries →
      t.inBlock = true → t.Beside v t' → Agrees v true (f ()) t t') :
    Agrees v sure (do
      let shifts ← shiftsOf a.data
      applyShifts direction shifts
      f ()) s s' := by
  obtain ⟨shifts, he, run⟩ := exec_shiftsOf (h.ready hin) h.intact hf ho hd
  obtain ⟨shifts', he', run'⟩ := exec_shiftsOf (h.ready' hin) h.intact' hf' ho hd
  obtain rfl : shifts = shifts' := by
    rw [effects_eq h hf ho hsees, he] at he'
    exact Except.ok.inj he'
  refine agrees_next run run' (agrees_applyShifts h hin (fun y hy => ?_) (hlate shifts he) hnext)
  obtain ⟨x, hx, hid, hown⟩ := shifted_owner hf ho he y hy
  exact ⟨x, hx, hid, hown ▸ hsees⟩

variable {user id : Value}

theorem assign_marked (archived : Bool) {r : Row StoredEntry} (ho : r.odd = []) :
    Ledger.assigned Relation.columns [("archived", Cell.ofBool archived)] r
      = .ok (markedAs archived r) := by
  rw [assigned_single rfl]
  cases archived <;>
    exact congrArg Except.ok (by simp [markedAs, Row.put, Row.oddBut, ho, Column.flag])

theorem agrees_markEntry (h : s.Beside v s') (hu : v.Covers user) (hid : id.isId = true)
    (hlate : ∀ source delta, v.late (.rejected (.overflow source delta))) (archived : Bool) :
    Agrees v false (markEntry archived user id) s s' := by
  refine agrees_transaction h fun w w' hw hin _ _ => ?_
  refine agrees_loaded (ρ := StoredEntry) hw hin hu hid fun r a hr hr' hrid hown hsees hd _ => ?_
  have ho := hw.intact.entries.proper r hr
  split
  · exact agrees_pure hw _
  · unfold setArchived
    rw [bind_assoc]
    refine agrees_next (x := Op.lift (whole (.bool archived))) rfl rfl ?_
    refine agrees_update (ρ := StoredEntry) (a := (markedAs archived r).data) hw hin hr hrid hsees
      rfl (by simp) rfl (paramFields_archived archived) (assign_marked archived ho)
      (fun l hi hrl _ => hi.markEntry hrl archived) ?_
    rintro t t' rfl rfl hmem ht
    have hf {l : Ledger} {entries : Table StoredEntry} (hi : Intact l) (hr : r ∈ l.entries.rows) :
        Filed { l with entries } r := { hi.filed r hr with }
    refine agrees_shiftsOf (f := fun _ => do pure (a, some (← find StoredEntry id))) ht hin
      (hf hw.intact hr) (hf hw.intact' hr') ho hd hsees (fun _ _ _ _ => hlate _)
      fun z z' hentries hinz hz => ?_
    obtain ⟨b, hb⟩ := ((hw.intact.filed r hr).markedAs ho archived).readable
    have hmem : markedAs archived r ∈ z.database.ledger.entries.rows := hentries ▸ hmem
    exact agrees_found (ρ := StoredEntry) hz hinz hmem hsees hrid hb (agrees_pure hz _)

theorem agrees_marked (h : s.Beside v s') (hu : v.Covers user) (hid : id.isId = true)
    (hlate : ∀ source delta, v.late (.rejected (.overflow source delta))) (archived : Bool)
    (operation event : String) :
    Agrees v false (logged operation (do
      match ← markEntry archived user id with
      | (e, none) => pure (some e)
      | (_, some after) =>
        emit .info .entries event [("user_id", user), ("entry_id", id)]
        pure after)) s s' := by
  refine Agrees.logged ((agrees_markEntry h hu hid hlate archived).bind fun out _ _ _ _ ht => ?_)
  obtain ⟨e, after⟩ := out
  cases after with
  | none => exact agrees_pure ht _
  | some after => exact agrees_announced ht after

/-- Of two shifts that undo a conversion the second one comes after something was written. -/
theorem agrees_deleteEntry (h : s.Beside v s') (hu : v.Covers user) (hid : id.isId = true)
    (hlate : ∀ r ∈ s.database.ledger.entries.rows, id.id? = some r.id →
      r.data.kind.isTransfer = true → ∀ delta,
        v.late (.rejected (.overflow (Value.ofInt? r.data.secondary) delta))) :
    Agrees v false (deleteEntry user id) s s' := by
  refine Agrees.logged ((agrees_transaction h fun w w' hw hin hdb _ => ?_).bind
    fun _ _ _ _ _ hz => agrees_event hz)
  refine agrees_loaded (ρ := StoredEntry) hw hin hu hid fun r a hr hr' hrid hown hsees hd _ => ?_
  have ho := hw.intact.entries.proper r hr
  have hdrop {t t' : Session} (ht : t.Beside v t') (hint : t.inBlock = true)
      (hmem : r ∈ t.database.ledger.entries.rows) :
      Agrees v true (do let _ ← delete StoredEntry id) t t' :=
    (writes_delete (ρ := StoredEntry) ht hint hmem hrid hsees (intact_eraseEntries ht.intact _)
      (intact_eraseEntries ht.intact' _)).before ht fun hz => agrees_pure hz ()
  dsimp only
  split
  · refine agrees_shiftsOf (f := fun _ => do let _ ← delete StoredEntry id) hw hin
      (hw.intact.filed r hr) (hw.intact'.filed r hr') ho hd hsees (fun shifts he x hx delta => ?_)
      fun t t' hentries hint ht => hdrop ht hint (hentries ▸ hr)
    rw [effects_of_toEntry hd] at he
    obtain ⟨date, createdAt, -, -, -, -, -, rfl⟩ := (StoredEntry.toEntry_ok ho).1 hd
    -- of one shift nothing comes late, of two the second one
    rcases shifts_cases he with ⟨d, rfl⟩ | ⟨hk, d, d', rfl⟩
    · cases hx
    · obtain rfl := List.mem_singleton.1 hx
      exact hlate r (hdb ▸ hr) hrid hk delta
  · exact (hdrop hw hin hr).late

/-! ## Recording an entry -/

/-- An active row that a user may refer to is the same in both databases. -/
theorem agrees_offered {ρ : Type} [NamedRecord ρ] [LawfulNamed ρ] [Governed ρ] {field : String}
    {f : Row ρ → Op α} (h : s.Beside v s') (hin : s.inBlock = true) (hu : v.Covers user)
    (hid : id.isId = true)
    (hf : ∀ r a, (Relation.table (ρ := ρ) s.database.ledger).Offers user id r →
      (Relation.table (ρ := ρ) s'.database.ledger).Offers user id r →
      v.sees (Owned.owner r.data) = true → Persistent.decode .full r = .ok a →
      Agrees v false (f a) s s') :
    Agrees v false (loadOwned ρ user id field true >>= f) s s' := by
  refine agrees_loaded (ρ := ρ) h hin hu hid fun r a hr hr' hrid hown hsees hd hactive => ?_
  have hactive : Owned.archived r.data = false := by
    rw [← (LawfulNamed.read_eq r a ((Governed.tidy h.intact).proper r hr) hd).2]
    exact hactive rfl
  exact hf r a ⟨hr, hrid, hown, hactive⟩ ⟨hr', hrid, hown, hactive⟩ hsees hd

theorem fits_filed {l : Ledger} {id : Int} {e : Entry} {now : String} (hi : Intact l)
    (hf : Filed l ⟨id, .ofEntry now e, []⟩) (now' : String) :
    (Relation.references (StoredEntry.ofEntry now' e)).all fitsInteger = true :=
  hf.fits hi

/-- An entry that is filed may be stored at any time. -/
theorem insertable_filed {l : Ledger} {id : Int} {e : Entry} {now : String} (hi : Intact l)
    (hf : Filed l ⟨id, .ofEntry now e, []⟩) (room : l.entries.isFull = false) (enforce : Bool)
    (now' : String) : Insertable enforce l (StoredEntry.ofEntry now' e) where
  references := fits_filed hi hf now'
  room := room
  fresh _ _ := rfl
  resolves _ := hf.resolves

/-- The row of an entry that can be read is filed, and has the shifts that are found for it. -/
theorem Placed.filed_of_toEntry {l : Ledger} {r : EntryRequest} {c : Checked}
    {category : Row Category} {currency : Row Currency} {source : Row Source} {fixed : Float}
    {text : String} {party : Option String} {n : Int} {now : String} {a : Row Entry}
    (hp : Placed l user r c category currency source) (hc : InOrder r c) (hi : Intact l)
    (ha : StoredEntry.toEntry .full ⟨n, .ofEntry now (entryOf category.data.owner r c category.id
      currency.id source.id fixed text party), []⟩ = .ok a) :
    ∃ shifts, (a.data.shifts (some source.data)).mapError Failure.misuse = .ok shifts ∧
      l.effects ⟨n, .ofEntry now (entryOf category.data.owner r c category.id currency.id source.id
        fixed text party), []⟩ = .ok shifts ∧
      Filed l ⟨n, .ofEntry now (entryOf category.data.owner r c category.id currency.id source.id
        fixed text party), []⟩ := by
  have heffects := hp.effects hi rfl rfl ha
  obtain ⟨shifts, hs⟩ : ∃ shifts, (a.data.shifts (some source.data)).mapError Failure.misuse
      = .ok shifts := by
    obtain ⟨date, createdAt, -, -, -, -, -, rfl⟩ := (StoredEntry.toEntry_ok rfl).1 ha
    exact hp.shifts hc rfl rfl Option.isSome_map
  exact ⟨shifts, hs, heffects.trans hs, hp.filed hc hi ⟨shifts, heffects.trans hs⟩⟩

/-- An entry for rows of a user in view is stored in both databases, with the same shifts. -/
theorem agrees_insertEntry {r : EntryRequest} {c : Checked} {category : Row Category}
    {currency : Row Currency} {source : Row Source} {fixed : Float} {text : String}
    {party : Option String} {f : Row Entry → Op α} (h : s.Beside v s')
    (hin : s.inBlock = true) (hc : InOrder r c)
    (hplaced : Placed s.database.ledger user r c category currency source)
    (hplaced' : Placed s'.database.ledger user r c category currency source)
    (hsees : v.sees category.data.owner = true) (hamount : isFinite c.amount = true)
    (hrate : ∀ x ∈ c.rate, isFinite x = true) (hfixed : isFinite fixed = true)
    (hroom : v.late (.operational noRoom))
    (hf : ∀ a shifts t t', (a.data.shifts (some source.data)).mapError Failure.misuse = .ok shifts →
      (∀ y ∈ shifts, ∃ x ∈ t.database.ledger.sources.rows, y.source = some x.id ∧
        v.sees x.data.owner = true) →
      t.inBlock = true → t.Beside v t' → Agrees v true (f a) t t') :
    Agrees v false (Store.insert StoredEntry (entryOf category.data.owner r c category.id currency.id
      source.id fixed text party) >>= f) s s' := by
  let e : Entry :=
    entryOf category.data.owner r c category.id currency.id source.id fixed text party
  -- whether a row may be stored does not depend on the time, so a proper one will do
  have hread := readable_newEntry (e := e) ⟨c.date, rfl⟩ hamount hrate hfixed
  obtain ⟨a₀, ha₀⟩ := hread s.database.ledger.entries.nextId
  obtain ⟨-, -, -, hf₀⟩ := hplaced.filed_of_toEntry hc h.intact ha₀
  obtain ⟨-, -, -, hf₀'⟩ := hplaced'.filed_of_toEntry hc h.intact' ha₀
  have hfits := fits_filed h.intact hf₀ s.now
  cases hd : StoredEntry.toEntry .full
      ⟨s.database.ledger.entries.nextId, .ofEntry s.now e, []⟩ with
  | error fail =>
    refine agrees_insert_unreadable (ρ := StoredEntry) (e := fail) h hin hfits
      (fun room => insertable_filed h.intact hf₀ room _ _)
      (fun room => insertable_filed h.intact' hf₀' room _ _) hd fun hv => ?_
    obtain ⟨a, ha⟩ := readable_newEntry (e := e) (h.timely hv) hamount hrate hfixed
      s.database.ledger.entries.nextId
    rw [hd] at ha
    cases ha
  | ok a =>
    obtain ⟨shifts, hs, he, hfl⟩ := hplaced.filed_of_toEntry hc h.intact hd
    obtain ⟨-, -, -, hfl'⟩ := hplaced'.filed_of_toEntry hc h.intact' hd
    rw [h.alike.entries.nextId h.intact.entries h.intact'.entries] at hfl'
    refine agrees_insert (ρ := StoredEntry) h hin hfits hsees ⟨a, hd⟩
      (fun room => h.intact.insertEntry room hfl) (fun room => h.intact'.insertEntry room hfl')
      (fun _ => hroom) ?_
    rintro x t t' - rfl rfl hx ht
    obtain rfl : a = x := Except.ok.inj (hd.symm.trans hx)
    refine hf a shifts _ _ hs (fun y hy => ?_) hin ht
    obtain ⟨x, hx, hid, hown⟩ := shifted_owner hfl rfl he y hy
    exact ⟨x, hx, hid, (congrArg v.sees hown).trans hsees⟩

theorem consults_checkCurrency (h : s.Beside v s') (c : Checked) (currency : Row Currency)
    (primary : Row Source) : Consults v (checkCurrency c currency primary) s s' :=
  .ite (consults_pure h ()) (.ite (consults_fail h _) (.ite (consults_fail h _) (consults_pure h ())))

theorem agrees_recordEntry (h : s.Beside v s') (hu : v.Covers user) {r : EntryRequest} {c : Checked}
    (hids : ∀ w ∈ r.ids, w.isId = true) (hc : InOrder r c)
    (hlate : ∀ source delta, v.late (.rejected (.overflow source delta)))
    (hroom : v.late (.operational noRoom)) :
    Agrees v false (recordEntry user r c) s s' := by
  refine agrees_transaction h fun w w' hw hin _ _ => ?_
  refine agrees_offered hw hin hu (hids _ (by simp [EntryRequest.ids]))
    fun cat category hcat hcat' hsees hcatr => ?_
  refine agrees_offered hw hin hu (hids _ (by simp [EntryRequest.ids]))
    fun cur currency hcur hcur' _ hcurr => ?_
  refine agrees_offered hw hin hu (hids _ (by simp [EntryRequest.ids]))
    fun src source hsrc hsrc' _ hsrcr => ?_
  obtain ⟨hcatid, -⟩ := LawfulNamed.read_eq cat category
    (hw.intact.categories.tidy.proper cat hcat.mem) hcatr
  obtain ⟨n, -, -, hrate, rfl⟩ :=
    (reread_currency (hw.intact.currencies.tidy.proper cur hcur.mem)).1 hcurr
  obtain ⟨k, -, -, rfl⟩ := (reread_source (hw.intact.sources.tidy.proper src hsrc.mem)).1 hsrcr
  refine agrees_whether (P := (r.secondary.isNull = false →
      (∃ x, w.database.ledger.sources.Offers user r.secondary x) ∧
        ∃ x, w'.database.ledger.sources.Offers user r.secondary x))
    (fun hn hnull => by simp [hnull] at hn)
    (fun _ k hk => agrees_offered hw hin hu (hids _ (by simp [EntryRequest.ids]))
      fun x _ hx hx' _ _ => hk fun _ => ⟨⟨x, hx⟩, x, hx'⟩) fun hsecond => ?_
  refine (consults_checkCurrency hw c cur _).before fun _ t t' run run' ht _ _ => ?_
  obtain ⟨rfl, hheld⟩ := checkCurrency_ok.1 run
  obtain ⟨rfl, -⟩ := checkCurrency_ok.1 run'
  -- the lookups have found the same rows in both databases, so the entry is placed in both
  have hplaced : Placed w.database.ledger user r c cat cur src :=
    ⟨hheld, hcat, hcur, hsrc, fun hn => (hsecond hn).1⟩
  have hplaced' : Placed w'.database.ledger user r c cat cur src :=
    ⟨hheld, hcat', hcur', hsrc', fun hn => (hsecond hn).2⟩
  refine agrees_given hw fun fixed => ?_
  rw [hcatid]
  refine agrees_lift hw fun e he => ?_
  obtain ⟨item, hread, rfl⟩ := read_of_recordOf he
  obtain ⟨text, party, -, -, hamount, hrate, hfixed, rfl⟩ :=
    (read_entryFields hcat.owner (hids _ (by simp [EntryRequest.ids]))).1 hread
  dsimp only
  refine agrees_insertEntry hw hin hc hplaced hplaced' hsees hamount hrate hfixed hroom
    fun a shifts t t' hshifts hsources hint ht => ?_
  have hfound (p : Source) (hp : p.currency = src.data.currency) (u : Session) :
      (shiftsWith a.data (some p)).exec u = (.ok shifts, u) := by
    rw [shiftsWith, Op.exec_lift, shifts_congr (q := some src.data) a.data (by simp [hp]), hshifts]
  exact agrees_next (hfound _ rfl t) (hfound _ rfl t') (agrees_applyShifts ht hint hsources
    (fun _ _ => hlate _) fun _ _ _ _ hz => agrees_pure hz _)

/-- What a request asks for is read without a look at the database. -/
theorem consults_requestOf (h : s.Beside v s') (data : Option EntryRequest)
    (fields : List (String × Value)) : Consults v (requestOf data fields) s s' := by
  cases data with
  | some r => exact consults_pure h _
  | none =>
    unfold requestOf
    cases EntryRequest.read fields with
    | ok item => exact consults_pure h item.data
    | error fs => exact consults_fail h _

theorem agrees_createEntry (h : s.Beside v s') (hu : v.Covers user) {data : Option EntryRequest}
    {fields : List (String × Value)} (htyped : (Call.createEntry user data fields).Typed)
    (hlate : ∀ source delta, v.late (.rejected (.overflow source delta)))
    (hroom : v.late (.operational noRoom)) :
    Agrees v false (createEntry user data fields) s s' := by
  refine ((consults_requestOf h data fields).before fun r t t' run _ ht _ _ => ?_).logged
  refine agrees_lift ht fun c hc => ?_
  refine (agrees_recordEntry ht hu (requestOf_ok htyped run).2 (checkRequest_ok.1 hc) hlate hroom).bind
    fun out _ _ _ _ hz => ?_
  obtain ⟨a, shifts⟩ := out
  exact agrees_announced hz a

/-! ## Finding entries -/

theorem consults_listEntries (h : s.Beside v s') (hu : v.Covers user) (filter : EntryFilter) :
    Consults v (listEntries user filter) s s' :=
  (consults_lift h _).bind fun _ _ _ _ _ h₁ _ _ =>
    (consults_lift h₁ _).bind fun _ _ _ _ _ h₂ _ _ =>
      (consults_lift h₂ _).bind fun _ _ _ _ _ h₃ _ _ => consults_findFiltered h₃ hu _

end Bookkeeping.Service
