import Bookkeeping.Proofs.Orderly

/-! # Every call is orderly

The one walk through all calls and what they are made of. A call looks things up, does its work in a
single block and logs what it has done; what it stores was checked before.
-/

namespace Bookkeeping.Service

open Store Op

variable {T : Terms} {α : Type}

/-! ## Parts of calls -/

theorem orderly_recordOf [Record α] (fields : List (String × Value)) :
    (recordOf α fields).Orderly T .quiet
      fun a => ∃ item, Record.read (α := α) fields = .ok item ∧ item.data = a :=
  (Orderly.lift _).mono fun _ ha => read_of_recordOf ha

theorem orderly_requireUser (user : Value) :
    (requireUser user).Orderly T .quiet fun _ => True := by
  refine (orderly_find User user).bind fun found _ => ?_
  cases found with
  | none => exact orderly_fail _
  | some u => exact .pure trivial

/-- A row that is loaded is read from one that is stored. -/
theorem orderly_loadOwned (ρ : Type) [OwnedRecord ρ α] (user id : Value) (field : String)
    (active : Bool := false) : (loadOwned ρ user id field active).Orderly T .quiet
      fun a => ∃ layout r, Persistent.decode (ρ := ρ) layout r = .ok a := by
  refine .either (k := .quiet)
    (Q := fun found => ∀ a ∈ found, ∃ layout r, Persistent.decode (ρ := ρ) layout r = .ok a)
    (fun _ => .pure (by simp)) (fun _ => orderly_selectOne ρ _ _) fun found hf => ?_
  cases found with
  | none => exact orderly_fail _
  | some r => exact .ite (fun _ => orderly_fail _) fun _ => .pure (hf r rfl)

/-! ## Users -/

theorem orderly_newUser (username password : Value) :
    (newUser username password).Orderly T .quiet Account := by
  refine (Orderly.lift _).bind fun name hname => (Orderly.lift _).bind fun p _ =>
    (Orderly.hashed _).bind fun hash _ => (orderly_recordOf _).mono ?_
  rintro _ ⟨item, hread, rfl⟩
  obtain ⟨n, k, hn, hk, rfl⟩ := User.read_ok.1 hread
  exact ⟨(Check.properName hname).of_read hn, k, Part.boundedText_again hk⟩

theorem orderly_insertUser {u : User} (hu : Account u) :
    (insertUser u).Orderly T .loose fun _ => True := by
  refine (orderly_findByUsername _).bind fun found _ => ?_
  cases found with
  | none =>
    exact orderly_insert User fun I hI db n l hi hl =>
      (T.lasting I hI).users.insert db u n l hi hu hl
  | some r => exact orderly_fail _

/-- Storing a new account together with the currency that it reports in. -/
theorem orderly_register {u : User} (hu : Account u) {currency : Option String}
    (hname : ∀ n ∈ currency, ProperName n) :
    Op.Orderly T .loose (do
      let row ← insertUser u
      match currency with
      | none => pure row
      | some name =>
        let c ← Store.insert Currency (← recordOf Currency
          [("user_id", .int row.id), ("name", .text name), ("rate_to_fixed", .float 1)])
        let _ ← setFixedCurrency (.int row.id) (.int c.id)
        match ← find User (.int row.id) with
        | some row => pure row
        | none => Op.fail (.misuse .noAttribute)) fun _ => True := by
  refine (orderly_insertUser hu).bind fun row _ => ?_
  cases currency with
  | none => exact .pure trivial
  | some name =>
    refine (orderly_recordOf _).bind fun c hc =>
      (orderly_insert Currency fun I hI db n l hi hl => ?_).bind fun _ _ =>
        (orderly_setFixedCurrency _ _).bind fun _ _ => (orderly_find User _).bind fun found _ => ?_
    · obtain ⟨item, hread, rfl⟩ := hc
      obtain ⟨_, m, _, -, hm, -, rfl⟩ := Currency.read_ok.1 hread
      exact (T.lasting I hI).currencies.insert db _ n l hi ((hname name rfl).of_read hm) hl
    · cases found with
      | none => exact orderly_fail _
      | some row => exact .pure trivial

theorem orderly_passwordMatches (u : Row User) (password : Value) :
    (passwordMatches u password).Orderly T .quiet fun _ => True := by
  unfold passwordMatches
  split
  · exact orderly_fail _
  · exact .look (fun _ => rfl) fun _ => .pure trivial

/-- Choosing the currency that a user reports in. -/
theorem orderly_chooseCurrency (user currency : Value) :
    Op.Orderly T .loose (do
      let _ ← requireUser user
      if !currency.isNull then
        let _ ← loadOwned Currency user currency "currency_id" true
      let _ ← setFixedCurrency user currency
      find User user) fun _ => True :=
  (orderly_requireUser user).bind fun _ _ =>
    .whether (fun _ => (orderly_loadOwned Currency user currency _ true).any) <|
      (orderly_setFixedCurrency user currency).bind fun _ _ => (orderly_find User user).loosely

theorem orderly_switch (user enabled : Value) :
    Op.Orderly T .loose (do
      let _ ← requireUser user
      let _ ← setEnabled user enabled
      find User user) fun _ => True :=
  (orderly_requireUser user).bind fun _ _ => (orderly_setEnabled user enabled).bind fun _ _ =>
    (orderly_find User user).loosely

/-- Removing a user with everything the user owns. -/
theorem orderly_removeAccount (user : Value) :
    Op.Orderly T .loose (do
      let _ ← requireUser user
      let entries ← deleteByUser StoredEntry user
      let sources ← deleteByUser Source user
      let categories ← deleteByUser Category user
      let _ ← setFixedCurrency user .null
      let currencies ← deleteByUser Currency user
      let gone ← delete User user
      pure [("entries", entries), ("sources", sources), ("categories", categories),
        ("currencies", currencies), ("users", if gone then 1 else 0)]) fun _ => True :=
  (orderly_requireUser user).bind fun _ _ =>
    (orderly_deleteByUser StoredEntry (fun I hI => (T.lasting I hI).entries) user).bind fun _ _ =>
    (orderly_deleteByUser Source (fun I hI => (T.lasting I hI).sources) user).bind fun _ _ =>
    (orderly_deleteByUser Category (fun I hI => (T.lasting I hI).categories) user).bind fun _ _ =>
    (orderly_setFixedCurrency user _).bind fun _ _ =>
    (orderly_deleteByUser Currency (fun I hI => (T.lasting I hI).currencies) user).bind fun _ _ =>
    (orderly_delete User (fun I hI => (T.lasting I hI).users) user).bind fun _ _ => .pure trivial

section

variable (hlogs : T.logs)

include hlogs

theorem orderly_createUser (username password : Value) :
    (createUser username password).Orderly T .whole fun _ => True :=
  .logged hlogs _ <| (orderly_newUser username password).bind fun _ hu =>
    .announced hlogs (.transaction (orderly_insertUser hu)) _ _ _ _

theorem orderly_registerUser (username password currency : Value) :
    (registerUser username password currency).Orderly T .whole fun _ => True :=
  .logged hlogs _ <| (orderly_newUser username password).bind fun _ hu =>
    .optionally fun _ hname => .announced hlogs (.transaction
      (orderly_register hu fun n hn => Check.properName (hname n hn))) _ _ _ _

theorem orderly_verifyCredentials (username password : Value) :
    (verifyCredentials username password).Orderly T .quiet fun _ => True := by
  refine .either (k := .quiet) (Q := fun _ => True) (fun _ => orderly_findByUsername username)
    (fun _ => .pure trivial) fun found _ => ?_
  cases found with
  | none => exact .pure trivial
  | some u =>
    exact .ite (fun _ => .pure trivial) fun _ => (orderly_passwordMatches u password).bind
      fun _ _ => .ite (fun _ => .pure trivial) fun _ =>
        (Orderly.emit hlogs _ _ _ _).bind fun _ _ => .pure trivial

theorem orderly_changePassword (user old new : Value) :
    (changePassword user old new).Orderly T .whole fun _ => True := by
  refine .logged hlogs _ <| (Orderly.lift _).bind fun p hp =>
    (orderly_requireUser user).bind fun u _ => ?_
  refine .either (k := .quiet) (Q := fun _ => True) (fun _ => orderly_passwordMatches u old)
    (fun _ => .pure trivial) fun right _ => ?_
  refine .ite (fun _ => (Orderly.emit hlogs _ _ _ _).bind fun _ _ => .pure trivial)
    fun _ => (Orderly.hashed p).bind fun hash hh => ?_
  obtain ⟨n, rfl⟩ := hh
  exact (Orderly.transaction (orderly_updatePassword user ⟨n, new, p, hp, rfl⟩)).finish fun _ _ =>
    (Orderly.emit hlogs _ _ _ _).bind fun _ _ => .pure trivial

theorem orderly_enableUser (user enabled : Value) :
    (enableUser user enabled).Orderly T .whole fun _ => True :=
  .logged hlogs _ <| .announced hlogs (.transaction (orderly_switch user enabled)) _ _ _ _

theorem orderly_chooseFixedCurrency (user currency : Value) :
    (chooseFixedCurrency user currency).Orderly T .whole fun _ => True :=
  .logged hlogs _ <| .announced hlogs (.transaction (orderly_chooseCurrency user currency)) _ _ _ _

theorem orderly_deleteUser (user : Value) :
    (deleteUser user).Orderly T .whole fun _ => True :=
  .logged hlogs _ <| .announced hlogs (.transaction (orderly_removeAccount user)) _ _ _ _

end

/-! ## Currencies, categories and sources -/

section

variable (ρ : Type) [Catalog ρ]

theorem orderly_ensureUnique (user : Value) (name : String) (except : Value) :
    (ensureUnique ρ user name except).Orderly T .quiet fun _ => True := by
  refine (orderly_findByName ρ user _).bind fun found _ => ?_
  cases found with
  | none => exact .pure trivial
  | some r => exact .ite (fun _ => .pure trivial) fun _ => orderly_fail _

theorem orderly_create {revises : List (String × Cell) → Prop} {new : ρ → Prop}
    (h : ∀ I, T.keeps I → Withstands T.setting I ρ new revises) (user : Value) (name : String)
    {record : Op ρ} (hrecord : record.Orderly T .quiet
      fun a => new (Persistent.encode (ρ := ρ) T.setting.now a)) {check : Op Unit}
    (hcheck : check.Orderly T .quiet fun _ => True) :
    (create ρ user name record check).Orderly T .whole fun _ => True :=
  .transaction <| (orderly_requireUser user).bind fun _ _ => hcheck.bind fun _ _ =>
    (orderly_ensureUnique ρ user name _).bind fun _ _ => hrecord.bind fun _ ha =>
      orderly_insert ρ fun I hI db n l hi hl => (h I hI).insert db _ n l hi ha hl

variable {ρ} (h : ∀ I, T.keeps I → WithstandsNamed T.setting I ρ)

include h

/-- Giving a row a name that was checked. -/
theorem orderly_giveName (user id : Value) {name : String} (hname : ProperName name) :
    Op.Orderly T .loose (do
      let _ ← fetch ρ user id
      ensureUnique ρ user name id
      let _ ← update ρ id [("name", .text name)]
      find ρ id) fun _ => True := by
  refine (orderly_loadOwned ρ user id _).bind fun _ _ =>
    (orderly_ensureUnique ρ user name id).bind fun _ _ =>
      (orderly_update ρ fun I hI db cells p k l hi hc hl => ?_).bind fun _ _ =>
        (orderly_find ρ id).loosely
  refine (h I hI).update db cells p k l hi (@renames_of_fields (some name) [] cells ?_ ?_ hc) hl
  · intro m hm
    cases hm
    exact hname
  · simp

theorem orderly_rename (hlogs : T.logs) (user id name : Value) :
    (rename ρ user id name).Orderly T .whole fun _ => True :=
  .logged hlogs _ <| (Orderly.lift _).bind fun _ hn => .announced hlogs (.transaction
    (orderly_giveName h user id (Check.properName hn))) _ _ _ _

theorem orderly_mark (hlogs : T.logs) (archived : Bool) (user id : Value) :
    (mark ρ archived user id).Orderly T .whole fun _ => True :=
  have hmarks (I : Database → Prop) (hI : T.keeps I) : Withstands T.setting I ρ _ OnlyMarks :=
    (h I hI).toWithstands.mono (fun _ ha => ha) fun _ => OnlyMarks.renames
  have hend : (find ρ id).Orderly T .loose fun _ => True := (orderly_find ρ id).loosely
  .transaction <| (orderly_loadOwned ρ user id _).bind fun _ _ =>
    .ite (fun _ => (orderly_setArchived ρ hmarks id _).bind fun _ _ =>
      (Orderly.emit hlogs _ _ _ _).bind fun _ _ => hend) fun _ => hend

theorem orderly_remove (hlogs : T.logs) (user id : Value)
    (hu : (Catalog.usage ρ id).Orderly T .quiet fun _ => True)
    (hb : (Catalog.beforeDelete ρ id).Orderly T .loose fun _ => True) :
    (remove ρ user id).Orderly T .whole fun _ => True :=
  .logged hlogs _ <| .transaction <| (orderly_loadOwned ρ user id _).bind fun _ _ =>
    hu.bind fun _ _ => .whether (k := .quiet) (fun _ => orderly_fail (Q := fun _ => True) _) <|
      hb.bind fun _ _ => (orderly_delete ρ (fun I hI => (h I hI).toWithstands) id).bind fun _ _ =>
        (Orderly.emit hlogs _ _ _ _).loosely

end

theorem orderly_usage (kind : CatalogKind) (id : Value) :
    (kind.run fun ρ [Catalog ρ] [Shown ρ] => Catalog.usage ρ id).Orderly T .quiet fun _ => True := by
  cases kind
  · exact orderly_select Source _
  · exact orderly_select StoredEntry _
  · exact orderly_select StoredEntry _

theorem orderly_beforeDelete (hlogs : T.logs) (kind : CatalogKind) (id : Value) :
    (kind.run fun ρ [Catalog ρ] [Shown ρ] => Catalog.beforeDelete ρ id).Orderly T .loose
      fun _ => True := by
  cases kind with
  | currency =>
    exact (orderly_clearFixedCurrency id).bind fun _ _ =>
      .ite (fun _ => (Orderly.emit hlogs _ _ _ _).loosely) fun _ => .pure trivial
  | category => exact .pure trivial
  | source => exact .pure trivial

/-- Making a currency under a name that was checked. -/
theorem orderly_newCurrency (user : Value) {name : String} (hname : ProperName name) (rate : Float) :
    (create Currency user name (recordOf Currency
      [("user_id", user), ("name", .text name), ("rate_to_fixed", .float rate)])).Orderly T .whole
      fun _ => True := by
  refine orderly_create Currency (fun I hI => (T.lasting I hI).currencies.toWithstands) user name
    ((orderly_recordOf _).mono ?_) (.pure trivial)
  rintro _ ⟨item, hread, rfl⟩
  obtain ⟨_, m, _, -, hm, -, rfl⟩ := Currency.read_ok.1 hread
  exact hname.of_read hm

theorem orderly_newCategory (user : Value) {name : String} (hname : ProperName name) :
    (create Category user name (recordOf Category
      [("user_id", user), ("name", .text name)])).Orderly T .whole fun _ => True := by
  refine orderly_create Category (fun I hI => (T.lasting I hI).categories.toWithstands) user name
    ((orderly_recordOf _).mono ?_) (.pure trivial)
  rintro _ ⟨item, hread, rfl⟩
  obtain ⟨_, m, -, hm, rfl⟩ := Category.read_ok.1 hread
  exact hname.of_read hm

theorem orderly_newSource (user currency : Value) {name : String} (hname : ProperName name)
    (amount : Float) :
    (create Source user name (recordOf Source [("user_id", user), ("name", .text name),
      ("currency_id", currency), ("amount", .float amount)])
      (do let _ ← loadOwned Currency user currency "currency_id" true)).Orderly T .whole
      fun _ => True := by
  refine orderly_create Source (fun I hI => (T.lasting I hI).sources.toWithstands) user name
    ((orderly_recordOf _).mono ?_)
    ((orderly_loadOwned Currency user currency _ true).bind fun _ _ => .pure trivial)
  rintro _ ⟨item, hread, rfl⟩
  obtain ⟨_, m, _, _, -, hm, -, -, rfl⟩ := Source.read_ok.1 hread
  exact hname.of_read hm

/-- Changing a currency to values that were checked. -/
theorem orderly_adjust (user id : Value) {name : Option String} (hname : ∀ n ∈ name, ProperName n)
    (rate : Option Float) :
    Op.Orderly T .loose (do
      let _ ← fetch Currency user id
      if let some s := name then ensureUnique Currency user s id
      let _ ← update Currency id ((name.map fun s => ("name", Value.text s)).toList
        ++ (rate.map fun x => ("rate_to_fixed", Value.float x)).toList)
      find Currency id) fun _ => True := by
  refine (orderly_loadOwned Currency user id _).bind fun _ _ => ?_
  have hend : Op.Orderly T .loose (do
      let _ ← update Currency id ((name.map fun s => ("name", Value.text s)).toList
        ++ (rate.map fun y => ("rate_to_fixed", Value.float y)).toList)
      find Currency id) fun _ => True := by
    refine (orderly_update Currency fun I hI db cells p k l hi hc hl => ?_).bind fun _ _ =>
      (orderly_find Currency id).loosely
    refine (T.lasting I hI).currencies.update db cells p k l hi (renames_of_fields hname ?_ hc) hl
    cases rate <;> simp
  cases name with
  | none => exact hend
  | some s => exact (orderly_ensureUnique Currency user s id).bind fun _ _ => hend

section

variable (hlogs : T.logs)

include hlogs

theorem orderly_createCurrency (user name rate : Value) :
    (createCurrency user name rate).Orderly T .whole fun _ => True :=
  .logged hlogs _ <| (Orderly.lift _).bind fun _ hn => (Orderly.lift _).bind fun x _ =>
    .announced hlogs (orderly_newCurrency user (Check.properName hn) x) _ _ _ _

theorem orderly_createCategory (user name : Value) :
    (createCategory user name).Orderly T .whole fun _ => True :=
  .logged hlogs _ <| (Orderly.lift _).bind fun _ hn =>
    .announced hlogs (orderly_newCategory user (Check.properName hn)) _ _ _ _

theorem orderly_createSource (user name currency amount : Value) :
    (createSource user name currency amount).Orderly T .whole fun _ => True :=
  .logged hlogs _ <| (Orderly.lift _).bind fun _ hn => (Orderly.lift _).bind fun x _ =>
    .announced hlogs (orderly_newSource user currency (Check.properName hn) x) _ _ _ _

theorem orderly_updateCurrency (user id name rate : Value) :
    (updateCurrency user id name rate).Orderly T .whole fun _ => True :=
  .logged hlogs _ <| .optionally fun _ hn => .optionally fun x _ =>
    (Orderly.transaction (orderly_adjust user id (fun m hm => Check.properName (hn m hm)) x)).finish
      fun _ _ => .ite (fun _ => (Orderly.emit hlogs _ _ _ _).bind fun _ _ => .pure trivial)
        fun _ => .pure trivial

end

/-! ## Entries -/

theorem orderly_requestOf (data : Option EntryRequest) (fields : List (String × Value)) :
    (requestOf data fields).Orderly T .quiet fun _ => True := by
  unfold requestOf
  split
  · exact .pure trivial
  · split
    · exact .pure trivial
    · exact orderly_fail _

theorem orderly_checkCurrency (c : Checked) (currency : Row Currency) (primary : Row Source) :
    (checkCurrency c currency primary).Orderly T .quiet fun _ => True :=
  .ite (fun _ => .pure trivial) fun _ => .ite (fun _ => orderly_fail _)
    fun _ => .ite (fun _ => orderly_fail _) fun _ => .pure trivial

/-- A currency that is read has a rate above zero. -/
theorem rate_of_readCurrency {layout : Layout} {r : Row Currency} {a : Row Currency}
    (h : Persistent.decode (ρ := Currency) layout r = .ok a) : IsPositive a.data.rate := by
  obtain ⟨item, hitem, h⟩ := except_bind_ok_iff.1 h
  cases h
  obtain ⟨g₁, rate, h₁, hrate, rfl⟩ := Reading.seq_eq_ok.1 (Reading.orFail_eq_ok.1 hitem)
  obtain ⟨g₂, name, h₂, -, rfl⟩ := Reading.seq_eq_ok.1 h₁
  obtain ⟨g₃, archived, h₃, -, rfl⟩ := Reading.seq_eq_ok.1 h₂
  obtain ⟨g₄, owner, h₄, -, rfl⟩ := Reading.seq_eq_ok.1 h₃
  obtain ⟨n, -, rfl⟩ := Reading.map_eq_ok.1 h₄
  obtain ⟨v, hv⟩ := Part.required_ok hrate
  exact Part.rate_ok hv

/-- An entry that is read from checked parts has an amount and rates above zero. -/
theorem InOrder.priced {r : EntryRequest} {c : Checked} (h : InOrder r c) {user target : Value}
    {category currency source : Int} {fixed : Float} (hfixed : IsPositive fixed) {item : Item Entry}
    (hread : Entry.read [("user_id", user), ("description", r.description), ("target", target),
      ("category_id", .int category), ("amount", .float c.amount), ("date", .moment c.date),
      ("currency_id", .int currency), ("entry_type", .kind c.kind), ("source_id", .int source),
      ("secondary_source_id", r.secondary), ("conversion_rate", Value.ofFloat? c.rate),
      ("conversion_rate_to_fixed", .float fixed)] = .ok item) (now : String) :
    Priced (StoredEntry.ofEntry now item.data) := by
  obtain ⟨owner, text, party, second, -, -, -, -, -, -, -, rfl⟩ := Entry.read_ok.1 hread
  have hamount : IsPositive c.amount := Check.rate_ok h.amount
  refine ⟨?_, ?_, ?_⟩
  · exact hamount.unsigned
  · intro x hx
    obtain ⟨y, hy, rfl⟩ := Option.map_eq_some_iff.1 hx
    have hrate := h.rate
    split at hrate
    · rw [hrate] at hy
      cases hy
    · obtain ⟨z, hz, hcz⟩ := hrate
      rw [hcz] at hy
      cases hy
      exact (Check.rate_ok hz).unsigned
  · exact hfixed.unsigned

theorem InOrder.written {r : EntryRequest} {c : Checked} (h : InOrder r c) {user target : Value}
    {category currency source : Int} {fixed : Float} (hfixed : IsPositive fixed) {item : Item Entry}
    (hread : Entry.read [("user_id", user), ("description", r.description), ("target", target),
      ("category_id", .int category), ("amount", .float c.amount), ("date", .moment c.date),
      ("currency_id", .int currency), ("entry_type", .kind c.kind), ("source_id", .int source),
      ("secondary_source_id", r.secondary), ("conversion_rate", Value.ofFloat? c.rate),
      ("conversion_rate_to_fixed", .float fixed)] = .ok item) (now : String) :
    Written (StoredEntry.ofEntry now item.data) where
  toPriced := h.priced hfixed hread now
  dated := ⟨item.data.date, rfl⟩
  trimmed := by
    obtain ⟨owner, text, party, second, -, -, htarget, -, -, -, -, rfl⟩ := Entry.read_ok.1 hread
    exact Part.trimmed_of_optional htarget

theorem orderly_applyShifts (direction : Int) (shifts : List Shift) :
    (applyShifts direction shifts).Orderly T .loose fun _ => True := by
  induction shifts with
  | nil => exact .pure trivial
  | cons s rest ih => exact (orderly_applyDelta _ _).bind fun _ _ => ih

theorem orderly_shiftsOf (e : Entry) : (shiftsOf e).Orderly T .quiet fun _ => True :=
  (orderly_find Source _).bind fun _ _ => (Orderly.lift _).any

theorem orderly_recordEntry (user : Value) {r : EntryRequest} {c : Checked} (hc : InOrder r c) :
    (recordEntry user r c).Orderly T .whole fun _ => True := by
  refine .transaction <| (orderly_loadOwned Category user _ _ true).bind fun category _ =>
    (orderly_loadOwned Currency user _ _ true).bind fun currency hcurrency =>
    (orderly_loadOwned Source user _ _ true).bind fun primary _ => ?_
  obtain ⟨layout, row, hrow⟩ := hcurrency
  -- a second source is looked up only if one is given
  refine .whether (fun _ => (orderly_loadOwned Source user _ _ true).any) <|
    (orderly_checkCurrency c currency primary).bind fun _ _ => .either (k := .quiet)
      (Q := IsPositive) (fun _ => .pure (rate_of_readCurrency hrow))
      (fun _ => (Orderly.lift _).mono fun _ => Check.rate_ok) fun rate hrate => ?_
  refine (orderly_recordOf _).bind fun e he =>
    (orderly_insert StoredEntry fun I hI db n l hi hl => ?_).bind fun entry _ =>
      (Orderly.lift _).bind fun shifts _ => (orderly_applyShifts 1 shifts).bind fun _ _ =>
        .pure trivial
  obtain ⟨item, hread, rfl⟩ := he
  exact (T.lasting I hI).entries.insert db _ n l hi (hc.written hrate hread T.setting.now) hl

theorem orderly_markEntry (archived : Bool) (user id : Value) :
    (markEntry archived user id).Orderly T .whole fun _ => True :=
  .transaction <| (orderly_loadOwned StoredEntry user id _).bind fun e _ =>
    .ite (fun _ => .pure trivial) fun _ =>
      (orderly_setArchived StoredEntry (fun I hI => (T.lasting I hI).entries.toWithstands) id _).bind
        fun _ _ => (orderly_shiftsOf e.data).bind fun shifts _ =>
        (orderly_applyShifts _ shifts).bind fun _ _ =>
          (orderly_find StoredEntry id).bind fun _ _ => .pure trivial

/-- Removing an entry, its amount taken out of the balances first if it is active. -/
theorem orderly_removeEntry (user id : Value) :
    Op.Orderly T .loose (do
      let e ← getEntry user id
      if !e.data.archived then
        let shifts ← shiftsOf e.data
        applyShifts (-1) shifts
      let _ ← delete StoredEntry id) fun _ => True := by
  refine (orderly_loadOwned StoredEntry user id _).bind fun e _ => ?_
  have hend : Op.Orderly T .loose (do let _ ← delete StoredEntry id) fun _ => True :=
    (orderly_delete StoredEntry (fun I hI => (T.lasting I hI).entries.toWithstands) id).bind
      fun _ _ => .pure trivial
  exact .ite (fun _ => (orderly_shiftsOf e.data).bind fun shifts _ =>
    (orderly_applyShifts (-1) shifts).bind fun _ _ => hend) fun _ => hend

section

variable (hlogs : T.logs)

include hlogs

theorem orderly_createEntry (user : Value) (data : Option EntryRequest)
    (fields : List (String × Value)) :
    (createEntry user data fields).Orderly T .whole fun _ => True :=
  .logged hlogs _ <| (orderly_requestOf data fields).bind fun _ _ => (Orderly.lift _).bind
    fun _ hc => (orderly_recordEntry user (checkRequest_ok.1 hc)).finish fun _ _ =>
      (Orderly.emit hlogs _ _ _ _).bind fun _ _ => .pure trivial

/-- Archiving and restoring log an event if they change anything. -/
theorem orderly_marked (archived : Bool) (operation event : String) (user id : Value) :
    (logged operation do
      match ← markEntry archived user id with
      | (e, none) => pure (some e)
      | (_, some after) =>
        emit .info .entries event [("user_id", user), ("entry_id", id)]
        pure after).Orderly T .whole fun _ => True := by
  refine .logged hlogs _ <| (orderly_markEntry archived user id).finish fun r _ => ?_
  obtain ⟨e, after⟩ := r
  cases after with
  | none => exact .pure trivial
  | some after => exact (Orderly.emit hlogs _ _ _ _).bind fun _ _ => .pure trivial

theorem orderly_deleteEntry (user id : Value) :
    (deleteEntry user id).Orderly T .whole fun _ => True :=
  .logged hlogs _ <| (Orderly.transaction (orderly_removeEntry user id)).finish fun _ _ =>
    Orderly.emit hlogs _ _ _ _

omit hlogs in
theorem orderly_listEntries (user : Value) (filter : EntryFilter) :
    (listEntries user filter).Orderly T .quiet fun _ => True :=
  (Orderly.lift _).bind fun _ _ => (Orderly.lift _).bind fun _ _ => (Orderly.lift _).bind fun _ _ =>
    orderly_findFiltered user _

end

/-! ## Calls -/

theorem Call.orderly (hlogs : T.logs) (c : Call) : c.run.Orderly T .whole fun _ => True := by
  have named (I : Database → Prop) (hI : T.keeps I) := T.lasting I hI
  cases c with
  | createUser username password => exact (orderly_createUser hlogs username password).map _
  | registerUser username password currency =>
    exact (orderly_registerUser hlogs username password currency).map _
  | getUser user => exact (orderly_find User user).whole.map _
  | getUserByUsername username => exact (orderly_findByUsername username).whole.map _
  | verifyCredentials username password =>
    exact (orderly_verifyCredentials hlogs username password).whole.map _
  | changePassword user old new => exact (orderly_changePassword hlogs user old new).map _
  | setEnabled user enabled => exact (orderly_enableUser hlogs user enabled).map _
  | setFixedCurrency user currency => exact (orderly_chooseFixedCurrency hlogs user currency).map _
  | deleteUser user => exact (orderly_deleteUser hlogs user).map _
  | createCurrency user name rate => exact (orderly_createCurrency hlogs user name rate).map _
  | updateCurrency user id name rate =>
    exact (orderly_updateCurrency hlogs user id name rate).map _
  | createCategory user name => exact (orderly_createCategory hlogs user name).map _
  | createSource user name currency amount =>
    exact (orderly_createSource hlogs user name currency amount).map _
  | rename kind user id name =>
    cases kind with
    | currency => exact (orderly_rename (fun I hI => (named I hI).currencies) hlogs user id name).map _
    | category => exact (orderly_rename (fun I hI => (named I hI).categories) hlogs user id name).map _
    | source => exact (orderly_rename (fun I hI => (named I hI).sources) hlogs user id name).map _
  | archive kind user id =>
    cases kind with
    | currency =>
      exact (Orderly.logged hlogs _ (orderly_mark (fun I hI => (named I hI).currencies) hlogs true
        user id)).map _
    | category =>
      exact (Orderly.logged hlogs _ (orderly_mark (fun I hI => (named I hI).categories) hlogs true
        user id)).map _
    | source =>
      exact (Orderly.logged hlogs _ (orderly_mark (fun I hI => (named I hI).sources) hlogs true
        user id)).map _
  | restore kind user id =>
    cases kind with
    | currency =>
      exact (Orderly.logged hlogs _ (orderly_mark (fun I hI => (named I hI).currencies) hlogs false
        user id)).map _
    | category =>
      exact (Orderly.logged hlogs _ (orderly_mark (fun I hI => (named I hI).categories) hlogs false
        user id)).map _
    | source =>
      exact (Orderly.logged hlogs _ (orderly_mark (fun I hI => (named I hI).sources) hlogs false
        user id)).map _
  | delete kind user id =>
    have hu := orderly_usage (T := T) kind id
    have hb := orderly_beforeDelete hlogs kind id
    cases kind with
    | currency =>
      exact (orderly_remove (fun I hI => (named I hI).currencies) hlogs user id hu hb).map _
    | category =>
      exact (orderly_remove (fun I hI => (named I hI).categories) hlogs user id hu hb).map _
    | source => exact (orderly_remove (fun I hI => (named I hI).sources) hlogs user id hu hb).map _
  | get kind user id => cases kind <;> exact (orderly_loadOwned _ user id _).any.whole.map _
  | getByName kind user name => cases kind <;> exact (orderly_findByName _ user name).whole.map _
  | list kind user includeArchived => cases kind <;> exact (orderly_selectAll _ _ _).whole.map _
  | createEntry user data fields => exact (orderly_createEntry hlogs user data fields).map _
  | getEntry user id => exact (orderly_loadOwned StoredEntry user id _).any.whole.map _
  | listEntries user filter => exact (orderly_listEntries user filter).whole.map _
  | archiveEntry user id => exact (orderly_marked hlogs true "archive_entry" _ user id).map _
  | restoreEntry user id => exact (orderly_marked hlogs false "restore_entry" _ user id).map _
  | deleteEntry user id => exact (orderly_deleteEntry hlogs user id).map _

end Bookkeeping.Service
