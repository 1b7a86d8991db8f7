import Bookkeeping.Proofs.CatalogAgreement

/-! # Calls on users side by side

A call on one account looks at this account and at the rows of its user, so two runs agree if they
have this user in view. A new account must have a name that nobody uses: there everybody has to be
in view.
-/

namespace Bookkeeping.Store

open Op

variable {v : Scope} {s s' t : Session}

/-! ## Looking up users -/

/-- A user who is found to exist has a row. -/
theorem requireUser_found {user : Value} {a : Row User} (hu : user.isId = true)
    (hx : (Service.requireUser user).exec s = (.ok a, t)) :
    ∃ r ∈ s.database.ledger.users.rows, user.id? = some r.id := by
  obtain ⟨found, w, hfind, hm⟩ := bind_ok hx
  obtain ⟨o, z, hselect, hread⟩ := bind_ok hfind
  obtain ⟨c, hc, hrow⟩ := Service.except_bind_ok_iff.1 (select_gives User hselect)
  cases o with
  | none =>
    obtain ⟨rfl, -⟩ := pure_ok hread
    cases hm
  | some r =>
    have hfound := Except.ok.inj hrow
    refine ⟨r, List.mem_of_find?_eq_some hfound, ?_⟩
    have hid := List.find?_some hfound
    simpa [isInteger_of_isId hu hc] using hid

/-- A name under which nobody is found is not used. -/
theorem username_free (h : s.Ready) {name : String} (hname : Text.strip name = name)
    (hx : (findByUsername (.text name)).exec s = (.ok none, t)) :
    t = s ∧ ∀ r ∈ s.database.ledger.users.rows, r.data.username ≠ name := by
  obtain ⟨n, hn, hs⟩ := lift_bind_ok hx
  obtain rfl : .text name = n := by simpa [lookupName, Value.text?, hname] using hn
  rw [exec_selectOne User h] at hs
  obtain ⟨hpick, rfl⟩ := Prod.mk.inj hs
  refine ⟨rfl, fun r hr hsame => ?_⟩
  have hother := List.find?_eq_none.1 (pick_none.1 hpick) r hr
  exact hother (by simp [hsame, Cell.isText, Cell.asText, Cell.same])

/-- An id that was given to nobody before is that of nobody who owns a currency. -/
theorem Intact.owner_ne_nextId {l : Ledger} (hi : Intact l) :
    ∀ c ∈ l.currencies.rows, c.data.owner ≠ l.users.nextId := by
  intro c hc
  obtain ⟨o, ho, hoid⟩ := hi.currencies.owned c hc
  rw [show c.data.owner = o.id from hoid.symm]
  exact Int.ne_of_lt (Table.id_lt_nextId _ ho)

/-! ## Changing an account -/

theorem assign_password (hash : String) {r : Row User} (ho : r.odd = []) :
    Ledger.assigned Relation.columns [("password", .text hash)] r
      = .ok ⟨r.id, { r.data with passwordHash := hash }, []⟩ := by
  rw [assigned_single rfl]
  exact congrArg Except.ok (by simp [Row.put, Row.oddBut, ho])

theorem assign_fixedCurrency (currency : Option Int) {r : Row User} (ho : r.odd = []) :
    Ledger.assigned Relation.columns [("fixed_currency_id", .ofInt? currency)] r
      = .ok ⟨r.id, { r.data with fixedCurrency := currency }, []⟩ := by
  rw [assigned_single rfl]
  cases currency <;> exact congrArg Except.ok (by simp [Row.put, Row.oddBut, ho])

theorem assign_enabled (enabled : Bool) {r : Row User} (ho : r.odd = []) :
    Ledger.assigned Relation.columns [("enabled", Cell.ofBool enabled)] r
      = .ok ⟨r.id, { r.data with enabled }, []⟩ := by
  rw [assigned_single rfl]
  cases enabled <;> exact congrArg Except.ok (by simp [Row.put, Row.oddBut, ho, Column.flag])

/-- Integers other than 0 and 1 are no flags. -/
theorem assign_notEnabled {n : Int} (h0 : n ≠ 0) (h1 : n ≠ 1) (r : Row User) :
    ∃ b, Ledger.assigned Relation.columns [("enabled", .integer n)] r = .error b := by
  rw [assigned_single rfl]
  simp [Column.store, Column.flag, Cell.convert, bind, Except.bind, h0, h1]

/-- An update whose values are of no type of the store fails. -/
theorem exec_update_unstorable {ρ α : Type} [Persistent ρ α] (h : s.Ready) {id : Value}
    {fields : List (String × Value)} {e : Failure} (hf : fields ≠ [])
    (hknown : missingColumn? ρ .full fields = none) (hc : paramFields fields = .error e) :
    (update ρ id fields).exec s = (.error e, s) := by
  rw [update, if_neg (by simpa using hf), exec_bind, exec_write ρ h]
  simp only [h.layout, hknown, hc, bind, Except.bind]

/-- An update whose values break a constraint of their columns is refused. -/
theorem exec_update_refused {ρ α : Type} [Persistent ρ α] [Held ρ] [Governed ρ] (h : s.Ready)
    (hi : Intact s.database.ledger) {id : Value} {fields : List (String × Value)}
    {cells : List (String × Cell)} {r : Row ρ} {b : Breach}
    (hr : r ∈ (Relation.table (ρ := ρ) s.database.ledger).rows) (hid : id.id? = some r.id)
    (hf : fields ≠ []) (hknown : missingColumn? ρ .full fields = none)
    (hc : paramFields fields = .ok cells)
    (ha : Ledger.assigned Relation.columns cells r = .error b) :
    (update ρ id fields).exec s = (.error (.rejected (b.rejection (Relation.name ρ) false)),
      { s with breaches := s.breaches ++ [b] }) := by
  have hcols : Layout.full.columns (ρ := ρ) = Relation.columns := by simp [Layout.columns]
  have ht : (Relation.table (ρ := ρ) s.database.ledger).Tidy := Governed.tidy hi
  have hfind : (Relation.table (ρ := ρ) s.database.ledger).rows.find?
      (fun x => (Cell.integer r.id).isInteger (.integer x.id)) = some r :=
    ht.find?_eq hr fun x _ => by simp
  rw [update, if_neg (by simpa using hf), exec_bind, exec_write ρ h]
  simp only [h.layout, hknown, hc, param_of_id hid (ht.fits r hr), bind, Except.bind, hcols,
    Ledger.update, hfind, ha]

end Bookkeeping.Store

namespace Bookkeeping.Service

open Store

variable {v : Scope} {s s' t : Session} {user : Value} {α : Type} {sure : Bool}

/-- The account with another currency to report in. -/
abbrev reportingIn (currency : Option Int) (r : Row User) : Row User :=
  ⟨r.id, { r.data with fixedCurrency := currency }, []⟩

/-- A user may report in a currency of the user's own, or in none. -/
theorem agrees_setFixedCurrency {currency : Value} {r : Row User} {f : Bool → Op α}
    (h : s.Beside v s') (hin : s.inBlock = true) (hr : r ∈ s.database.ledger.users.rows)
    (hid : user.id? = some r.id) (hsees : v.sees r.id = true) (hc : currency.isId = true)
    (hown : ∀ n, currency.id? = some n → s.database.ledger.currencies.Owns r.id n)
    (hown' : ∀ n, currency.id? = some n → s'.database.ledger.currencies.Owns r.id n)
    (hnext : ∀ t t',
      t = s.put (Relation.withTable s.database.ledger
        (s.database.ledger.users.replace r.id (reportingIn currency.id? r))) →
      t' = s'.put (Relation.withTable s'.database.ledger
        (s'.database.ledger.users.replace r.id (reportingIn currency.id? r))) →
      reportingIn currency.id? r ∈ t.database.ledger.users.rows → t.Beside v t' →
      Agrees v true (f true) t t') :
    Agrees v sure (Store.setFixedCurrency user currency >>= f) s s' := by
  have hcells : paramFields [("fixed_currency_id", currency)]
      = .ok [("fixed_currency_id", .ofInt? currency.id?)] := by
    cases hn : currency.id? with
    | none =>
      cases currency with
      | null => rfl
      | bool b => cases hn
      | int n => cases hn
      | _ => cases hc
    | some n =>
      simp [paramFields, param_of_id hn ((hown n hn).has.fits h.intact.currencies.tidy), bind,
        Except.bind, Cell.ofInt?]
  refine agrees_update (ρ := User) h hin hr hid hsees rfl (by simp) rfl hcells
    (assign_fixedCurrency _ (h.intact.users.proper r hr)) (fun l hi hrl hl => ?_) hnext
  refine hi.reviseUser (u := { r.data with fixedCurrency := currency.id? }) hrl rfl fun c hcur => ?_
  rcases hl with rfl | rfl
  · exact hown c hcur
  · exact hown' c hcur

/-! ## Making accounts -/

/-- The record of a new account: its name is in order, and it can be read back. -/
structure Fresh (u : User) : Prop where
  unset : u.fixedCurrency = none
  name : Text.strip u.username = u.username
  readable : ∀ id, ∃ a, reread (⟨id, u, []⟩ : Row User) = .ok a

theorem consults_newUser (h : s.Beside v s') (username password : Value) :
    Consults v (newUser username password) s s' :=
  (consults_lift h _).bind fun _ _ _ _ _ h₁ _ _ => (consults_lift h₁ _).bind
    fun _ _ _ _ _ h₂ _ _ => (consults_hashed h₂ _).bind fun _ _ _ _ _ h₃ _ _ => consults_lift h₃ _

theorem fresh_of_newUser {username password : Value} {u : User}
    (hx : (newUser username password).exec s = (.ok u, t)) : Fresh u := by
  obtain ⟨n, x₁, hn, h₁⟩ := Op.bind_ok hx
  obtain ⟨hn, -⟩ := Op.lift_ok hn
  obtain ⟨p, x₂, -, h₂⟩ := Op.bind_ok h₁
  obtain ⟨hash, x₃, -, h₃⟩ := Op.bind_ok h₂
  obtain ⟨hrec, -⟩ := Op.lift_ok h₃
  obtain ⟨item, hread, rfl⟩ := read_of_recordOf hrec
  have hreadable := readable_newUser hread
  obtain ⟨m, k, hm, -, rfl⟩ := User.read_ok.1 hread
  obtain ⟨hstrip, hpart⟩ := Check.name_ok hn
  have hname : m = n := Reading.ok_inj.1 (hm.symm.trans hpart)
  exact ⟨rfl, by rw [hname, hstrip], hreadable⟩

/-- A new account is stored if nobody has its name. -/
theorem agrees_insertUser {u : User} {f : Row User → Op α} (h : s.Beside v s')
    (hin : s.inBlock = true) (hall : ∀ n, v.sees n = true)
    (hlate : v.late (.operational noRoom)) (hu : Fresh u)
    (hf : ∀ x t t', ⟨x.id, u, []⟩ ∈ t.database.ledger.users.rows →
      (∀ c ∈ t.database.ledger.currencies.rows, c.data.owner ≠ x.id) →
      (∀ c ∈ t'.database.ledger.currencies.rows, c.data.owner ≠ x.id) →
      t.database.ledger.currencies = s.database.ledger.currencies →
      t.inBlock = true → t.Beside v t' → Agrees v true (f x) t t') :
    Agrees v false (insertUser u >>= f) s s' := by
  unfold insertUser
  rw [bind_assoc]
  refine (consults_findByUsername h hall _).before fun found t t' run run' ht still _ => ?_
  cases found with
  | some r => exact ((consults_fail ht _).bind fun _ _ _ hrun => by cases hrun).agrees
  | none =>
    obtain ⟨rfl, hfree⟩ := username_free (h.ready hin) hu.name run
    obtain ⟨rfl, hfree'⟩ := username_free (h.ready' hin) hu.name run'
    have hadd {l : Ledger} (hi : Intact l) (hfree : ∀ r ∈ l.users.rows, r.data.username ≠ u.username)
        (room : l.users.isFull = false) : Intact { l with users := l.users.insert u } :=
      hi.addUser room hfree hu.unset
    refine agrees_insert (ρ := User) ht hin ?_ (hall _) (hu.readable _)
      (hadd ht.intact hfree) (hadd ht.intact' hfree') (fun _ => hlate) ?_
    · show u.fixedCurrency.toList.all fitsInteger = true
      rw [hu.unset]
      rfl
    · rintro x _ _ - rfl rfl hread hbeside
      obtain ⟨n, k, -, -, rfl⟩ := (reread_user rfl).1 hread
      have hnone' : ∀ c ∈ t'.database.ledger.currencies.rows,
          c.data.owner ≠ t.database.ledger.users.nextId := by
        rw [ht.alike.users.nextId ht.intact.users ht.intact'.users]
        exact ht.intact'.owner_ne_nextId
      exact hf _ _ _ (Table.mem_insert.2 (.inr rfl)) ht.intact.owner_ne_nextId hnone' rfl hin hbeside

theorem agrees_createUser (h : s.Beside v s') (hall : ∀ n, v.sees n = true)
    (hlate : v.late (.operational noRoom)) (username password : Value) :
    Agrees v false (createUser username password) s s' := by
  refine ((consults_newUser h username password).before fun u t t' run _ ht _ _ =>
    (agrees_transaction ht fun w w' hw hin _ _ => ?_).bind fun r _ _ _ _ hz =>
      agrees_announced hz r).logged
  rw [← bind_pure (insertUser u)]
  exact agrees_insertUser hw hin hall hlate (fresh_of_newUser run)
    fun x _ _ _ _ _ _ _ hbeside => agrees_pure hbeside x

/-- The first currency of a user counts as it is. -/
theorem read_firstCurrency {name : String} (hname : Part.name (.text name) = .ok name) (id : Int) :
    Currency.read [("user_id", .int id), ("name", .text name), ("rate_to_fixed", .float 1)]
      = .ok { data := { owner := id, name, rate := 1 } } := by
  have hone : Number.isFinite 1 = true ∧ (0 : Float) < 1 := by decide
  simp [Currency.read, Record.readId, Part.required, Part.withDefault, List.lookup_cons, hname, hone]

/-- The first currency of a new user is stored and chosen, unless no id is left for it. -/
theorem agrees_firstCurrency (h : s.Beside v s') (hin : s.inBlock = true)
    (hall : ∀ n, v.sees n = true) (hlate : v.late (.operational noRoom)) {u : User} (hu : Fresh u)
    {id : Int} {name : String}
    (hname : Part.name (.text name) = .ok name)
    (hrow : ⟨id, u, []⟩ ∈ s.database.ledger.users.rows)
    (hnone : ∀ c ∈ s.database.ledger.currencies.rows, c.data.owner ≠ id)
    (hnone' : ∀ c ∈ s'.database.ledger.currencies.rows, c.data.owner ≠ id) :
    Agrees v true (do
      let c ← Store.insert Currency (← recordOf Currency
        [("user_id", .int id), ("name", .text name), ("rate_to_fixed", .float 1)])
      let _ ← Store.setFixedCurrency (.int id) (.int c.id)
      match ← find User (.int id) with
      | some row => pure row
      | none => Op.fail (.misuse .noAttribute)) s s' := by
  have hread := read_firstCurrency hname id
  have hrecord (z : Session) : (recordOf Currency [("user_id", .int id), ("name", .text name),
      ("rate_to_fixed", .float 1)]).exec z = (.ok { owner := id, name, rate := 1 }, z) := by
    unfold recordOf
    rw [show Record.read (α := Currency) _ = _ from hread]
    rfl
  have hfit : fitsInteger id = true := h.intact.users.fits _ hrow
  -- a new user owns no currency yet, so no other one has the name
  have hadd {l : Ledger} (hi : Intact l) (hrow : ⟨id, u, []⟩ ∈ l.users.rows)
      (hnone : ∀ c ∈ l.currencies.rows, c.data.owner ≠ id) (room : l.currencies.isFull = false) :
      Intact { l with currencies :=
        l.currencies.insert { owner := id, name, rate := unsigned 1 } } :=
    (Step.addCurrency _ ⟨room, ⟨_, hrow, rfl⟩, fun c hc hown _ => hnone c hc hown,
      readable_newCurrency hread _⟩).intact hi
  refine agrees_next (hrecord s) (hrecord s') ?_
  refine agrees_insert (ρ := Currency) h hin ?_ (hall _) (readable_newCurrency hread _)
    (hadd h.intact hrow hnone) (hadd h.intact' (h.mem (ρ := User) hrow (hall _)) hnone')
    (fun _ => hlate) ?_
  · show [id].all fitsInteger = true
    simpa using hfit
  rintro c t t' - rfl rfl hdecode ht
  obtain ⟨n, -, -, -, rfl⟩ := (reread_currency rfl).1 hdecode
  have howns (t : Table Currency) :
      (t.insert { owner := id, name, rate := unsigned 1 }).Owns id t.nextId :=
    ⟨_, Table.mem_insert.2 (.inr rfl), rfl, rfl⟩
  have hnext := h.alike.currencies.nextId h.intact.currencies.tidy h.intact'.currencies.tidy
  refine agrees_setFixedCurrency (r := ⟨id, u, []⟩) ht hin hrow rfl (hall _) rfl ?_ ?_ ?_
  · rintro _ ⟨⟩
    exact howns _
  · rintro _ ⟨⟩
    show (s'.database.ledger.currencies.insert _).Owns id s.database.ledger.currencies.nextId
    rw [hnext]
    exact howns _
  · rintro t t' rfl - hmem hbeside
    obtain ⟨a, ha⟩ := hu.readable id
    obtain ⟨b, hb⟩ := readable_user
      (u := { u with fixedCurrency := some s.database.ledger.currencies.nextId }) rfl ha rfl rfl
    exact agrees_found hbeside hin hmem (hall _) rfl hb (agrees_pure hbeside b)

theorem agrees_registerUser (h : s.Beside v s') (hall : ∀ n, v.sees n = true)
    (hlate : v.late (.operational noRoom)) (username password currency : Value) :
    Agrees v false (registerUser username password currency) s s' := by
  refine ((consults_newUser h username password).before fun u t t' run _ ht still _ =>
    agrees_optionally ht fun name hname => (agrees_transaction ht fun w w' hw hin hd _ => ?_).bind
      fun r _ _ _ _ hz => agrees_announced hz r).logged
  have hu := fresh_of_newUser run
  refine agrees_insertUser hw hin hall hlate hu fun x y y' hrow hnone hnone' hcurrencies hiny hy => ?_
  cases name with
  | none => exact agrees_pure hy x
  | some n =>
    exact agrees_firstCurrency hy hiny hall hlate hu (Check.name_ok (hname n rfl)).2 hrow hnone
      hnone'

/-! ## Accounts that are there -/

theorem consults_passwordMatches (h : s.Beside v s') (u : Row User) (password : Value) :
    Consults v (passwordMatches u password) s s' := by
  unfold passwordMatches
  split
  · exact consults_fail h _
  · exact consults_get (consults_pure h _) (by rw [h.scheme])

theorem consults_verifyCredentials (h : s.Beside v s') (hall : ∀ n, v.sees n = true)
    (username password : Value) : Consults v (verifyCredentials username password) s s' := by
  refine .either (consults_findByUsername h hall username) (consults_pure h none)
    fun found t t' ht => ?_
  cases found with
  | none => exact consults_pure ht none
  | some u =>
    refine .ite (consults_pure ht none)
      ((consults_passwordMatches ht u password).bind fun right _ _ _ _ hw _ _ => ?_)
    exact .ite (consults_pure hw _)
      ((consults_emit hw _ _ _ _).bind fun _ _ _ _ _ hz _ _ => consults_pure hz none)

/-- A password is changed in the row of its user. -/
theorem agrees_changePassword (h : s.Beside v s') (hu : v.Covers user) (old new : Value) :
    Agrees v false (changePassword user old new) s s' := by
  refine (agrees_lift h fun p _ =>
    (consults_requireUser h hu).before fun a w w' run _ hw still _ => ?_).logged
  obtain ⟨r, hr, hrid⟩ := requireUser_found hu.isId run
  rw [← still.database] at hr
  have hend {z z' : Session} (hz : z.Beside v z') (hd : z.database = w.database) (right : Bool) :
      Agrees v false (if !right then do
          emit .warning .users "Password change refused" [("user_id", user)]
          pure false
        else do
          let hash ← hashed p
          let _ ← transaction (updatePassword user (.text hash))
          emit .info .users "Password changed" [("user_id", user)]
          pure true : Op Bool) z z' := by
    split
    · exact agrees_announced hz false
    · refine (consults_hashed hz p).before fun hash y y' _ _ hy hstill _ => ?_
      refine (agrees_transaction hy fun x x' hx hin hdx _ => ?_).bind
        fun _ _ _ _ _ hx => agrees_announced hx true
      rw [← hd, ← hstill.database, ← hdx] at hr
      unfold updatePassword
      rw [← bind_pure (update User user _)]
      refine agrees_update (ρ := User) hx hin hr hrid (hu.sees _ hrid) rfl (by simp) rfl rfl
        (assign_password hash (hx.intact.users.proper r hr)) (fun l hi hrl _ => ?_)
        fun _ _ _ _ _ hbeside => agrees_pure hbeside true
      exact hi.reviseUser (u := { r.data with passwordHash := hash }) hrl rfl (hi.reporting r hrl)
  dsimp only
  split
  · exact (consults_passwordMatches hw a old).before fun right _ _ _ _ hz hstill _ =>
      hend hz hstill.database right
  · exact (consults_pure hw false).before fun right _ _ _ _ hz hstill _ =>
      hend hz hstill.database right

/-- The currency to report in is looked up first, so it is the user's own. -/
theorem agrees_chooseFixedCurrency (h : s.Beside v s') (hu : v.Covers user) {currency : Value}
    (hc : currency.isId = true) :
    Agrees v false (chooseFixedCurrency user currency) s s' := by
  refine Agrees.logged ((agrees_transaction h fun w w' hw hin _ _ => ?_).bind
    fun r _ _ _ _ hz => agrees_announced hz r)
  refine agrees_required hw hin hu fun r a hr hr' hrid hsees hd => ?_
  refine agrees_whether (P := (∀ n, currency.id? = some n →
      w.database.ledger.currencies.Owns r.id n ∧ w'.database.ledger.currencies.Owns r.id n))
    (fun hnull n hn => ?_) (fun _ k hk => ?_) fun hown => ?_
  · cases currency with
    | null => cases hn
    | _ => cases hnull
  · refine agrees_loaded hw hin hu hc fun c b hmem hmem' hcid hco _ _ _ => hk fun n hn => ?_
    have hcn : c.id = n := Option.some.inj (hcid.symm.trans hn)
    have howner : c.data.owner = r.id := Option.some.inj (hco.symm.trans hrid)
    exact ⟨⟨c, hmem, hcn, howner⟩, c, hmem', hcn, howner⟩
  · refine agrees_setFixedCurrency hw hin hr hrid hsees hc (fun n hn => (hown n hn).1)
      (fun n hn => (hown n hn).2) ?_
    rintro t t' rfl - hmem hbeside
    obtain ⟨b, hb⟩ := readable_user (u := (reportingIn currency.id? r).data)
      (hw.intact.users.proper r hr) hd rfl rfl
    exact agrees_find hbeside hin hmem hsees hrid hb

/-- Of integers that are no flags an update of the account is refused, or they cannot be stored. -/
theorem refuses_enabled {flag : Int} {r : Row User} (h0 : flag ≠ 0) (h1 : flag ≠ 1)
    (hid : user.id? = some r.id) :
    ∃ (e : Failure) (bs : List Breach), ∀ z : Session, z.Ready → Intact z.database.ledger →
      r ∈ z.database.ledger.users.rows → (update User user [("enabled", .int flag)]).exec z
        = (.error e, { z with breaches := z.breaches ++ bs }) := by
  cases hc : paramFields [("enabled", .int flag)] with
  | error e =>
    refine ⟨e, [], fun z hz _ _ => ?_⟩
    rw [exec_update_unstorable (ρ := User) hz (by simp) rfl hc, List.append_nil]
  | ok cells =>
    obtain rfl : cells = [("enabled", .integer flag)] := by
      by_cases hn : fitsInteger flag = true
      · simpa [paramFields, param_int hn, bind, Except.bind, eq_comm] using hc
      · simp [paramFields, param, Cell.ofValue, hn, bind, Except.bind, Except.mapError] at hc
    obtain ⟨b, hb⟩ := assign_notEnabled h0 h1 r
    exact ⟨_, [b], fun z hz hi hr => exec_update_refused hz hi hr hid (by simp) rfl hc hb⟩

/-- An account is enabled or disabled by a truth value. Another integer is refused, in both
databases. -/
theorem agrees_setEnabled {enabled : Value} {r : Row User} {f : Bool → Op α} (h : s.Beside v s')
    (hin : s.inBlock = true) (hr : r ∈ s.database.ledger.users.rows)
    (hid : user.id? = some r.id) (hsees : v.sees r.id = true)
    (hflag : v.strict → ∃ b, enabled = .bool b)
    (hnext : ∀ b t t', ⟨r.id, { r.data with enabled := b }, []⟩ ∈ t.database.ledger.users.rows →
      t.inBlock = true → t.Beside v t' → Agrees v true (f true) t t') :
    Agrees v false (Store.setEnabled user enabled >>= f) s s' := by
  unfold Store.setEnabled
  rw [bind_assoc]
  refine agrees_lift h fun flag hwhole => ?_
  have hset (b : Bool) (hcells : paramFields [("enabled", .int flag)]
      = .ok [("enabled", Cell.ofBool b)]) :
      Agrees v false (update User user [("enabled", .int flag)] >>= f) s s' := by
    refine agrees_update (ρ := User) h hin hr hid hsees rfl (by simp) rfl hcells
      (assign_enabled b (h.intact.users.proper r hr)) (fun l hi hrl _ => ?_) ?_
    · exact hi.reviseUser (u := { r.data with enabled := b }) hrl rfl (hi.reporting r hrl)
    · rintro t t' rfl - hmem hbeside
      exact hnext b _ _ hmem hin hbeside
  by_cases h0 : flag = 0
  · subst h0
    exact hset false rfl
  by_cases h1 : flag = 1
  · subst h1
    exact hset true rfl
  -- what is left can be no flag, so constraints are not under comparison
  have hlax : ¬ v.strict := fun hv => by
    obtain ⟨b, rfl⟩ := hflag hv
    cases b <;> cases hwhole
    · exact h0 rfl
    · exact h1 rfl
  obtain ⟨e, bs, refused⟩ := refuses_enabled h0 h1 hid
  have hrun := refused s (h.ready hin) h.intact hr
  have hrun' := refused s' (h.ready' hin) h.intact' (h.mem (ρ := User) hr hsees)
  have hpaired : Session.Paired v { s with breaches := s.breaches ++ bs }
      { s' with breaches := s'.breaches ++ bs } :=
    { h.toPaired with }
  refine .error (by rw [Op.exec_bind, hrun]) (by rw [Op.exec_bind, hrun']) hpaired
    ⟨.inl rfl, fun hv => absurd hv hlax⟩ ⟨.inl rfl, fun hv => absurd hv hlax⟩
    fun _ => ⟨?_, .inr ⟨rfl, rfl, rfl⟩⟩
  exact ⟨hpaired, h.toBeside, h.timely⟩

theorem agrees_enableUser (h : s.Beside v s') (hu : v.Covers user) {enabled : Value}
    (hflag : v.strict → ∃ b, enabled = .bool b) :
    Agrees v false (enableUser user enabled) s s' := by
  refine Agrees.logged ((agrees_transaction h fun w w' hw hin _ _ => ?_).bind
    fun r _ _ _ _ hz => agrees_announced hz r)
  refine agrees_required hw hin hu fun r a hr hr' hrid hsees hd => ?_
  refine agrees_setEnabled hw hin hr hrid hsees hflag fun b t t' hmem hint hbeside => ?_
  obtain ⟨c, hc⟩ := readable_user (u := { r.data with enabled := b })
    (hw.intact.users.proper r hr) hd rfl rfl
  exact agrees_find hbeside hint hmem hsees hrid hc

/-! ## Removing an account -/

section

variable {l : Ledger} (h : Intact l)

include h

/-- Entries can go, since nothing refers to them. -/
theorem intact_eraseEntries (p : Row StoredEntry → Bool) :
    Intact { l with entries := l.entries.erase p } :=
  { h with
    entries := h.entries.erase p
    filed := fun e he => { h.filed e (Table.mem_erase.1 he).1 with } }

/-- A user without entries does not need the sources and categories. -/
theorem intact_eraseSources {uid : Int} (hentries : ∀ e ∈ l.entries.rows, e.data.owner ≠ uid) :
    Intact { l with sources := l.sources.erase fun r => r.data.owner == uid } := by
  refine (Step.dropSource _ fun r hr hp e he => ⟨fun hid => ?_, fun hid => ?_⟩).intact h
  · exact hentries e he ((h.source_owner he hr (.inl hid)).trans (beq_iff_eq.1 hp))
  · exact hentries e he ((h.source_owner he hr (.inr hid)).trans (beq_iff_eq.1 hp))

theorem intact_eraseCategories {uid : Int} (hentries : ∀ e ∈ l.entries.rows, e.data.owner ≠ uid) :
    Intact { l with categories := l.categories.erase fun r => r.data.owner == uid } := by
  refine (Step.dropCategory _ fun r hr hp e he hid => ?_).intact h
  exact hentries e he ((h.category_owner he hr hid).trans (beq_iff_eq.1 hp))

/-- A user without entries and sources who reports in no currency does not need the currencies. -/
theorem intact_eraseCurrencies {uid : Int} (hentries : ∀ e ∈ l.entries.rows, e.data.owner ≠ uid)
    (hsources : ∀ x ∈ l.sources.rows, x.data.owner ≠ uid)
    (hunset : ∀ u ∈ l.users.rows, u.id = uid → u.data.fixedCurrency = none) :
    Intact { l with currencies := l.currencies.erase fun r => r.data.owner == uid } := by
  refine (Step.dropCurrency _ (fun r hr hp u hu hid => ?_) (fun r hr hp x hx hid => ?_)
    fun r hr hp e he hid => ?_).intact h
  · rw [hunset u hu ((h.reporting_owner hr hu hid).trans (beq_iff_eq.1 hp))] at hid
    cases hid
  · exact hsources x hx ((h.funded_owner hr hx hid).trans (beq_iff_eq.1 hp))
  · exact hentries e he ((h.currency_owner he hr hid).trans (beq_iff_eq.1 hp))

end

/-- Once the rows of a user are gone, no row is the user's. -/
theorem owner_erased {ρ : Type} [Owned ρ] (t : Table ρ) (uid : Int) :
    ∀ x ∈ (t.erase fun x => Owned.owner x.data == uid).rows, Owned.owner x.data ≠ uid :=
  fun x hx => by simpa using (Table.mem_erase.1 hx).2

/-- A user who is made to report in no currency does so. -/
theorem unset_reportingIn {t : Table User} {r : Row User} :
    ∀ u ∈ (t.replace r.id (reportingIn none r)).rows, u.id = r.id → u.data.fixedCurrency = none := by
  intro u hu hid
  rcases (Table.mem_replace (r := reportingIn none r)).1 hu with ⟨rfl, -⟩ | ⟨-, hne⟩
  · rfl
  · exact absurd hid hne

/-- It does not matter that the account was changed before it is removed. -/
theorem erase_reportingIn (t : Table User) (r : Row User) :
    (t.replace r.id (reportingIn none r)).erase (fun x => x.id == r.id)
      = t.erase fun x => x.id == r.id :=
  Table.erase_replace t (reportingIn none r)

/-- What a user owns is removed table by table, what refers before what is referred to. -/
theorem agrees_deleteUser (h : s.Beside v s') (hu : v.Covers user) :
    Agrees v false (deleteUser user) s s' := by
  refine Agrees.logged ((agrees_transaction h fun w w' hw hin _ _ => ?_).bind
    fun r _ _ _ _ hz => agrees_announced hz r)
  refine agrees_required hw hin hu fun r a hr hr' hrid hsees hd => ?_
  have hfit := hw.intact.users.fits r hr
  have hlast {l : Ledger} (hi : Intact l) : Intact { l.without r.id with
      users := (l.users.replace r.id (reportingIn none r)).erase fun x => x.id == r.id } := by
    rw [erase_reportingIn]
    exact hi.without r.id
  refine (writes_deleteByUser (ρ := StoredEntry) hw hin hrid hfit hsees
    (intact_eraseEntries hw.intact _) (intact_eraseEntries hw.intact' _)).before hw fun h₁ => ?_
  refine (writes_deleteByUser (ρ := Source) h₁ hin hrid hfit hsees
    (intact_eraseSources h₁.intact (owner_erased _ _))
    (intact_eraseSources h₁.intact' (owner_erased _ _))).before h₁ fun h₂ => ?_
  refine (writes_deleteByUser (ρ := Category) h₂ hin hrid hfit hsees
    (intact_eraseCategories h₂.intact (owner_erased _ _))
    (intact_eraseCategories h₂.intact' (owner_erased _ _))).before h₂ fun h₃ => ?_
  refine agrees_setFixedCurrency (r := r) h₃ hin hr hrid hsees rfl (by simp [Value.id?])
    (by simp [Value.id?]) ?_
  rintro _ _ rfl rfl hmem h₄
  refine (writes_deleteByUser (ρ := Currency) h₄ hin hrid hfit hsees
    (intact_eraseCurrencies h₄.intact (owner_erased _ _) (owner_erased _ _) unset_reportingIn)
    (intact_eraseCurrencies h₄.intact' (owner_erased _ _) (owner_erased _ _)
      unset_reportingIn)).before h₄ fun h₅ => ?_
  refine (writes_delete (ρ := User) h₅ hin (r := reportingIn none r) hmem hrid hsees
    (hlast hw.intact) (hlast hw.intact')).before h₅ fun h₆ => ?_
  exact agrees_pure h₆ _

end Bookkeeping.Service
