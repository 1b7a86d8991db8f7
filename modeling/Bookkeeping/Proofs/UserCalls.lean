import Bookkeeping.Proofs.Interruption
import Bookkeeping.Proofs.Removals

/-! # Calls on users

Making, changing and removing accounts. A user who reports in a currency reports in one of the
user's own, and a user who is removed leaves nothing behind.
-/

namespace Bookkeeping.Store

variable {s t : Session}

/-! ## Changing an account -/

/-- Changing an account changes its row, if there is one. -/
theorem updateUser_ok (change : User → User) (h : s.Ready) (hi : Intact s.database.ledger)
    {id : Value} {fields : List (String × Value)} {done : Bool} (hid : id.isId = true)
    (hf : fields ≠ [])
    (hassigned : ∀ cells (old r : Row User), paramFields fields = .ok cells → old.odd = [] →
      Ledger.assigned Relation.columns cells old = .ok r → r = ⟨old.id, change old.data, []⟩)
    (hx : (update User id fields).exec s = (.ok done, t)) :
    t = s ∨ ∃ r ∈ s.database.ledger.users.rows, id.id? = some r.id ∧
      t = s.put { s.database.ledger with
        users := s.database.ledger.users.replace r.id ⟨r.id, change r.data, []⟩ } := by
  rcases update_ok h hid hf hx with ⟨rfl, -⟩ | ⟨cells, old, r, hc, hold, hoid, ha, -, rfl⟩
  · exact .inl rfl
  · obtain rfl := hassigned cells old r hc (hi.users.proper old hold) ha
    exact .inr ⟨old, hold, hoid, rfl⟩

/-- An account that keeps its name and the currency that its user reports in may change otherwise. -/
theorem settles_updateUser (change : User → User) (h : s.Ready) (hi : Intact s.database.ledger)
    {id : Value} {fields : List (String × Value)} {done : Bool} (hid : id.isId = true)
    (hf : fields ≠ [])
    (hassigned : ∀ cells (old r : Row User), paramFields fields = .ok cells → old.odd = [] →
      Ledger.assigned Relation.columns cells old = .ok r → r = ⟨old.id, change old.data, []⟩)
    (hname : ∀ u, (change u).username = u.username)
    (hreport : ∀ u, (change u).fixedCurrency = u.fixedCurrency)
    (hx : (update User id fields).exec s = (.ok done, t)) : s.Settles t := by
  rcases updateUser_ok change h hi hid hf hassigned hx with rfl | ⟨r, hr, hrid, rfl⟩
  · exact .refl rfl
  · exact .step rfl (.reviseUser r _ hr (hname _) fun c hc => .inl ((hreport _).symm.trans hc))

theorem assigned_password {hash : String} {cells : List (String × Cell)} {old r : Row User}
    (hc : paramFields [("password", .text hash)] = .ok cells) (ho : old.odd = [])
    (h : Ledger.assigned Relation.columns cells old = .ok r) :
    r = ⟨old.id, { old.data with passwordHash := hash }, []⟩ := by
  cases hc
  rw [assigned_single rfl] at h
  cases h
  simp [Row.put, Row.oddBut, ho, Column.text]

/-- Of the integers only 0 and 1 can be stored as a flag. -/
theorem assigned_enabled {n : Int} {cells : List (String × Cell)} {old r : Row User}
    (hc : paramFields [("enabled", .int n)] = .ok cells) (ho : old.odd = [])
    (h : Ledger.assigned Relation.columns cells old = .ok r) :
    r = ⟨old.id, { old.data with enabled := n == 1 }, []⟩ := by
  have hcells : cells = [("enabled", .integer n)] := by
    by_cases hn : fitsInteger n = true
    · simpa [paramFields, param_int hn, bind, Except.bind, eq_comm] using hc
    · simp [paramFields, param, Cell.ofValue, hn, bind, Except.bind, Except.mapError] at hc
  rw [hcells, assigned_single rfl] at h
  by_cases h0 : n = 0
  · subst h0
    cases h
    simp [Row.put, Row.oddBut, ho]
  · by_cases h1 : n = 1
    · subst h1
      cases h
      simp [Row.put, Row.oddBut, ho]
    · simp [Column.store, Column.flag, Cell.convert, bind, Except.bind, h0, h1] at h

theorem assigned_fixedCurrency {v : Value} (hv : v.isId = true) {cells : List (String × Cell)}
    {old r : Row User} (hc : paramFields [("fixed_currency_id", v)] = .ok cells) (ho : old.odd = [])
    (h : Ledger.assigned Relation.columns cells old = .ok r) :
    r = ⟨old.id, { old.data with fixedCurrency := v.id? }, []⟩ := by
  have hcells : cells = [("fixed_currency_id", .ofInt? v.id?)] := by
    cases v with
    | null =>
      cases hc
      rfl
    | bool b =>
      cases hc
      rfl
    | int n =>
      by_cases hn : fitsInteger n = true
      · simpa [paramFields, param_int hn, bind, Except.bind, eq_comm, Cell.ofInt?, Value.id?] using hc
      · simp [paramFields, param, Cell.ofValue, hn, bind, Except.bind, Except.mapError] at hc
    | _ => cases hv
  rw [hcells, assigned_single rfl] at h
  cases hid : v.id? <;> rw [hid] at h <;> cases h <;> simp [Row.put, Row.oddBut, ho]

/-- Choosing the currency that a user reports in changes the row of the user. -/
theorem setFixedCurrency_ok (h : s.Ready) (hi : Intact s.database.ledger) {user currency : Value}
    {done : Bool} (hu : user.isId = true) (hc : currency.isId = true)
    (hx : (setFixedCurrency user currency).exec s = (.ok done, t)) :
    t.Ready ∧ (t = s ∨ ∃ r ∈ s.database.ledger.users.rows, user.id? = some r.id ∧
      t = s.put { s.database.ledger with
        users := s.database.ledger.users.replace r.id
          ⟨r.id, { r.data with fixedCurrency := currency.id? }, []⟩ }) :=
  ⟨update_ready h hu (by simp) hx,
    updateUser_ok (fun u => { u with fixedCurrency := currency.id? }) h hi hu (by simp)
      (fun _ _ _ hcells ho ha => assigned_fixedCurrency hc hcells ho ha) hx⟩

end Bookkeeping.Store

namespace Bookkeeping.Service

open Store

variable {s t : Session}

/-! ## Making accounts -/

theorem findByUsername_ready (h : s.Ready) {username : Value} {found : Option (Row User)}
    (hx : (findByUsername username).exec s = (.ok found, t)) : t = s := by
  obtain ⟨n, -, hs⟩ := Op.lift_bind_ok hx
  rw [exec_selectOne User h] at hs
  exact (congrArg Prod.snd hs).symm

theorem newUser_ok {username password : Value} {u : User}
    (hx : (newUser username password).exec s = (.ok u, t)) :
    u.fixedCurrency = none ∧ t.database = s.database ∧ (s.Idle → t.Idle) := by
  obtain ⟨n, -, h₁⟩ := Op.lift_bind_ok hx
  obtain ⟨p, -, h₂⟩ := Op.lift_bind_ok h₁
  obtain ⟨hash, x₃, hh, h₃⟩ := Op.bind_ok h₂
  cases hh
  obtain ⟨hrec, rfl⟩ := Op.lift_ok h₃
  obtain ⟨item, hread, rfl⟩ := read_of_recordOf hrec
  obtain ⟨_, _, -, -, rfl⟩ := User.read_ok.1 hread
  exact ⟨rfl, rfl, fun h => ⟨h.outside, h.layout, h.fuse, h.breaks⟩⟩

/-- A new account has a name that nobody uses. -/
theorem insertUser_ok (h : s.Ready) (hi : Intact s.database.ledger) {u : User} {row : Row User}
    (hunset : u.fixedCurrency = none) (hx : (insertUser u).exec s = (.ok row, t)) :
    row.id = s.database.ledger.users.nextId ∧
      t = s.put { s.database.ledger with users := s.database.ledger.users.insert u } ∧
      Step s.database.ledger { s.database.ledger with users := s.database.ledger.users.insert u } := by
  obtain ⟨found, v, hf, hm⟩ := Op.bind_ok hx
  obtain rfl := findByUsername_ready h hf
  cases found with
  | some r => cases hm
  | none =>
    obtain ⟨hins, hread, rfl⟩ := (insert_ok h hi.users).1 hm
    obtain ⟨n, k, -, -, rfl⟩ := (reread_user rfl).1 hread
    refine ⟨rfl, rfl, .addUser u hins.room (fun r hr hname => ?_) hunset⟩
    have hclash := hins.fresh r hr
    simp [Ledger.clash, Relation.key, Persistent.encode, Cell.same, hname] at hclash

theorem settles_createUser (hs : s.Idle) (hi : Intact s.database.ledger)
    {username password : Value} {row : Row User}
    (hx : (createUser username password).exec s = (.ok row, t)) : s.Settles t := by
  obtain ⟨u, v, hu, h₁⟩ := Op.bind_ok (logged_ok hx)
  obtain ⟨hunset, hdb, hidle⟩ := newUser_ok hu
  obtain ⟨w, htx, hdone⟩ := announced_ok h₁
  rw [Session.Settles, hdone, ← hdb]
  refine settles_transaction (hidle hs) htx fun z hz => ?_
  obtain ⟨-, rfl, hstep⟩ :=
    insertUser_ok (hidle hs).ready (show Intact v.database.ledger from hdb ▸ hi) hunset hz
  exact .step rfl hstep

/-- A registered user's first currency is made, and nobody but that user comes to report in it. -/
theorem firstCurrency_ok (hr : s.Ready) (hi : Intact s.database.ledger) {id : Int} {name : String}
    {row : Row User} (hid : s.database.ledger.users.Has id)
    (hx : (do
      let c ← Store.insert Currency (← recordOf Currency
        [("user_id", .int id), ("name", .text name), ("rate_to_fixed", .float 1)])
      let _ ← Store.setFixedCurrency (.int id) (.int c.id)
      match ← find User (.int id) with
      | some row => pure row
      | none => Op.fail (.misuse .noAttribute)).exec s = (.ok row, t)) :
    row.id = id ∧ ∃ c users, c.owner = id ∧ c.archived = false ∧
      (∀ x ∈ users.rows, ∀ k, x.data.fixedCurrency = some k →
        (∃ r ∈ s.database.ledger.users.rows, r.id = x.id ∧ r.data.fixedCurrency = some k) ∨
          x.id = id ∧ k = s.database.ledger.currencies.nextId) ∧
      t.database = s.database.withLedger { s.database.ledger with
        users, currencies := s.database.ledger.currencies.insert c } ∧
      Relation.ReflTransGen Step s.database.ledger { s.database.ledger with
        users, currencies := s.database.ledger.currencies.insert c } := by
  obtain ⟨rec, x₁, hrec, h₁⟩ := Op.bind_ok hx
  obtain ⟨hread, hx₁⟩ := Op.lift_ok hrec
  rw [hx₁] at h₁
  obtain ⟨item, hitem, rfl⟩ := read_of_recordOf hread
  obtain ⟨c, x₂, hc, h₂⟩ := Op.bind_ok h₁
  obtain ⟨hins, hdec, rfl⟩ := (insert_ok hr hi.currencies.tidy).1 hc
  let made : Currency := Persistent.encode (ρ := Currency) s.now item.data
  obtain ⟨_, _, _, hid', -, -, rfl⟩ := Currency.read_ok.1 hitem
  have howner : made.owner = id := (Reading.ok_inj.1 hid').symm
  have howned : s.database.ledger.users.Has (Owned.owner made) := by
    show s.database.ledger.users.Has made.owner
    rw [howner]
    exact hid
  have hactive : made.archived = false := rfl
  have hstep := Step.addCurrency made (hins.admits hi.currencies.tidy howned hdec)
  obtain ⟨done, x₃, hset, h₃⟩ := Op.bind_ok h₂
  obtain ⟨n, -, -, -, rfl⟩ := (reread_currency rfl).1 hdec
  obtain ⟨hr', hchosen⟩ := setFixedCurrency_ok (hr.put _) (hstep.intact hi) rfl rfl hset
  obtain ⟨found, x₄, hfind, h₄⟩ := Op.bind_ok h₃
  obtain ⟨rfl, hpick⟩ := find_ok User hr' rfl hfind
  obtain ⟨ht, rfl⟩ : t = x₄ ∧ found = some row := by
    cases found with
    | none => cases h₄
    | some row =>
      obtain ⟨rfl, rfl⟩ := Op.pure_ok h₄
      exact ⟨rfl, rfl⟩
  subst ht
  obtain ⟨x, hx, hdecode⟩ := pick_some.1 hpick
  have hrow : row.id = id := by
    have hxid : (Value.int id).id? = some x.id := by simpa using List.find?_some hx
    rw [id_of_reread hdecode, ← Option.some.inj hxid]
  refine ⟨hrow, ?_⟩
  rcases hchosen with rfl | ⟨r, hmem, hrid, rfl⟩
  · exact ⟨made, s.database.ledger.users, howner, hactive, fun x hx k hk => .inl ⟨x, hx, rfl, hk⟩, rfl,
      .single hstep⟩
  · cases hrid
    refine ⟨made, s.database.ledger.users.replace r.id
      ⟨r.id, { r.data with fixedCurrency := some s.database.ledger.currencies.nextId }, []⟩, howner,
      hactive, fun x hx k hk => ?_, rfl, .tail (.single hstep) (.reviseUser r _ hmem rfl ?_)⟩
    · rcases (Table.mem_replace (r := ⟨r.id, { r.data with
        fixedCurrency := some s.database.ledger.currencies.nextId }, []⟩)).1 hx with ⟨rfl, -⟩ | ⟨hx, -⟩
      · exact .inr ⟨rfl, (Option.some.inj hk).symm⟩
      · exact .inl ⟨x, hx, rfl, hk⟩
    · intro k hk
      cases hk
      exact .inr ⟨_, Table.mem_insert.2 (.inr rfl), rfl, howner, hactive⟩

theorem settles_registerUser (hs : s.Idle) (hi : Intact s.database.ledger)
    {username password currency : Value} {row : Row User}
    (hx : (registerUser username password currency).exec s = (.ok row, t)) : s.Settles t := by
  obtain ⟨u, v, hu, h₁⟩ := Op.bind_ok (logged_ok hx)
  obtain ⟨hunset, hdb, hidle⟩ := newUser_ok hu
  obtain ⟨name, -, h₂⟩ := Op.optionally_ok h₁
  obtain ⟨w, htx, hdone⟩ := announced_ok h₂
  rw [Session.Settles, hdone, ← hdb]
  have hr := (hidle hs).ready
  have hiv : Intact v.start.database.ledger := hdb ▸ hi
  refine settles_transaction (hidle hs) htx fun z hz => ?_
  cases name with
  | none =>
    obtain ⟨row, x₁, hins, hpure⟩ := Op.bind_ok hz
    obtain ⟨-, rfl⟩ := Op.pure_ok hpure
    obtain ⟨-, rfl, hstep⟩ := insertUser_ok hr hiv hunset hins
    exact .step rfl hstep
  | some name =>
    obtain ⟨row, x₁, hins, h₄⟩ := Op.bind_ok hz
    obtain ⟨hid, rfl, hstep⟩ := insertUser_ok hr hiv hunset hins
    obtain ⟨-, c, users, howner, hactive, hreport, hdb', hsteps⟩ := firstCurrency_ok (hr.put _)
      (hstep.intact hiv) ⟨_, Table.mem_insert.2 (.inr rfl), hid.symm⟩ h₄
    refine ⟨_, hdb', .head hstep hsteps, .of_users (fun x hx k hk => ?_) rfl rfl⟩
    rcases hreport x hx k hk with ⟨r, hmem, hrid, hrk⟩ | ⟨hxid, rfl⟩
    · rcases Table.mem_insert.1 (show r ∈ (v.database.ledger.users.insert u).rows from hmem) with
        hmem | rfl
      · exact .inl ⟨r, hmem, hrid, hrk⟩
      · rw [hunset] at hrk
        cases hrk
    · refine .inr (.inr ⟨?_, _, Table.mem_insert.2 (.inr rfl), rfl, howner.trans hxid.symm, hactive⟩)
      rintro ⟨r, hr, hid⟩
      exact (Table.id_lt_nextId _ hr).ne hid

/-! ## Changing accounts -/

theorem settles_enableUser (hs : s.Idle) (hi : Intact s.database.ledger) {user enabled : Value}
    {found : Option (Row User)} (hu : user.isId = true)
    (hx : (enableUser user enabled).exec s = (.ok found, t)) : s.Settles t := by
  obtain ⟨w, htx, hdone⟩ := announced_ok (logged_ok hx)
  rw [Session.Settles, hdone]
  refine settles_transaction hs htx fun z hz => ?_
  have hr := hs.ready
  obtain ⟨_, x₁, hf, h₂⟩ := Op.bind_ok hz
  obtain ⟨rfl, -⟩ := requireUser_ok hr hu hf
  obtain ⟨done, x₂, hset, hfind⟩ := Op.bind_ok h₂
  obtain ⟨flag, -, hup⟩ := Op.lift_bind_ok hset
  obtain ⟨rfl, -⟩ := find_ok User (update_ready hr hu (by simp) hup) hu hfind
  have hassigned (cells : List (String × Cell)) (old r : Row User)
      (hcells : paramFields [("enabled", .int flag)] = .ok cells) (ho : old.odd = [])
      (ha : Ledger.assigned Relation.columns cells old = .ok r) :
      r = ⟨old.id, { old.data with enabled := flag == 1 }, []⟩ :=
    assigned_enabled hcells ho ha
  exact settles_updateUser (fun u => { u with enabled := flag == 1 }) hr hi hu (by simp) hassigned
    (fun _ => rfl) (fun _ => rfl) hup

/-- The currency that is chosen was looked up for the same user. -/
theorem settles_chooseFixedCurrency (hs : s.Idle) (hi : Intact s.database.ledger)
    {user currency : Value} {found : Option (Row User)} (hu : user.isId = true)
    (hc : currency.isId = true)
    (hx : (chooseFixedCurrency user currency).exec s = (.ok found, t)) : s.Settles t := by
  obtain ⟨w, htx, hdone⟩ := announced_ok (logged_ok hx)
  rw [Session.Settles, hdone]
  refine settles_transaction hs htx fun z hz => ?_
  have hr := hs.ready
  obtain ⟨_, x₁, hf, h₂⟩ := Op.bind_ok hz
  obtain ⟨rfl, -⟩ := requireUser_ok hr hu hf
  have hown : (∀ n, currency.id? = some n → ∃ c ∈ s.database.ledger.currencies.rows,
      c.id = n ∧ user.id? = some c.data.owner ∧ c.data.archived = false) ∧ ∃ done x₂,
      (Store.setFixedCurrency user currency).exec s.start = (.ok done, x₂) ∧
        (find User user).exec x₂ = (.ok found, z) := by
    dsimp only at h₂
    split at h₂
    · obtain ⟨c, x₃, hload, h₃⟩ := Op.bind_ok h₂
      obtain ⟨rfl, c, hoffered, -⟩ := (loadActive_ok hr hi hi.currencies _ hu hc).1 hload
      refine ⟨fun n hn => ⟨c, hoffered.mem, ?_, hoffered.owner, hoffered.active⟩, Op.bind_ok h₃⟩
      exact Option.some.inj (hoffered.id.symm.trans hn)
    · rename_i hnull
      refine ⟨fun n hn => ?_, Op.bind_ok h₂⟩
      have hnone : currency.isNull = true := by simpa using hnull
      cases currency with
      | null => cases hn
      | _ => cases hnone
  obtain ⟨hown, done, x₂, hset, hfind⟩ := hown
  obtain ⟨hr₂, hchosen⟩ := setFixedCurrency_ok hr hi hu hc hset
  obtain ⟨rfl, -⟩ := find_ok User hr₂ hu hfind
  rcases hchosen with rfl | ⟨u, hmem, huid, rfl⟩
  · exact .refl rfl
  · refine .step rfl (.reviseUser u _ hmem rfl fun n hn => .inr ?_)
    obtain ⟨c, hcm, hcid, hco, hactive⟩ := hown n hn
    rw [huid] at hco
    exact ⟨c, hcm, hcid, (Option.some.inj hco).symm, hactive⟩

/-- What is found out in an idle session leaves it idle. -/
theorem idle_of_quiet {α : Type} {op : Op α} {k : Grade} {Q : α → Prop} {a : α}
    (h : op.Orderly (.calls s.setting) k Q) (hk : k.le .quiet = true) (hs : s.Idle)
    (hx : op.exec s = (.ok a, t)) : t.Idle ∧ t.database = s.database := by
  have hd := h.database_eq hk rfl hx
  have hout := h.ends_outside rfl hs.not_inBlock
  have hcalm : s.calm = s := by
    obtain ⟨-, -, hf, hb⟩ := hs
    cases s
    subst hf hb
    rfl
  have ht : t = t.calm := by
    have h := h.unbroken rfl hx
    rw [hcalm, hx] at h
    exact (Prod.mk.inj h).2
  rw [hx] at hout
  exact ⟨⟨Session.inTransaction_of_breaks (by rw [ht]; rfl) hout, hd ▸ hs.layout, by rw [ht]; rfl,
    by rw [ht]; rfl⟩, hd⟩

theorem passwordMatches_ok {u : Row User} {password : Value} {right : Bool}
    (hx : (passwordMatches u password).exec s = (.ok right, t)) : t = s := by
  unfold passwordMatches at hx
  split at hx
  · cases hx
  · obtain ⟨v, x, hv, hp⟩ := Op.bind_ok hx
    cases hv
    exact (Op.pure_ok hp).2

/-- A password is changed if the user is there and the old one is right. All else is refused. -/
theorem changePassword_ok {user old new : Value} {done : Bool}
    (hx : (changePassword user old new).exec s = (.ok done, t)) :
    ∃ p u x, Check.password new = .ok p ∧ (requireUser user).exec s = (.ok u, x) ∧
      (done = false ∧ t.database = x.database ∨
        done = true ∧ ∃ found y, (transaction (updatePassword user
          (.text (x.scheme.hash x.salts p)))).exec { x with salts := x.salts + 1 } = (.ok found, y) ∧
            t.database = y.database) := by
  obtain ⟨p, hp, h₁⟩ := Op.lift_bind_ok (logged_ok hx)
  obtain ⟨u, x₂, hreq, h₂⟩ := Op.bind_ok h₁
  refine ⟨p, u, x₂, hp, hreq, ?_⟩
  obtain ⟨right, h₃⟩ : ∃ right, (if !right then do
        emit .warning .users "Password change refused" [("user_id", user)]
        pure false
      else do
        let hash ← hashed p
        let _ ← transaction (updatePassword user (.text hash))
        emit .info .users "Password changed" [("user_id", user)]
        pure true : Op Bool).exec x₂ = (.ok done, t) := by
    dsimp only at h₂
    split at h₂
    · obtain ⟨right, x₃, hm, h₃⟩ := Op.bind_ok h₂
      obtain rfl := passwordMatches_ok hm
      exact ⟨right, h₃⟩
    · exact ⟨false, h₂⟩
  split at h₃
  · obtain ⟨_, x₄, he, hp⟩ := Op.bind_ok h₃
    obtain ⟨rfl, rfl⟩ := Op.pure_ok hp
    exact .inl ⟨rfl, (emit_ok he).1⟩
  · obtain ⟨hash, x₄, hh, h₄⟩ := Op.bind_ok h₃
    cases hh
    obtain ⟨found, x₅, htx, h₅⟩ := Op.bind_ok h₄
    obtain ⟨_, x₆, he, hp⟩ := Op.bind_ok h₅
    obtain ⟨rfl, rfl⟩ := Op.pure_ok hp
    exact .inr ⟨rfl, found, x₅, htx, (emit_ok he).1⟩

/-- Changing a password changes one account, without reading it again. -/
theorem settles_changePassword (hs : s.Idle) (hi : Intact s.database.ledger)
    {user old new : Value} {done : Bool} (hu : user.isId = true)
    (hx : (changePassword user old new).exec s = (.ok done, t)) : s.Settles t := by
  obtain ⟨p, u, x, -, hreq, hend⟩ := changePassword_ok hx
  obtain ⟨hs', hd⟩ := idle_of_quiet (orderly_requireUser user) rfl hs hreq
  rcases hend with ⟨-, ht⟩ | ⟨-, found, y, htx, ht⟩
  · exact .refl (ht.trans hd)
  · have hs'' : Session.Idle { x with salts := x.salts + 1 } :=
      ⟨hs'.outside, hs'.layout, hs'.fuse, hs'.breaks⟩
    have hi' : Intact x.database.ledger := hd ▸ hi
    rw [Session.Settles, ht, ← hd]
    have hsettles : Session.Settles { x with salts := x.salts + 1 } y :=
      settles_transaction hs'' htx fun z hz =>
        settles_updateUser (fun u => { u with passwordHash := x.scheme.hash x.salts p }) hs''.ready
          hi' hu (by simp) (fun cells old r hc ho ha => assigned_password hc ho ha) (fun _ => rfl)
          (fun _ => rfl) hz
    exact hsettles

end Bookkeeping.Service

namespace Bookkeeping.Store

variable {s t : Session}

/-! ## Removing an account -/

theorem Table.erase_congr {α : Type} {t : Table α} {p q : Row α → Bool}
    (h : ∀ r ∈ t.rows, p r = q r) : t.erase p = t.erase q := by
  rw [erase, erase, List.filter_congr fun r hr => by rw [h r hr]]

theorem Table.erase_replace {α : Type} (t : Table α) (r : Row α) :
    (t.replace r.id r).erase (fun x => x.id == r.id) = t.erase fun x => x.id == r.id := by
  have hrows : ∀ rows : List (Row α),
      (rows.map fun x => if x.id == r.id then r else x).filter (fun x => !(x.id == r.id))
        = rows.filter fun x => !(x.id == r.id) := by
    intro rows
    induction rows with
    | nil => rfl
    | cons x rows ih =>
      rw [List.map_cons]
      by_cases hx : x.id = r.id
      · rw [if_pos (by simp [hx]), List.filter_cons_of_neg (by simp),
          List.filter_cons_of_neg (by simp [hx]), ih]
      · rw [if_neg (by simp [hx]), List.filter_cons_of_pos (by simp [hx]),
          List.filter_cons_of_pos (by simp [hx]), ih]
  rw [erase, erase, rows_replace, hrows, lastId_replace]

/-- Removing the rows of a user removes the rows whose owner is the user. -/
theorem deleteByUser_ok {ρ α : Type} [OwnedRecord ρ α] (h : s.Ready)
    (ht : (Relation.table (ρ := ρ) s.database.ledger).Tidy) {user : Value} {uid : Int} {n : Nat}
    (hu : user.isId = true) (hid : user.id? = some uid)
    (hx : (deleteByUser ρ user).exec s = (.ok n, t)) :
    ∃ p m, (∀ r ∈ (Relation.table (ρ := ρ) s.database.ledger).rows,
        p r = (Owned.owner r.data == uid)) ∧
      Ledger.remove s.enforce s.database.ledger p = .ok (n, m) ∧ t = s.put m := by
  obtain ⟨m, hrun, rfl⟩ := (write_ok ρ h).1 hx
  cases hc : param user with
  | error e => simp [hc, bind, Except.bind] at hrun
  | ok c =>
    simp only [hc, bind, Except.bind, Except.ok.injEq] at hrun
    refine ⟨_, m, fun r hr => ?_, hrun, rfl⟩
    rw [ownerCell, Row.cell_of_odd_nil r (ht.proper r hr), isInteger_of_isId hu hc, hid]
    simp [eq_comm, beq_eq_decide]

section

variable {user : Value} {uid : Int} {n : Nat} (h : s.Ready) (hu : user.isId = true)
  (hid : user.id? = some uid)

include h hu hid

theorem deleteEntriesOf_ok (ht : s.database.ledger.entries.Tidy)
    (hx : (deleteByUser StoredEntry user).exec s = (.ok n, t)) :
    t = s.put { s.database.ledger with
      entries := s.database.ledger.entries.erase fun r => r.data.owner == uid } := by
  obtain ⟨p, m, hp, hrem, rfl⟩ := deleteByUser_ok h ht hu hid hx
  have hrows : s.database.ledger.entries.erase p
      = s.database.ledger.entries.erase fun r => r.data.owner == uid := Table.erase_congr hp
  rw [remove_entries_ok hrem, hrows]

theorem deleteSourcesOf_ok (ht : s.database.ledger.sources.Tidy)
    (hx : (deleteByUser Source user).exec s = (.ok n, t)) :
    t = s.put { s.database.ledger with
      sources := s.database.ledger.sources.erase fun r => r.data.owner == uid } := by
  obtain ⟨p, m, hp, hrem, rfl⟩ := deleteByUser_ok h ht hu hid hx
  have hrows : s.database.ledger.sources.erase p
      = s.database.ledger.sources.erase fun r => r.data.owner == uid := Table.erase_congr hp
  rw [remove_sources_ok hrem, hrows]

theorem deleteCategoriesOf_ok (ht : s.database.ledger.categories.Tidy)
    (hx : (deleteByUser Category user).exec s = (.ok n, t)) :
    t = s.put { s.database.ledger with
      categories := s.database.ledger.categories.erase fun r => r.data.owner == uid } := by
  obtain ⟨p, m, hp, hrem, rfl⟩ := deleteByUser_ok h ht hu hid hx
  have hrows : s.database.ledger.categories.erase p
      = s.database.ledger.categories.erase fun r => r.data.owner == uid := Table.erase_congr hp
  rw [remove_categories_ok hrem, hrows]

theorem deleteCurrenciesOf_ok (ht : s.database.ledger.currencies.Tidy)
    (hunset : ∀ r ∈ s.database.ledger.currencies.rows, r.data.owner = uid →
      ∀ u ∈ s.database.ledger.users.rows, u.data.fixedCurrency ≠ some r.id)
    (hx : (deleteByUser Currency user).exec s = (.ok n, t)) :
    t = s.put { s.database.ledger with
      currencies := s.database.ledger.currencies.erase fun r => r.data.owner == uid } := by
  obtain ⟨p, m, hp, hrem, rfl⟩ := deleteByUser_ok h ht hu hid hx
  have hm := remove_currencies_ok hrem fun r hr hpr => by
    rw [hp r hr] at hpr
    exact hunset r hr (eq_of_beq hpr)
  have hrows : s.database.ledger.currencies.erase p
      = s.database.ledger.currencies.erase fun r => r.data.owner == uid := Table.erase_congr hp
  rw [hm, hrows]

end

end Bookkeeping.Store

namespace Bookkeeping.Service

open Store

variable {s t : Session}

/-- Removing a user removes everything the user owns, and nothing else. -/
theorem clears_deleteUser (hs : s.Idle) (hi : Intact s.database.ledger) {user : Value}
    {counts : List (String × Nat)} (hu : user.isId = true)
    (hx : (deleteUser user).exec s = (.ok counts, t)) :
    ∃ uid, user.id? = some uid ∧
      t.database = s.database.withLedger (s.database.ledger.without uid) := by
  obtain ⟨w, htx, hdone⟩ := announced_ok (logged_ok hx)
  rw [hdone]
  obtain ⟨z, hz, rfl⟩ := transaction_ok hs.not_inBlock htx
  have hr := hs.ready
  obtain ⟨_, x₁, hf, h₂⟩ := Op.bind_ok hz
  obtain ⟨rfl, owner, hmem, hid⟩ := requireUser_ok hr hu hf
  refine ⟨owner.id, hid, ?_⟩
  obtain ⟨n₁, x₂, hentries, h₃⟩ := Op.bind_ok h₂
  obtain rfl := deleteEntriesOf_ok hr hu hid hi.entries hentries
  obtain ⟨n₂, x₃, hsources, h₄⟩ := Op.bind_ok h₃
  obtain rfl := deleteSourcesOf_ok (hr.put _) hu hid (by exact hi.sources.tidy) hsources
  obtain ⟨n₃, x₄, hcategories, h₅⟩ := Op.bind_ok h₄
  obtain rfl := deleteCategoriesOf_ok (hr.put _) hu hid (by exact hi.categories.tidy) hcategories
  obtain ⟨done, x₅, hunset, h₆⟩ := Op.bind_ok h₅
  rcases update_ok (hr.put _) hu (by simp) hunset with ⟨-, hnone⟩ |
    ⟨cells, old, r', hcells, hold, hoid, hassigned, -, rfl⟩
  · exact absurd hid (hnone owner hmem)
  obtain rfl : old = owner :=
    hi.users.eq_of_id hold hmem (Option.some.inj (hoid.symm.trans hid))
  obtain rfl :=
    assigned_fixedCurrency (v := .null) rfl hcells (hi.users.proper old hold) hassigned
  obtain ⟨n₄, x₆, hcurrencies, h₇⟩ := Op.bind_ok h₆
  -- the only user who may report in a currency of the user's own is the user, who no longer does
  have hunset : ∀ r ∈ s.database.ledger.currencies.rows, r.data.owner = old.id →
      ∀ u ∈ (s.database.ledger.users.replace old.id
        ⟨old.id, { old.data with fixedCurrency := none }, []⟩).rows,
      u.data.fixedCurrency ≠ some r.id := by
    intro r hr hro u hmem hfix
    rcases (Table.mem_replace (r := ⟨old.id, { old.data with fixedCurrency := none }, []⟩)).1 hmem with
      ⟨rfl, -⟩ | ⟨hut, hne⟩
    · cases hfix
    · obtain ⟨c, hc, hcid, hco⟩ := hi.reporting u hut r.id hfix
      obtain rfl := hi.currencies.tidy.eq_of_id hc hr hcid
      exact hne (hco.symm.trans hro)
  obtain rfl := deleteCurrenciesOf_ok (hr.put _) hu hid (by exact hi.currencies.tidy)
    (by exact hunset) hcurrencies
  obtain ⟨gone, x₇, hdel, hpure⟩ := Op.bind_ok h₇
  obtain ⟨-, rfl⟩ := Op.pure_ok hpure
  obtain ⟨n₅, m, hrem, rfl⟩ := delete_ok (hr.put _) hu hdel
  have hm := remove_users_ok hrem fun u hmem hp => by
    have hu : u.id = old.id := by simpa [hid, eq_comm] using hp
    rw [hu]
    exact ⟨fun r hr => by simpa using (Table.mem_erase.1 hr).2,
      fun r hr => by simpa using (Table.mem_erase.1 hr).2,
      fun r hr => by simpa using (Table.mem_erase.1 hr).2,
      fun r hr => by simpa using (Table.mem_erase.1 hr).2⟩
  have husers : (s.database.ledger.users.replace old.id
      ⟨old.id, { old.data with fixedCurrency := none }, []⟩).erase
        (fun r => decide (user.id? = some r.id))
      = s.database.ledger.users.erase fun r => r.id == old.id := by
    rw [← Table.erase_replace _ ⟨old.id, { old.data with fixedCurrency := none }, []⟩]
    exact Table.erase_congr fun r _ => by simp [hid, eq_comm, beq_eq_decide]
  rw [hm, Ledger.without, ← husers]
  rfl

end Bookkeeping.Service
