import Bookkeeping.Proofs.Domains
import Bookkeeping.Proofs.Layers
import Bookkeeping.Proofs.Passwords
import Bookkeeping.Proofs.TwinCalls

/-! # Credentials

A run of calls sets passwords: a new account has one, and a change that is answered with true gives
a user another one. Whatever else is called, and whatever fails, each hash that is stored stays a
hash of the password that was set last for its user. So credentials are verified if they are the
name of a user and the password that was set last for that user, and in no other case.
-/

namespace Bookkeeping

/-- The passwords that were set last, by the ids of users. -/
abbrev LastSet := Int → Option String

/-- The passwords that were set last, after another one was set for a user. -/
def LastSet.set (last : LastSet) (user : Option Int) (password : Value) : LastSet :=
  fun id => if user = some id then password.text? else last id

namespace Service

open Store

/-- The passwords that were set last, after a call with its answer. Only new accounts and changes
that were answered with true set a password. -/
def Call.sets (c : Call) (answer : Except Failure Answer) (last : LastSet) : LastSet :=
  match c, answer with
  | createUser _ password, .ok (.user (some r)) => last.set (some r.id) password
  | registerUser _ password _, .ok (.user (some r)) => last.set (some r.id) password
  | changePassword user _ new, .ok (.flag true) => last.set user.id? new
  | _, _ => last

theorem Call.sets_error (c : Call) (e : Failure) (last : LastSet) : c.sets (.error e) last = last := by
  cases c <;> rfl

theorem Call.sets_of_keeps {c : Call} (h : c.newPasswords = []) (answer : Except Failure Answer)
    (last : LastSet) : c.sets answer last = last := by
  cases c with
  | createUser _ _ => cases h
  | registerUser _ _ _ => cases h
  | changePassword _ _ _ => cases h
  | _ => rfl

end Service

namespace Store

open Service

variable {g : PasswordScheme} {used : String → Prop} {last : LastSet} {s t : Session}

/-! ## Hashes of the passwords set last -/

/-- A hash of the password that was set last for a user. -/
def HashOfLast (g : PasswordScheme) (used : String → Prop) (last : LastSet) (id : Int)
    (hash : String) : Prop :=
  ∃ q n, last id = some q ∧ used q ∧ ValidPassword q ∧ hash = g.hash n q

/-- A table in which the hash of each user is of the password that was set last for the user. -/
def Table.Remembers (t : Table User) (g : PasswordScheme) (used : String → Prop) (last : LastSet) :
    Prop :=
  ∀ r ∈ t.rows, HashOfLast g used last r.id r.data.passwordHash

theorem HashOfLast.set_of_ne {id : Int} {hash : String} (h : HashOfLast g used last id hash)
    {user : Option Int} (hne : user ≠ some id) (password : Value) :
    HashOfLast g used (last.set user password) id hash := by
  obtain ⟨q, n, hq, h⟩ := h
  exact ⟨q, n, by rwa [LastSet.set, if_neg hne], h⟩

theorem HashOfLast.set_same {q : String} {password : Value} (hq : password.text? = some q)
    (hu : used q) (hv : ValidPassword q) (n : Nat) (id : Int) :
    HashOfLast g used (last.set (some id) password) id (g.hash n q) :=
  ⟨q, n, by rw [LastSet.set, if_pos rfl, hq], hu, hv, rfl⟩

namespace Table.Remembers

variable {users : Table User}

/-- A new user is given a first password. -/
theorem insert (h : users.Remembers g used last) {u : User} {password : Value}
    (hash : HashOfLast g used (last.set (some users.nextId) password) users.nextId u.passwordHash) :
    (users.insert u).Remembers g used (last.set (some users.nextId) password) := by
  intro r hr
  rcases mem_insert.1 hr with hr | rfl
  · exact (h r hr).set_of_ne (fun hid => (Table.id_lt_nextId _ hr).ne' (Option.some.inj hid)) password
  · exact hash

/-- A user is given another password. -/
theorem replace (h : users.Remembers g used last) {r : Row User} {password : Value}
    (hash : HashOfLast g used (last.set (some r.id) password) r.id r.data.passwordHash) :
    (users.replace r.id r).Remembers g used (last.set (some r.id) password) := by
  intro x hx
  rcases mem_replace.1 hx with ⟨rfl, -⟩ | ⟨hx, hne⟩
  · exact hash
  · exact (h x hx).set_of_ne (fun hid => hne (Option.some.inj hid).symm) password

end Table.Remembers

/-! ## Operations that set no password -/

/-- Hashes stand for themselves if they are of the passwords that were set last. -/
def Pairing.ofLast (hg : g.Faithful used) (last : LastSet) : Pairing where
  left := g
  right := g
  Paired id h k := k = h ∧ HashOfLast g used last id h
  read := by
    rintro _ _ _ ⟨rfl, q, n, -, hu, hq, rfl⟩
    exact ⟨hg.read hu hq n, hg.read hu hq n⟩

theorem UserTwin.paired {p : Pairing} {r r' : Row User} (h : UserTwin p r r') :
    p.Paired r.id r.data.passwordHash r'.data.passwordHash := by
  cases h with
  | rehashed _ hash => exact hash

/-- A database whose users remember their passwords is its own twin. -/
theorem Database.twin_ofLast {hg : g.Faithful used} {db : Database}
    (ho : ∀ r ∈ db.ledger.users.rows, r.odd = [])
    (hr : db.ledger.users.Remembers g used last) : db.Twin (.ofLast hg last) db := by
  refine ⟨rfl, rfl, List.forall₂_same.2 fun r hmem => ?_, rfl, rfl⟩
  exact .rehashed (r := r) (by rw [ho r hmem]; rfl) ⟨rfl, hr r hmem⟩

/-- An operation that is its own twin keeps every hash one of the password that was set last. -/
theorem Op.Twin.remembers {α : Type} {op : Op α} {R : α → α → Prop} {hg : g.Faithful used}
    (h : Op.Twin (.ofLast hg last) R op op) (hs : s.scheme = g)
    (ho : ∀ r ∈ s.database.ledger.users.rows, r.odd = [])
    (hr : s.database.ledger.users.Remembers g used last)
    (hb : ∀ before, s.standing = .inside before →
      (∀ r ∈ before.ledger.users.rows, r.odd = []) ∧ before.ledger.users.Remembers g used last)
    {x : Except Failure α} (hx : op.exec s = (x, t)) :
    t.database.ledger.users.Remembers g used last := by
  have hstanding : s.standing.Twin (.ofLast hg last) s.standing := by
    cases hs' : s.standing with
    | inside before => exact .inside (Database.twin_ofLast (hb before hs').1 (hb before hs').2)
    | outside => exact .outside
    | bereft => exact .bereft
  have hst : s.Twin (.ofLast hg last) s :=
    ⟨Database.twin_ofLast ho hr, hs, hs, rfl, rfl, rfl, hstanding, rfl, rfl, .refl _, rfl, rfl⟩
  obtain ⟨-, htwin⟩ := h s s hst
  rw [hx] at htwin
  exact fun r hmem => (List.forall₂_same.1 htwin.database.ledger.users r hmem).paired.2

end Store

namespace Service

open Store

variable {g : PasswordScheme} {used : String → Prop} {last : LastSet} {s t : Session}

/-! ## Calls that set a password -/

section

variable (hg : g.Faithful used) (hscheme : s.scheme = g)

include hg hscheme

/-- A call that is given no password to keep sets none. -/
theorem Call.remembers_of_keeps (c : Call) (hnone : c.newPasswords = [])
    (hout : s.inBlock = false) (ho : ∀ r ∈ s.database.ledger.users.rows, r.odd = [])
    (hr : s.database.ledger.users.Remembers g used last) :
    (c.run.exec s).2.database.ledger.users.Remembers g used last := by
  have hcandidates (v : Value) : Candidates (.ofLast hg last) v v := by
    refine ⟨rfl, fun _ => ?_⟩
    cases v.text? with
    | none => exact .none
    | some a => exact .some fun id h k hk => by rw [hk.1]; rfl
  have hself : c.withPasswords id = c := by cases c <;> rfl
  have htwin := c.twin (f := id) (p := .ofLast hg last) (by simp [hnone]) fun v _ => hcandidates v
  rw [hself] at htwin
  refine htwin.remembers hscheme ho hr (fun before hin => ?_) rfl
  rw [Session.inBlock_eq_false.1 hout] at hin
  cases hin

/-- The hash of a new account is of the password that it is made with. -/
theorem hash_of_newUser {username password : Value} {u : User}
    (hused : ∀ q, password.text? = some q → used q)
    (hx : (newUser username password).exec s = (.ok u, t)) :
    t.scheme = g ∧ ∀ (last : LastSet) id,
      HashOfLast g used (last.set (some id) password) id u.passwordHash := by
  obtain ⟨n, -, h₁⟩ := Op.lift_bind_ok hx
  obtain ⟨q, hq, h₂⟩ := Op.lift_bind_ok h₁
  obtain ⟨htext, hvalid⟩ := Check.password_ok.1 hq
  obtain ⟨hash, x₃, hh, h₃⟩ := Op.bind_ok h₂
  cases hh
  obtain ⟨hrec, rfl⟩ := Op.lift_ok h₃
  obtain ⟨item, hread, rfl⟩ := read_of_recordOf hrec
  have hparts : ∃ name kept, Part.name (.text n) = .ok name ∧
      Part.boundedText 0 (.text (s.scheme.hash s.salts q)) = .ok kept ∧
      item = { data := { username := name, passwordHash := kept } } := by
    simpa [Record.read, User.read, Record.readId, Part.required, Part.withDefault, List.lookup_cons,
      and_assoc] using hread
  obtain ⟨name, kept, -, hkept, rfl⟩ := hparts
  rw [hscheme, hg.read (hused q htext) hvalid, Reading.ok_inj] at hkept
  exact ⟨hscheme, fun last id => hkept ▸ .set_same htext (hused q htext) hvalid _ id⟩

variable (hs : s.Idle) (hi : Intact s.database.ledger)
  (hr : s.database.ledger.users.Remembers g used last)

include hs hi hr

/-- The row of a new account remembers the password that the account is made with. -/
theorem insertUser_remembers {username password : Value} {u : User} {v : Session} {row : Row User}
    (hused : ∀ q, password.text? = some q → used q)
    (hu : (newUser username password).exec s = (.ok u, v))
    (hx : (insertUser u).exec v.start = (.ok row, t)) :
    t.Ready ∧ t.scheme = g ∧ Intact t.database.ledger ∧
      t.database.ledger.users.Has row.id ∧
      t.database.ledger.users.Remembers g used (last.set (some row.id) password) ∧
      ∀ before, t.standing = .inside before → (∀ r ∈ before.ledger.users.rows, r.odd = []) ∧
        before.ledger.users.Remembers g used (last.set (some row.id) password) := by
  obtain ⟨hunset, hdb, hidle⟩ := newUser_ok hu
  obtain ⟨hvscheme, hash⟩ := hash_of_newUser hg hscheme hused hu
  have hiv : Intact v.start.database.ledger := hdb ▸ hi
  have hrv : v.start.database.ledger.users.Remembers g used last := hdb ▸ hr
  obtain ⟨hid, rfl, hstep⟩ := insertUser_ok (hidle hs).ready hiv hunset hx
  have hry := hrv.insert (hash last _)
  refine ⟨(hidle hs).ready.put _, hvscheme, hstep.intact hiv,
    ⟨_, Table.mem_insert.2 (.inr rfl), hid.symm⟩, hid ▸ hry, ?_⟩
  rintro _ ⟨rfl⟩
  exact ⟨hiv.users.proper, fun r hmem => hid ▸ hry r (Table.mem_insert.2 (.inl hmem))⟩

theorem createUser_remembers {username password : Value} {row : Row User}
    (hused : ∀ q, password.text? = some q → used q)
    (hx : (createUser username password).exec s = (.ok row, t)) :
    t.database.ledger.users.Remembers g used (last.set (some row.id) password) := by
  obtain ⟨u, v, hu, h₁⟩ := Op.bind_ok (logged_ok hx)
  obtain ⟨w, htx, hdone⟩ := announced_ok h₁
  have hout := ((newUser_ok hu).2.2 hs).not_inBlock
  obtain ⟨x, hins, rfl⟩ := transaction_ok hout htx
  rw [hdone]
  exact (insertUser_remembers hg hscheme hs hi hr hused hu hins).2.2.2.2.1

theorem registerUser_remembers {username password currency : Value} {row : Row User}
    (hused : ∀ q, password.text? = some q → used q)
    (hx : (registerUser username password currency).exec s = (.ok row, t)) :
    t.database.ledger.users.Remembers g used (last.set (some row.id) password) := by
  obtain ⟨u, v, hu, h₁⟩ := Op.bind_ok (logged_ok hx)
  obtain ⟨name, -, h₂⟩ := Op.optionally_ok h₁
  obtain ⟨w, htx, hdone⟩ := announced_ok h₂
  have hout := ((newUser_ok hu).2.2 hs).not_inBlock
  obtain ⟨x, hbody, rfl⟩ := transaction_ok hout htx
  rw [hdone]
  obtain ⟨made, y, hins, hrest⟩ := Op.bind_ok hbody
  obtain ⟨hready, hyscheme, hiy, hhas, hry, hbefore⟩ :=
    insertUser_remembers hg hscheme hs hi hr hused hu hins
  cases name with
  | none =>
    obtain ⟨rfl, rfl⟩ := Op.pure_ok hrest
    exact hry
  | some name =>
    obtain ⟨hrow, -⟩ := firstCurrency_ok hready hiy hhas hrest
    rw [hrow]
    exact (twin_firstCurrency (p := .ofLast hg _) made.id name).remembers (t := x) hyscheme
      hiy.users.proper hry hbefore hrest

omit hg in
theorem changePassword_remembers {user old new : Value} {done : Bool} (hu : user.isId = true)
    (hused : ∀ q, new.text? = some q → used q)
    (hx : (changePassword user old new).exec s = (.ok done, t)) :
    t.database.ledger.users.Remembers g used (if done then last.set user.id? new else last) := by
  obtain ⟨q, u, x, hq, hreq, hend⟩ := changePassword_ok hx
  obtain ⟨htext, hvalid⟩ := Check.password_ok.1 hq
  obtain ⟨hidle, hd⟩ := idle_of_quiet (orderly_requireUser user) rfl hs hreq
  have hxscheme : x.scheme = g := (congrArg Setting.scheme
    ((orderly_requireUser (T := .calls s.setting) user).next rfl hreq).2).trans hscheme
  rcases hend with ⟨rfl, ht⟩ | ⟨rfl, found, y, htx, ht⟩
  · rw [ht, hd]
    exact hr
  obtain ⟨z, hz, rfl⟩ := transaction_ok (s := { x with salts := x.salts + 1 }) hidle.not_inBlock htx
  have hready : ({ x with salts := x.salts + 1 } : Session).start.Ready :=
    ⟨rfl, hidle.layout, hidle.fuse, Session.hindrance_of_breaks hidle.breaks⟩
  rw [ht]
  rcases update_ok hready hu (by simp) hz with ⟨rfl, hnone⟩ | ⟨cells, o, r, hc, hold, hoid, ha, -, rfl⟩
  · intro r hmem
    have hmem' : r ∈ s.database.ledger.users.rows := hd ▸ hmem
    exact (hr r hmem').set_of_ne (hnone r hmem) new
  · have hold' : o ∈ s.database.ledger.users.rows := hd ▸ hold
    obtain rfl := assigned_password hc (hi.users.proper o hold') ha
    have hrx : x.database.ledger.users.Remembers g used last := hd ▸ hr
    show (x.database.ledger.users.replace o.id _).Remembers g used (last.set user.id? new)
    rw [hoid]
    exact hrx.replace (r := ⟨o.id, { o.data with passwordHash := x.scheme.hash x.salts q }, []⟩)
      (hxscheme ▸ .set_same htext (hused q htext) hvalid _ o.id)

end

/-- After any call each hash is of the password that was set last. -/
theorem Call.remembers (hg : g.Faithful used) (hscheme : s.scheme = g) (hd : Reachable s.database)
    (ho : s.inBlock = false) (hr : s.database.ledger.users.Remembers g used last) (c : Call)
    (hc : c.Typed) (hused : ∀ v ∈ c.newPasswords, ∀ q, v.text? = some q → used q) :
    (c.run.exec s).2.database.ledger.users.Remembers g used (c.sets (c.run.exec s).1 last) := by
  obtain ⟨hlayout, hi⟩ := hd.intact
  by_cases hnone : c.newPasswords = []
  · rw [c.sets_of_keeps hnone]
    exact c.remembers_of_keeps hg hscheme hnone ho hi.users.proper hr
  cases hx : c.run.exec s with
  | mk a t =>
    cases a with
    | error e =>
      rw [c.sets_error, show t = (c.run.exec s).2 by rw [hx], (c.atomic s ho).2 e (by rw [hx])]
      exact hr
    | ok a =>
      have hcalm : c.run.exec s.calm = (.ok a, t.calm) := c.unbroken hx
      have hidle : s.calm.Idle := ⟨Session.inTransaction_of_breaks rfl ho, hlayout, rfl, rfl⟩
      show t.calm.database.ledger.users.Remembers g used (c.sets (.ok a) last)
      cases c with
      | createUser username password =>
        obtain ⟨row, hrow, rfl⟩ := Op.map_ok hcalm
        exact createUser_remembers (s := s.calm) hg hscheme hidle hi hr
          (hused _ (by simp [newPasswords])) hrow
      | registerUser username password currency =>
        obtain ⟨row, hrow, rfl⟩ := Op.map_ok hcalm
        exact registerUser_remembers (s := s.calm) hg hscheme hidle hi hr
          (hused _ (by simp [newPasswords])) hrow
      | changePassword user old new =>
        obtain ⟨done, hdone, rfl⟩ := Op.map_ok hcalm
        have h := changePassword_remembers (s := s.calm) hscheme hidle hi hr (hc user (by simp [ids]))
          (hused _ (by simp [newPasswords])) hdone
        cases done <;> exact h
      | _ => exact absurd rfl hnone

/-- A change of a password that is not answered with true changes nothing. -/
theorem changePassword_without_effect (ho : s.inBlock = false) {user old new : Value}
    (h : ((Call.changePassword user old new).run.exec s).1 ≠ .ok (.flag true)) :
    ((Call.changePassword user old new).run.exec s).2.database = s.database := by
  cases hx : (Call.changePassword user old new).run.exec s with
  | mk a t =>
    rw [hx] at h
    cases a with
    | error e => simpa [hx] using ((Call.changePassword user old new).atomic s ho).2 e (by rw [hx])
    | ok a =>
      obtain ⟨done, hdone, rfl⟩ := Op.map_ok hx
      obtain ⟨q, u, x, -, hreq, ⟨-, ht⟩ | ⟨rfl, -⟩⟩ := changePassword_ok hdone
      · exact ht.trans ((orderly_requireUser (T := .calls s.setting) user).database_eq rfl rfl hreq)
      · exact absurd rfl h

/-! ## Verification -/

/-- The user of a name, by the users of a ledger. -/
def userNamed (l : Ledger) (username : Value) : Except Failure (Option (Row User)) :=
  if username.truthy then do
    let name ← lookupName username
    let c ← param name
    pick User l fun r => c.isText (.text r.data.username)
  else .ok none

/-- What credentials are verified as, by the users of a ledger. -/
def verified (g : PasswordScheme) (l : Ledger) (username password : Value) :
    Except Failure (Option (Row User)) := do
  match ← userNamed l username with
  | none => .ok none
  | some u =>
    if !password.truthy then .ok none
    else match password.text? with
      | none => .error (.misuse .noAttribute)
      | some p => .ok (if g.check u.data.passwordHash p then some u else none)

theorem exec_passwordMatches (r : Row User) (password : Value) :
    (passwordMatches r password).exec s = (match password.text? with
      | none => .error (.misuse .noAttribute)
      | some p => .ok (s.scheme.check r.data.passwordHash p), s) := by
  unfold passwordMatches
  cases password.text? <;> rfl

theorem exec_findByUsername (hb : s.breaks = none) (hl : s.database.layout = .full)
    {username : Value} (ht : username.truthy = true) : ∃ u, (findByUsername username).exec s
      = (userNamed s.database.ledger username, u) ∧ u.scheme = s.scheme := by
  have hset := ((orderly_findByUsername (T := .calls s.setting) username).leads rfl).1.setting_eq
  refine ⟨((findByUsername username).exec s).2, Prod.ext ?_ rfl, congrArg Setting.scheme hset⟩
  rw [findByUsername, Op.exec_bind, Op.exec_lift, userNamed, if_pos ht]
  cases hname : lookupName username with
  | error e => rfl
  | ok name =>
    obtain ⟨u, hu, -⟩ := exec_selectOne_unbroken User hb hl (param name)
      fun c r => c.isText (.text r.data.username)
    dsimp only
    rw [hu]
    rfl

/-- Verification that is not broken off looks at the users and the scheme only. -/
theorem exec_verifyCredentials (hb : s.breaks = none) (hl : s.database.layout = .full)
    (username password : Value) : ((verifyCredentials username password).exec s).1
      = verified s.scheme s.database.ledger username password := by
  unfold verifyCredentials verified
  cases ht : username.truthy with
  | false =>
    rw [userNamed, ht]
    rfl
  | true =>
    obtain ⟨u, hu, hscheme⟩ := exec_findByUsername hb hl ht
    simp only [if_true]
    rw [Op.exec_bind, hu]
    cases userNamed s.database.ledger username with
    | error e => rfl
    | ok found =>
      cases found with
      | none => rfl
      | some r =>
        cases password.truthy with
        | false => rfl
        | true =>
          simp only [Bool.not_true, Bool.false_eq_true, if_false]
          rw [Op.exec_bind, exec_passwordMatches, hscheme]
          cases password.text? with
          | none => rfl
          | some p =>
            show _ = Except.ok (if s.scheme.check r.data.passwordHash p = true then some r else none)
            dsimp only
            cases s.scheme.check r.data.passwordHash p <;> rfl

theorem Call.verifyCredentials_answer (hb : s.breaks = none) (hl : s.database.layout = .full)
    (username password : Value) : ((Call.verifyCredentials username password).run.exec s).1
      = (verified s.scheme s.database.ledger username password).map .user := by
  rw [← exec_verifyCredentials hb hl, Call.run, Op.exec_map]
  cases (Service.verifyCredentials username password).exec s with
  | mk a t => cases a <;> rfl

/-- Accounts with hashes of the passwords that were set last are read as they are. -/
theorem decode_account (hg : g.Faithful used) {r : Row User} (ho : r.odd = [])
    (hname : ProperName r.data.username) (hash : HashOfLast g used last r.id r.data.passwordHash) :
    Persistent.decode .full r = .ok r := by
  obtain ⟨q, n, -, hu, hq, hhash⟩ := hash
  refine (reread_user ho).2 ⟨_, _, hname.read, hhash ▸ hg.read hu hq n, ?_⟩
  obtain ⟨id, data, odd⟩ := r
  cases ho
  rfl

/-- Names are looked up without the blanks at their ends, and then lead to the row itself. -/
theorem userNamed_eq (hg : g.Faithful used) {l : Ledger} (hi : Intact l) (hv : Vetted l)
    (hr : l.users.Remembers g used last) (name : String) : userNamed l (.text name)
      = .ok (l.users.rows.find? fun r => r.data.username == Text.strip name) := by
  rw [userNamed]
  split
  · show pick User l (fun r => Cell.isText (.text (Text.strip name)) (.text r.data.username)) = _
    have htext (r : Row User) : Cell.isText (.text (Text.strip name)) (.text r.data.username)
        = (r.data.username == Text.strip name) := rfl
    simp only [htext]
    cases hfind : l.users.rows.find? fun r => r.data.username == Text.strip name with
    | none => exact pick_none.2 hfind
    | some r =>
      have hmem := List.mem_of_find?_eq_some hfind
      exact pick_some.2 ⟨r, hfind, decode_account hg (hi.users.proper r hmem) (hv.users r hmem).name
        (hr r hmem)⟩
  · -- nobody has an empty name
    rename_i hempty
    obtain rfl : name = "" := by simpa [Value.truthy] using hempty
    refine congrArg Except.ok (List.find?_eq_none.2 fun r hmem hname => ?_).symm
    exact (hv.users r hmem).name.nonempty (beq_iff_eq.1 hname)

/-- Credentials are verified if they are the name of a user and the password set last for that
user. -/
theorem verified_iff (hg : g.Faithful used) {l : Ledger} (hi : Intact l) (hv : Vetted l)
    (hr : l.users.Remembers g used last) (name : String) {password : String} (hp : password ≠ "")
    (hu : used password) :
    ∃ found, verified g l (.text name) (.text password) = .ok found ∧ ∀ r, found = some r ↔
      r ∈ l.users.rows ∧ r.data.username = Text.strip name ∧ last r.id = some password := by
  have htruthy : (Value.text password).truthy = true := by
    simpa [Value.truthy] using hp
  rw [verified, userNamed_eq hg hi hv hr]
  cases hfind : l.users.rows.find? fun r => r.data.username == Text.strip name with
  | none =>
    refine ⟨none, rfl, fun r => iff_of_false (by simp) ?_⟩
    rintro ⟨hmem, hname, -⟩
    simpa [hname] using List.find?_eq_none.1 hfind r hmem
  | some x =>
    have hx := List.mem_of_find?_eq_some hfind
    have hxname : x.data.username = Text.strip name := by simpa using List.find?_some hfind
    obtain ⟨q, n, hq, huq, hvq, hash⟩ := hr x hx
    have hfits : g.check x.data.passwordHash password = true ↔ password = q :=
      hash ▸ hg.fits huq hu hvq hp n
    refine ⟨if g.check x.data.passwordHash password then some x else none, ?_, fun r => ?_⟩
    · show (if !(Value.text password).truthy then _ else _) = _
      rw [htruthy]
      rfl
    · have hsame (hmem : r ∈ l.users.rows) (hname : r.data.username = Text.strip name) : r = x :=
        hi.users.eq_of_id hmem hx (hi.usernames r hmem x hx (hname.trans hxname.symm))
      constructor
      · intro hfound
        split at hfound
        · rename_i hcheck
          cases hfound
          exact ⟨hx, hxname, hq.trans (congrArg some (hfits.1 hcheck).symm)⟩
        · cases hfound
      · rintro ⟨hmem, hname, hlast⟩
        obtain rfl := hsame hmem hname
        rw [if_pos (hfits.2 (Option.some.inj (hlast.symm.trans hq)))]

end Service

/-! ## Runs -/

namespace Store

open Service

variable {g : PasswordScheme} {used : String → Prop} {last : LastSet} {s t : Session}

/-- The passwords that were set last in calls that lead to a database, in sessions that keep
passwords by one scheme. -/
inductive Remembered (g : PasswordScheme) (used : String → Prop) : LastSet → Database → Prop
  | migrated : Remembered g used (fun _ => none) .migrated
  | call {last : LastSet} {s : Session} {c : Call} (hd : Remembered g used last s.database)
      (ho : s.inBlock = false) (hc : c.Typed) (hs : s.scheme = g)
      (hused : ∀ v ∈ c.newPasswords, ∀ q, v.text? = some q → used q) :
      Remembered g used (c.sets (c.run.exec s).1 last) (c.run.exec s).2.database

/-- The passwords that were set last, after calls that are made one after the other. -/
def Session.lastSet (s : Session) (last : LastSet) : List Call → LastSet
  | [] => last
  | c :: rest => (c.run.exec s).2.lastSet (c.sets (c.run.exec s).1 last) rest

namespace Remembered

variable {db : Database}

theorem serviceable (h : Remembered g used last db) (hg : g.Compact) : Serviceable db := by
  induction h with
  | migrated => exact .migrated
  | call _ ho hc hs _ ih => exact .call ih ho hc (hs ▸ hg)

/-- In every run each hash stays one of the password that was set last. -/
theorem remembers (h : Remembered g used last db) (hg : g.Faithful used) :
    db.ledger.users.Remembers g used last := by
  induction h with
  | migrated => exact fun _ hr => absurd hr List.not_mem_nil
  | @call last s c hd ho hc hs hused ih =>
    exact c.remembers hg hs (hd.serviceable hg.compact).reachable ho ih hc hused

/-- Any calls at all may be made one after the other. -/
theorem after {calls : List Call} (h : Remembered g used last s.database)
    (ho : s.inBlock = false) (hs : s.scheme = g) (hc : ∀ c ∈ calls, c.Typed)
    (hused : ∀ c ∈ calls, ∀ v ∈ c.newPasswords, ∀ q, v.text? = some q → used q) :
    Remembered g used (s.lastSet last calls) (s.after calls).database := by
  induction calls generalizing s last with
  | nil => exact h
  | cons c rest ih =>
    exact ih (.call h ho (hc c List.mem_cons_self) hs (hused c List.mem_cons_self))
      (c.atomic s ho).1 ((c.scheme_run s).trans hs) (fun d hd => hc d (List.mem_cons_of_mem c hd))
      fun d hd => hused d (List.mem_cons_of_mem c hd)

/-- Credentials are verified if they are the name of a user, blanks at its ends left out, and the
password that was set last for that user; the answer is the row of the user. A change of a password
that is not answered with true makes no difference to any verification. -/
theorem verifies (hd : Remembered g used last s.database) (hg : g.Faithful used)
    (ho : s.inBlock = false) (hs : s.scheme = g) (hb : s.breaks = none) :
    (∀ name password : String, password ≠ "" → used password → ∃ found,
      ((Call.verifyCredentials (.text name) (.text password)).run.exec s).1 = .ok (.user found) ∧
        ∀ r, found = some r ↔ r ∈ s.database.ledger.users.rows ∧
          r.data.username = Text.strip name ∧ last r.id = some password) ∧
    ∀ user old new, ((Call.changePassword user old new).run.exec s).1 ≠ .ok (.flag true) →
      ∀ t : Session, t.database = ((Call.changePassword user old new).run.exec s).2.database →
        t.scheme = g → t.breaks = none → ∀ name password,
          ((Call.verifyCredentials name password).run.exec t).1
            = ((Call.verifyCredentials name password).run.exec s).1 := by
  have hservice := hd.serviceable hg.compact
  obtain ⟨hlayout, hi⟩ := hservice.reachable.intact
  refine ⟨fun name password hp hu => ?_, fun user old new hrefused t ht htscheme htb name password => ?_⟩
  · obtain ⟨found, hfound, hiff⟩ :=
      verified_iff hg hi hservice.vetted (hd.remembers hg) name hp hu
    refine ⟨found, ?_, hiff⟩
    rw [Call.verifyCredentials_answer hb hlayout, hs, hfound]
    rfl
  · rw [changePassword_without_effect ho hrefused] at ht
    rw [Call.verifyCredentials_answer htb (ht ▸ hlayout), Call.verifyCredentials_answer hb hlayout, ht,
      htscheme, hs]

end Remembered

/-- The calls of a user who registers and changes the password. -/
def firstChange : List Call :=
  [registration, .changePassword (.int 1) (.text "secret") (.text "other")]

/-- After a change the user is verified with the other password, and with the first one no longer. A
further change with the first password is refused, and the user is still verified. -/
theorem verified_after_firstChange :
    let s := ({ newSession with scheme := .marked } : Session).after firstChange
    let refused := (Call.changePassword (.int 1) (.text "secret") (.text "third")).run.exec s
    (∃ r, ((Call.verifyCredentials (.text " ann ") (.text "other")).run.exec s).1
        = .ok (.user (some r)) ∧ r.data.username = "ann" ∧
      ((Call.verifyCredentials (.text " ann ") (.text "other")).run.exec refused.2).1
        = .ok (.user (some r))) ∧
      ((Call.verifyCredentials (.text "ann") (.text "secret")).run.exec s).1 = .ok (.user none) ∧
      refused.1 = .ok (.flag false) := by
  intro s
  dsimp only
  let start : Session := { newSession with scheme := .marked }
  let last := start.lastSet (fun _ => none) firstChange
  have htyped : ∀ c ∈ firstChange, c.Typed := by
    simp [firstChange, registration, Call.Typed, Call.ids, Value.isId, Value.isNull, Value.id?]
  have hd : Remembered .marked (fun _ => True) last s.database :=
    Remembered.after (s := start) .migrated rfl rfl htyped fun _ _ _ _ _ _ => trivial
  have hscheme : s.scheme = .marked := scheme_after start firstChange
  obtain ⟨hverified, hunchanged⟩ := hd.verifies PasswordScheme.faithful_marked
    (by decide +kernel) hscheme (by decide +kernel)
  have hann : ∃ r ∈ s.database.ledger.users.rows, r.data.username = "ann" ∧
      r.data.username = Text.strip " ann " ∧ last r.id = some "other" := by decide +kernel
  have hsecret : ∀ r ∈ s.database.ledger.users.rows, r.data.username = Text.strip "ann" →
      last r.id ≠ some "secret" := by decide +kernel
  have hrefused : ((Call.changePassword (.int 1) (.text "secret") (.text "third")).run.exec s).1
      = .ok (.flag false) := by
    have hdone : ((changePassword (.int 1) (.text "secret") (.text "third")).exec s).1.toOption
        = some false := by decide +kernel
    rw [Call.run, Op.exec_map]
    cases hx : (changePassword (.int 1) (.text "secret") (.text "third")).exec s with
    | mk a t =>
      rw [hx] at hdone
      cases a <;> cases hdone
      rfl
  obtain ⟨r, hmem, hname, hstripped, hlast⟩ := hann
  obtain ⟨found, hfound, hiff⟩ := hverified " ann " "other" (by decide) trivial
  obtain rfl := (hiff r).2 ⟨hmem, hstripped, hlast⟩
  obtain ⟨found, hnone, hiff⟩ := hverified "ann" "secret" (by decide) trivial
  obtain rfl : found = none := by
    rw [Option.eq_none_iff_forall_ne_some]
    intro x hx
    obtain ⟨hx, hxname, hxlast⟩ := (hiff x).1 hx
    exact hsecret x hx hxname hxlast
  refine ⟨⟨r, hfound, hname, ?_⟩, hnone, hrefused⟩
  rw [hunchanged (.int 1) (.text "secret") (.text "third") (by simp [hrefused]) _ rfl
    ((Call.scheme_run _ s).trans hscheme) (by decide +kernel)]
  exact hfound

end Store

end Bookkeeping
