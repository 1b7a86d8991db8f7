import Bookkeeping.Proofs.TwinSessions

/-! # Calls with other passwords

A call and the same call with other passwords are made in sessions that differ in passwords only. If
the checks of passwords cannot tell these apart, and a candidate fits one hash as the other candidate
fits the other hash, then they come to the same but for the hashes.
-/

namespace Bookkeeping.Service

open Store Store.Op Store.Ledger

variable {p : Pairing} {α β : Type}

/-! ## Passwords -/

/-- Passwords that are both refused for the same reason, or are kept as hashes that stand for each
other. -/
def NewPasswords (p : Pairing) (v v' : Value) : Prop :=
  Matches (fun a b => ∀ id n n', p.Paired id (p.left.hash n a) (p.right.hash n' b))
    (Check.password v) (Check.password v')

/-- Candidates that are not looked at any further, or that fit hashes that stand for each other
alike if they are texts. -/
structure Candidates (p : Pairing) (v v' : Value) : Prop where
  truthy : v'.truthy = v.truthy
  text (h : v.truthy = true) : Option.Rel
    (fun a b => ∀ id h k, p.Paired id h k → p.right.check k b = p.left.check h a) v.text? v'.text?

/-! ## Parts of calls -/

theorem twin_logged (operation : String) {R : α → β → Prop} {x : Op α} {y : Op β}
    (h : Twin p R x y) : Twin p R (logged operation x) (logged operation y) := by
  intro s t hst
  obtain ⟨hresult, hstate⟩ := h s t hst
  rw [exec_logged, exec_logged]
  cases hx : x.exec s with
  | mk r s' =>
    cases hy : y.exec t with
    | mk r' t' =>
      rw [hx, hy] at hresult hstate
      cases hresult with
      | ok hab => exact ⟨.ok hab, hstate⟩
      | error e =>
        cases e with
        | rejected r => exact ⟨.error _, { hstate with log := congrArg (· ++ _) hstate.log }⟩
        | _ => exact ⟨.error _, hstate⟩

theorem twin_requireUser (user : Value) :
    Twin p (UserTwin p) (requireUser user) (requireUser user) := by
  refine (twin_findUser user).bind fun r r' hr => ?_
  cases hr with
  | none => exact twin_fail _
  | some hr => exact twin_pure hr

theorem twin_loadOwned (ρ : Type) [OwnedRecord ρ α] [Unhashed ρ] (user id : Value) (field : String)
    (active : Bool) : Twin p Eq (loadOwned ρ user id field active) (loadOwned ρ user id field active) := by
  refine .either (R := Eq) (fun _ => twin_pure rfl) (fun _ => twin_selectOne ρ _ _)
    fun found _ h => h ▸ ?_
  cases found with
  | none => exact twin_fail _
  | some r => exact .ite (twin_fail _) (twin_pure rfl)

/-! ### Currencies, categories and sources -/

section

variable (ρ : Type) [Catalog ρ] [Unhashed ρ]

theorem twin_ensureUnique (user : Value) (name : String) (except : Value) :
    Twin p Eq (ensureUnique ρ user name except) (ensureUnique ρ user name except) := by
  refine (twin_findByName ρ _ _).next fun found => ?_
  cases found with
  | none => exact twin_pure rfl
  | some r => exact .ite (twin_pure rfl) (twin_fail _)

theorem twin_create (user : Value) (name : String) {record : Op ρ} {check : Op Unit}
    (hrecord : Twin p Eq record record) (hcheck : Twin p Eq check check) :
    Twin p Eq (create ρ user name record check) (create ρ user name record check) :=
  .transaction <| (twin_requireUser user).bind fun _ _ _ => hcheck.next fun _ =>
    (twin_ensureUnique ρ user name _).next fun _ => hrecord.next fun a => twin_insert ρ a

theorem twin_rename (user id name : Value) :
    Twin p Eq (rename ρ user id name) (rename ρ user id name) :=
  twin_logged _ <| (twin_same _).next fun name => (Twin.transaction
    ((twin_loadOwned ρ _ _ _ _).next fun _ => (twin_ensureUnique ρ user name id).next fun _ =>
      (twin_update ρ id _).next fun _ => twin_find ρ id)).next fun _ =>
        (twin_emit _ _ _ _).next fun _ => twin_pure rfl

theorem twin_mark (archived : Bool) (user id : Value) :
    Twin p Eq (mark ρ archived user id) (mark ρ archived user id) :=
  .transaction <| (twin_loadOwned ρ _ _ _ _).next fun _ =>
    .ite ((twin_setArchived ρ id _).next fun _ => (twin_emit _ _ _ _).next fun _ => twin_find ρ id)
      (twin_find ρ id)

theorem twin_remove (user id : Value)
    (husage : Twin p Eq (Catalog.usage ρ id) (Catalog.usage ρ id))
    (hbefore : Twin p Eq (Catalog.beforeDelete ρ id) (Catalog.beforeDelete ρ id)) :
    Twin p Eq (remove ρ user id) (remove ρ user id) := by
  have hlast : Twin p Eq (do
      Catalog.beforeDelete ρ id
      let _ ← delete ρ id
      emit .info .operations (Catalog.entityTitle ρ ++ " deleted")
        [("user_id", user), ("entity_id", id)] : Op Unit) _ :=
    hbefore.next fun _ => (twin_delete ρ id).next fun _ => twin_emit _ _ _ _
  exact twin_logged _ <| .transaction <| (twin_loadOwned ρ _ _ _ _).next fun _ =>
    husage.next fun counts => .ite (twin_fail _) hlast

end

theorem twin_releaseCurrency (id : Value) :
    Twin p Eq (releaseCurrency id) (releaseCurrency id) :=
  (twin_clearFixedCurrency id).next fun _ => .ite (twin_emit _ _ _ _) (twin_pure rfl)

theorem twin_createCurrency (user name rate : Value) :
    Twin p Eq (createCurrency user name rate) (createCurrency user name rate) :=
  twin_logged _ <| (twin_same _).next fun _ => (twin_same _).next fun _ =>
    (twin_create Currency user _ (twin_same _) (twin_pure rfl)).next fun _ =>
      (twin_emit _ _ _ _).next fun _ => twin_pure rfl

theorem twin_createCategory (user name : Value) :
    Twin p Eq (createCategory user name) (createCategory user name) :=
  twin_logged _ <| (twin_same _).next fun _ =>
    (twin_create Category user _ (twin_same _) (twin_pure rfl)).next fun _ =>
      (twin_emit _ _ _ _).next fun _ => twin_pure rfl

theorem twin_createSource (user name currency amount : Value) :
    Twin p Eq (createSource user name currency amount) (createSource user name currency amount) :=
  twin_logged _ <| (twin_same _).next fun _ => (twin_same _).next fun _ =>
    (twin_create Source user _ (twin_same _)
      ((twin_loadOwned Currency _ _ _ _).next fun _ => twin_pure rfl)).next fun _ =>
        (twin_emit _ _ _ _).next fun _ => twin_pure rfl

theorem twin_updateCurrency (user id name rate : Value) :
    Twin p Eq (updateCurrency user id name rate) (updateCurrency user id name rate) := by
  refine twin_logged _ <| twin_optionally fun name => twin_optionally fun rate =>
    (Twin.transaction ((twin_loadOwned Currency _ _ _ _).next fun _ => ?_)).next fun _ =>
      .whether (twin_emit _ _ _ _) (twin_pure rfl)
  cases name with
  | none => exact (twin_update Currency _ _).next fun _ => twin_find Currency _
  | some n =>
    exact (twin_ensureUnique Currency _ _ _).next fun _ =>
      (twin_update Currency _ _).next fun _ => twin_find Currency _

/-! ### Entries -/

theorem twin_requestOf (data : Option EntryRequest) (fields : List (String × Value)) :
    Twin p Eq (requestOf data fields) (requestOf data fields) := by
  unfold requestOf
  split
  · exact twin_pure rfl
  · split
    · exact twin_pure rfl
    · exact twin_fail _

theorem twin_applyShifts (direction : Int) (shifts : List Shift) :
    Twin p Eq (applyShifts direction shifts) (applyShifts direction shifts) := by
  induction shifts with
  | nil => exact twin_pure rfl
  | cons x rest ih => exact (twin_applyDelta _ _).next fun _ => ih

theorem twin_shiftsOf (e : Entry) : Twin p Eq (shiftsOf e) (shiftsOf e) :=
  (twin_find Source _).next fun _ => twin_same _

theorem twin_checkCurrency (c : Checked) (currency : Row Currency) (primary : Row Source) :
    Twin p Eq (checkCurrency c currency primary) (checkCurrency c currency primary) :=
  .ite (twin_pure rfl) (.ite (twin_fail _) (.ite (twin_fail _) (twin_pure rfl)))

theorem twin_recordEntry (user : Value) (r : EntryRequest) (c : Checked) :
    Twin p Eq (recordEntry user r c) (recordEntry user r c) :=
  .transaction <| (twin_loadOwned Category _ _ _ _).next fun _ =>
    (twin_loadOwned Currency _ _ _ _).next fun currency =>
      (twin_loadOwned Source _ _ _ _).next fun primary =>
        .whether (twin_loadOwned Source _ _ _ _) <| (twin_checkCurrency c currency primary).next
          fun _ => .either (R := Eq) (fun _ => twin_pure rfl) (fun _ => twin_same _) fun _ _ h => h ▸
            (twin_same _).next fun e => (twin_insert StoredEntry e).next fun _ =>
              (twin_same _).next fun shifts => (twin_applyShifts 1 shifts).next fun _ => twin_pure rfl

theorem twin_createEntry (user : Value) (data : Option EntryRequest)
    (fields : List (String × Value)) :
    Twin p Eq (createEntry user data fields) (createEntry user data fields) :=
  twin_logged _ <| (twin_requestOf data fields).next fun r => (twin_same _).next fun c =>
    (twin_recordEntry user r c).next fun _ => (twin_emit _ _ _ _).next fun _ => twin_pure rfl

theorem twin_listEntries (user : Value) (filter : EntryFilter) :
    Twin p Eq (listEntries user filter) (listEntries user filter) :=
  (twin_same _).next fun _ => (twin_same _).next fun _ => (twin_same _).next fun _ =>
    twin_findFiltered user _

theorem twin_markEntry (archived : Bool) (user id : Value) :
    Twin p Eq (markEntry archived user id) (markEntry archived user id) :=
  .transaction <| (twin_loadOwned StoredEntry _ _ _ _).next fun _ =>
    .ite (twin_pure rfl) ((twin_setArchived StoredEntry _ _).next fun _ =>
      (twin_shiftsOf _).next fun _ => (twin_applyShifts _ _).next fun _ =>
        (twin_find StoredEntry _).next fun _ => twin_pure rfl)

/-- What archiving and restoring an entry have in common. -/
theorem twin_marked (archived : Bool) (user id : Value) (operation event : String) :
    Twin p Eq (logged operation do
      match ← markEntry archived user id with
      | (e, none) => pure (some e)
      | (_, some after) =>
        emit .info .entries event [("user_id", user), ("entry_id", id)]
        pure after) (logged operation do
      match ← markEntry archived user id with
      | (e, none) => pure (some e)
      | (_, some after) =>
        emit .info .entries event [("user_id", user), ("entry_id", id)]
        pure after) := by
  refine twin_logged _ ((twin_markEntry archived user id).next fun x => ?_)
  obtain ⟨e, after⟩ := x
  cases after with
  | none => exact twin_pure rfl
  | some after => exact (twin_emit _ _ _ _).next fun _ => twin_pure rfl

theorem twin_deleteEntry (user id : Value) :
    Twin p Eq (deleteEntry user id) (deleteEntry user id) := by
  refine twin_logged _ ((Twin.transaction
    ((twin_loadOwned StoredEntry _ _ _ _).next fun e => ?_)).next fun _ => twin_emit _ _ _ _)
  have hdelete : Twin p Eq (do let _ ← delete StoredEntry id; pure () : Op Unit) _ :=
    (twin_delete StoredEntry id).next fun _ => twin_pure rfl
  exact .ite ((twin_shiftsOf _).next fun _ => (twin_applyShifts _ _).next fun _ => hdelete) hdelete

/-! ### Users -/

/-- Records of accounts that differ in their hashes. -/
def TwinAccounts (p : Pairing) (u u' : User) : Prop :=
  ∃ k, u' = { u with passwordHash := k } ∧ ∀ id, p.Paired id u.passwordHash k

theorem twin_newUser (username : Value) {v v' : Value} (h : NewPasswords p v v') :
    Twin p (TwinAccounts p) (newUser username v) (newUser username v') := by
  refine (twin_same _).next fun username => (twin_lift h).bind fun a b hab =>
    (twin_hashed (R := fun h k => ∀ id, p.Paired id h k) fun n n' id => hab id n n').bind
      fun h k hash => twin_lift ?_
  obtain ⟨hread, hread'⟩ := p.read _ _ _ (hash 0)
  obtain ⟨flaws, hx, hy⟩ | ⟨a, hx, ha, hy⟩ := read_rehashed
    [("username", .text username), ("password_hash", .text h)]
    [("username", .text username), ("password_hash", .text k)] hread hread' rfl rfl
    fun name hname => by
      have hne : (name == "password_hash") = false := beq_eq_false_iff_ne.2 hname
      simp [List.lookup_cons, hne]
  · rw [show Record.read (α := User) _ = _ from hx, show Record.read (α := User) _ = _ from hy]
    exact .error _
  · rw [show Record.read (α := User) _ = _ from hx, show Record.read (α := User) _ = _ from hy]
    exact .ok ⟨k, rfl, ha ▸ hash⟩

theorem twin_insertAccount {u u' : User} (h : TwinAccounts p u u') :
    Twin p (UserTwin p) (insertUser u) (insertUser u') := by
  obtain ⟨k, rfl, hash⟩ := h
  refine (twin_findByUsername _).bind fun r r' hr => ?_
  cases hr with
  | none => exact twin_insertUser hash
  | some _ => exact twin_fail _

theorem twin_createUser (username : Value) {v v' : Value} (h : NewPasswords p v v') :
    Twin p (UserTwin p) (createUser username v) (createUser username v') :=
  twin_logged _ <| (twin_newUser username h).bind fun _ _ hu =>
    (twin_insertAccount hu).transaction.bind fun r r' hr => by
      cases hr with
      | rehashed visible hash =>
        exact (twin_emit _ _ _ _).next fun _ => twin_pure (.rehashed visible hash)

/-- The first currency of a user who registers. -/
theorem twin_firstCurrency (id : Int) (name : String) :
    let made : Op (Row User) := do
      let c ← Store.insert Currency (← recordOf Currency
        [("user_id", .int id), ("name", .text name), ("rate_to_fixed", .float 1)])
      let _ ← Store.setFixedCurrency (.int id) (.int c.id)
      match ← find User (.int id) with
      | some row => pure row
      | none => Op.fail (.misuse .noAttribute)
    Twin p (UserTwin p) made made := by
  refine (twin_same _).next fun c => (twin_insert Currency c).next fun c =>
    (twin_setFixedCurrency _ _).next fun _ => (twin_findUser _).bind fun x x' hx => ?_
  cases hx with
  | none => exact twin_fail _
  | some hx => exact twin_pure hx

theorem twin_registerUser (username currency : Value) {v v' : Value} (h : NewPasswords p v v') :
    Twin p (UserTwin p) (registerUser username v currency) (registerUser username v' currency) := by
  refine twin_logged _ <| (twin_newUser username h).bind fun _ _ hu => twin_optionally fun name =>
    (Twin.transaction ((twin_insertAccount hu).bind fun r r' hr => ?_)).bind
      (R := UserTwin p) fun r r' hr => ?_
  · cases name with
    | none => exact twin_pure hr
    | some name =>
      rw [hr.eq (f := Row.id) fun _ _ => rfl]
      exact twin_firstCurrency _ _
  · cases hr with
    | rehashed visible hash =>
      exact (twin_emit _ _ _ _).next fun _ => twin_pure (.rehashed visible hash)

theorem twin_passwordMatches {u u' : Row User} (hu : UserTwin p u u') {v v' : Value}
    (h : Candidates p v v') (hv : v.truthy = true) :
    Twin p Eq (passwordMatches u v) (passwordMatches u' v') := by
  have htext := h.text hv
  unfold passwordMatches
  generalize v.text? = a at htext ⊢
  generalize v'.text? = b at htext ⊢
  cases htext with
  | none => exact twin_fail _
  | some hfits =>
    refine twin_get.bind fun s t hst => twin_pure ?_
    cases hu with
    | rehashed visible hash => rw [hst.left, hst.right]; exact (hfits _ _ _ hash).symm

theorem twin_verifyCredentials (username : Value) {v v' : Value} (h : Candidates p v v') :
    Twin p (Option.Rel (UserTwin p)) (verifyCredentials username v)
      (verifyCredentials username v') := by
  refine .either (fun _ => twin_findByUsername username) (fun _ => twin_pure .none) fun r r' hr => ?_
  cases hr with
  | none => exact twin_pure .none
  | some hr =>
    dsimp only
    rw [h.truthy]
    cases hv : v.truthy with
    | false => exact twin_pure .none
    | true =>
      refine (twin_passwordMatches hr h hv).next fun fits => .ite (twin_pure (.some hr)) ?_
      cases hr with
      | rehashed visible hash => exact (twin_emit _ _ _ _).next fun _ => twin_pure .none

theorem twin_changePassword (user : Value) {old old' new new' : Value}
    (hold : Candidates p old old') (hnew : NewPasswords p new new') :
    Twin p Eq (changePassword user old new) (changePassword user old' new') := by
  refine twin_logged _ <| (twin_lift hnew).bind fun a b hab => (twin_requireUser user).bind
    fun u u' hu => ?_
  dsimp only
  rw [hold.truthy]
  refine .either (R := Eq) (fun hv => twin_passwordMatches hu hold hv) (fun _ => twin_pure rfl)
    fun right _ h => h ▸ .ite ((twin_emit _ _ _ _).next fun _ => twin_pure rfl) ?_
  exact (twin_hashed (R := fun h k => ∀ id, p.Paired id h k) fun n n' id => hab id n n').bind
    fun h k hash => (twin_updatePassword user hash).transaction.next fun _ =>
      (twin_emit _ _ _ _).next fun _ => twin_pure rfl

theorem twin_enableUser (user enabled : Value) :
    Twin p (Option.Rel (UserTwin p)) (enableUser user enabled) (enableUser user enabled) :=
  twin_logged _ <| (Twin.transaction ((twin_requireUser user).bind fun _ _ _ =>
    (twin_setEnabled user enabled).next fun _ => twin_findUser user)).bind fun _ _ hr =>
      (twin_emit _ _ _ _).next fun _ => twin_pure hr

theorem twin_chooseFixedCurrency (user currency : Value) :
    Twin p (Option.Rel (UserTwin p)) (chooseFixedCurrency user currency)
      (chooseFixedCurrency user currency) :=
  twin_logged _ <| (Twin.transaction ((twin_requireUser user).bind fun _ _ _ =>
    .whether (twin_loadOwned Currency _ _ _ _) ((twin_setFixedCurrency user currency).next
      fun _ => twin_findUser user))).bind fun _ _ hr =>
        (twin_emit _ _ _ _).next fun _ => twin_pure hr

theorem twin_deleteAccount (user : Value) :
    Twin p Eq (Service.deleteUser user) (Service.deleteUser user) := by
  refine twin_logged _ ((Twin.transaction ?_).next fun counts =>
    (twin_emit _ _ _ _).next fun _ => twin_pure rfl)
  refine (twin_requireUser user).bind fun _ _ _ => ?_
  refine (twin_deleteByUser StoredEntry user).next fun entries => ?_
  refine (twin_deleteByUser Source user).next fun sources => ?_
  refine (twin_deleteByUser Category user).next fun categories => ?_
  refine (twin_setFixedCurrency user .null).next fun _ => ?_
  refine (twin_deleteByUser Currency user).next fun currencies => ?_
  exact (twin_deleteUser user).next fun gone => twin_pure rfl

/-! ## Calls -/

/-- The passwords that a call is given to keep. -/
def Call.newPasswords : Call → List Value
  | createUser _ password => [password]
  | registerUser _ password _ => [password]
  | changePassword _ _ new => [new]
  | _ => []

/-- The passwords that a call is given to check. -/
def Call.candidates : Call → List Value
  | verifyCredentials _ password => [password]
  | changePassword _ old _ => [old]
  | _ => []

/-- The call with other passwords. -/
def Call.withPasswords (f : Value → Value) : Call → Call
  | createUser username password => createUser username (f password)
  | registerUser username password currency => registerUser username (f password) currency
  | verifyCredentials username password => verifyCredentials username (f password)
  | changePassword user old new => changePassword user (f old) (f new)
  | c => c

/-- Answers that differ in a hash at most. -/
inductive Answer.Twin (p : Pairing) : Answer → Answer → Prop
  | same (a : Answer) : Answer.Twin p a a
  | user {r r' : Row User} (h : UserTwin p r r') : Answer.Twin p (.user (some r)) (.user (some r'))

theorem Answer.Twin.of_rel {found found' : Option (Row User)}
    (h : Option.Rel (UserTwin p) found found') : Answer.Twin p (.user found) (.user found') := by
  cases h with
  | none => exact .same _
  | some h => exact .user h

/-- What does not depend on hashes is answered. -/
theorem twin_answered {x : Op α} (h : Twin p Eq x x) (f : α → Answer) :
    Twin p (Answer.Twin p) (f <$> x) (f <$> x) :=
  h.map fun _ _ h => h ▸ .same _

/-- A call comes to the same with other passwords. -/
theorem Call.twin (c : Call) {f : Value → Value} (hnew : ∀ v ∈ c.newPasswords, NewPasswords p v (f v))
    (hold : ∀ v ∈ c.candidates, Candidates p v (f v)) :
    Twin p (Answer.Twin p) c.run (c.withPasswords f).run := by
  cases c with
  | createUser username password =>
    exact (twin_createUser username (hnew _ (by simp [newPasswords]))).map fun _ _ h => .user h
  | registerUser username password currency =>
    exact (twin_registerUser username currency (hnew _ (by simp [newPasswords]))).map
      fun _ _ h => .user h
  | getUser user => exact (twin_findUser user).map fun _ _ h => .of_rel h
  | getUserByUsername username => exact (twin_findByUsername username).map fun _ _ h => .of_rel h
  | verifyCredentials username password =>
    exact (twin_verifyCredentials username (hold _ (by simp [candidates]))).map
      fun _ _ h => .of_rel h
  | changePassword user old new =>
    exact (twin_changePassword user (hold _ (by simp [candidates]))
      (hnew _ (by simp [newPasswords]))).map fun _ _ h => h ▸ .same _
  | setEnabled user enabled => exact (twin_enableUser user enabled).map fun _ _ h => .of_rel h
  | setFixedCurrency user currency =>
    exact (twin_chooseFixedCurrency user currency).map fun _ _ h => .of_rel h
  | deleteUser user => exact twin_answered (twin_deleteAccount user) _
  | createCurrency user name rate => exact twin_answered (twin_createCurrency user name rate) _
  | updateCurrency user id name rate =>
    exact twin_answered (twin_updateCurrency user id name rate) _
  | createCategory user name => exact twin_answered (twin_createCategory user name) _
  | createSource user name currency amount =>
    exact twin_answered (twin_createSource user name currency amount) _
  | rename kind user id name => cases kind <;> exact twin_answered (twin_rename _ user id name) _
  | archive kind user id =>
    cases kind <;> exact twin_answered (twin_logged _ (twin_mark _ true user id)) _
  | restore kind user id =>
    cases kind <;> exact twin_answered (twin_logged _ (twin_mark _ false user id)) _
  | delete kind user id =>
    cases kind with
    | currency =>
      exact twin_answered (twin_remove Currency user id (twin_counts Source fun _ _ => rfl)
        (twin_releaseCurrency id)) _
    | category =>
      exact twin_answered (twin_remove Category user id (twin_counts StoredEntry fun _ _ => rfl)
        (twin_pure rfl)) _
    | source =>
      exact twin_answered (twin_remove Source user id (twin_counts StoredEntry fun _ _ => rfl)
        (twin_pure rfl)) _
  | get kind user id => cases kind <;> exact twin_answered (twin_loadOwned _ user id _ _) _
  | getByName kind user name => cases kind <;> exact twin_answered (twin_findByName _ user name) _
  | list kind user includeArchived =>
    cases kind <;> exact twin_answered (twin_selectAll _ _ _) _
  | createEntry user data fields => exact twin_answered (twin_createEntry user data fields) _
  | getEntry user id => exact twin_answered (twin_loadOwned StoredEntry user id _ _) _
  | listEntries user filter => exact twin_answered (twin_listEntries user filter) _
  | archiveEntry user id => exact twin_answered (twin_marked true user id _ _) _
  | restoreEntry user id => exact twin_answered (twin_marked false user id _ _) _
  | deleteEntry user id => exact twin_answered (twin_deleteEntry user id) _

end Bookkeeping.Service
