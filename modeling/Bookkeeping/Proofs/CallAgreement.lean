import Bookkeeping.Proofs.EntryAgreement

/-! # Calls side by side

Whatever is asked of two ledgers that have the same rows of the users in view, the answers are the
same, and so are the rows of these users afterwards. A call that names its user needs to see this
user only; one that makes users or looks them up by name has to see all of them.
-/

namespace Bookkeeping.Service

open Store

/-! ## Whom a call looks at -/

/-- The user that a call is made for. Users are made and looked up by name without one. -/
def Call.user? : Call → Option Value
  | createUser _ _ => none
  | registerUser _ _ _ => none
  | getUser user => some user
  | getUserByUsername _ => none
  | verifyCredentials _ _ => none
  | changePassword user _ _ => some user
  | setEnabled user _ => some user
  | setFixedCurrency user _ => some user
  | deleteUser user => some user
  | createCurrency user _ _ => some user
  | updateCurrency user _ _ _ => some user
  | createCategory user _ => some user
  | createSource user _ _ _ => some user
  | rename _ user _ _ => some user
  | archive _ user _ => some user
  | restore _ user _ => some user
  | delete _ user _ => some user
  | get _ user _ => some user
  | getByName _ user _ => some user
  | list _ user _ => some user
  | createEntry user _ _ => some user
  | getEntry user _ => some user
  | listEntries user _ => some user
  | archiveEntry user _ => some user
  | restoreEntry user _ => some user
  | deleteEntry user _ => some user

/-- The users that a call looks at are in view. -/
def Call.Within (v : Scope) (c : Call) : Prop :=
  match c.user? with
  | some user => ∀ n, user.id? = some n → v.sees n = true
  | none => ∀ n, v.sees n = true

/-- An account is enabled or disabled by a flag. -/
def Call.Flagged : Call → Prop
  | setEnabled _ enabled => ∃ b, enabled = .bool b
  | _ => True

/-- A balance that a call may find no longer finite after it has written something, when an entry is
already stored, marked or half undone. -/
def Call.Overflows (l : Ledger) : Call → Failure → Prop
  | createEntry _ _ _, e | archiveEntry _ _, e | restoreEntry _ _, e =>
    ∃ source delta, e = .rejected (.overflow source delta)
  | deleteEntry _ id, e => ∃ r ∈ l.entries.rows, id.id? = some r.id ∧
    r.data.kind.isTransfer = true ∧
      ∃ delta, e = .rejected (.overflow (Value.ofInt? r.data.secondary) delta)
  | _, _ => False

/-- What a call in a block may fail of without leaving the database as it was: such a balance, or a
row that there is no room for, since then the engine undoes the whole block. -/
def Call.Late (l : Ledger) (c : Call) (e : Failure) : Prop :=
  e = .operational noRoom ∨ c.Overflows l e

variable {v : Scope} {s s' : Session}

/-! ## The step -/

/-- Any call agrees on two ledgers with the same rows of the users it looks at. -/
theorem Call.agrees (h : s.Beside v s') {c : Call} (htyped : c.Typed) (hwithin : c.Within v)
    (hlate : ∀ e, c.Late s.database.ledger e → v.late e) (hflag : v.strict → c.Flagged) :
    Agrees v false c.run s s' := by
  have hall (hu : c.user? = none) : ∀ n, v.sees n = true := by
    rwa [Call.Within, hu] at hwithin
  have hcovers {user : Value} (hu : c.user? = some user) (hid : user ∈ c.ids) : v.Covers user :=
    ⟨htyped user hid, by rwa [Call.Within, hu] at hwithin⟩
  have hroom : v.late (.operational noRoom) := hlate _ (.inl rfl)
  cases c with
  | createUser username password =>
    exact (agrees_createUser h (hall rfl) hroom username password).map _
  | registerUser username password currency =>
    exact (agrees_registerUser h (hall rfl) hroom username password currency).map _
  | getUser user => exact ((consults_findUser h (hcovers rfl (by simp [ids]))).map _).agrees
  | getUserByUsername username => exact ((consults_findByUsername h (hall rfl) username).map _).agrees
  | verifyCredentials username password =>
    exact ((consults_verifyCredentials h (hall rfl) username password).map _).agrees
  | changePassword user old new =>
    exact (agrees_changePassword h (hcovers rfl (by simp [ids])) old new).map _
  | setEnabled user enabled =>
    exact (agrees_enableUser h (hcovers rfl (by simp [ids])) hflag).map _
  | setFixedCurrency user currency =>
    exact (agrees_chooseFixedCurrency h (hcovers rfl (by simp [ids]))
      (htyped _ (by simp [ids]))).map _
  | deleteUser user => exact (agrees_deleteUser h (hcovers rfl (by simp [ids]))).map _
  | createCurrency user name rate =>
    exact (agrees_createCurrency h (hcovers rfl (by simp [ids])) name rate hroom).map _
  | updateCurrency user id name rate =>
    exact (agrees_updateCurrency h (hcovers rfl (by simp [ids])) (htyped _ (by simp [ids]))
      name rate).map _
  | createCategory user name =>
    exact (agrees_createCategory h (hcovers rfl (by simp [ids])) name hroom).map _
  | createSource user name currency amount =>
    exact (agrees_createSource h (hcovers rfl (by simp [ids])) (htyped _ (by simp [ids]))
      name amount hroom).map _
  | rename kind user id name =>
    have hu : v.Covers user := hcovers rfl (by simp [ids])
    have hid : id.isId = true := htyped _ (by simp [ids])
    cases kind <;> exact (agrees_rename h hu hid name).map _
  | archive kind user id =>
    have hu : v.Covers user := hcovers rfl (by simp [ids])
    have hid : id.isId = true := htyped _ (by simp [ids])
    cases kind <;> exact (agrees_mark h hu hid true).logged.map _
  | restore kind user id =>
    have hu : v.Covers user := hcovers rfl (by simp [ids])
    have hid : id.isId = true := htyped _ (by simp [ids])
    cases kind <;> exact (agrees_mark h hu hid false).logged.map _
  | delete kind user id =>
    have hu : v.Covers user := hcovers rfl (by simp [ids])
    have hid : id.isId = true := htyped _ (by simp [ids])
    cases kind with
    | currency => exact (agrees_removeCurrency h hu hid).map _
    | category => exact (agrees_removeCategory h hu hid).map _
    | source => exact (agrees_removeSource h hu hid).map _
  | get kind user id =>
    have hu : v.Covers user := hcovers rfl (by simp [ids])
    cases kind <;> exact ((consults_loadOwned h hu id _ _).map _).agrees
  | getByName kind user name =>
    have hu : v.Covers user := hcovers rfl (by simp [ids])
    cases kind <;> exact ((consults_findByName h hu name).map _).agrees
  | list kind user includeArchived =>
    have hu : v.Covers user := hcovers rfl (by simp [ids])
    cases kind <;> exact ((consults_findByUser h hu includeArchived).map _).agrees
  | createEntry user data fields =>
    exact (agrees_createEntry h (hcovers rfl (by cases data <;> simp [ids])) htyped
      (fun _ _ => hlate _ (.inr ⟨_, _, rfl⟩)) hroom).map _
  | getEntry user id =>
    exact ((consults_loadOwned h (hcovers rfl (by simp [ids])) id _ _).map _).agrees
  | listEntries user filter =>
    exact ((consults_listEntries h (hcovers rfl (by simp [ids])) filter).map _).agrees
  | archiveEntry user id =>
    exact (agrees_marked h (hcovers rfl (by simp [ids])) (htyped _ (by simp [ids]))
      (fun _ _ => hlate _ (.inr ⟨_, _, rfl⟩)) true _ _).map _
  | restoreEntry user id =>
    exact (agrees_marked h (hcovers rfl (by simp [ids])) (htyped _ (by simp [ids]))
      (fun _ _ => hlate _ (.inr ⟨_, _, rfl⟩)) false _ _).map _
  | deleteEntry user id =>
    exact (agrees_deleteEntry h (hcovers rfl (by simp [ids])) (htyped _ (by simp [ids]))
      fun r hr hrid hk delta => hlate _ (.inr ⟨r, hr, hrid, hk, delta, rfl⟩)).map _

/-- What comes of a call is the same on both ledgers, and afterwards they have the same rows again;
rows of users out of view are left alone. A call that fails outside of any transaction leaves both
ledgers as they were. -/
theorem Call.agrees_outside (h : s.Beside v s') (ho : s.inBlock = false) {c : Call}
    (htyped : c.Typed) (hwithin : c.Within v) (hlate : ∀ e, c.Late s.database.ledger e → v.late e)
    (hflag : v.strict → c.Flagged) :
    ∃ r t t', c.run.exec s = (r, t) ∧ c.run.exec s' = (r, t') ∧ t.Beside v t' ∧
      s.Follows v t ∧ s'.Follows v t' ∧
      Ledger.Same (fun n => !v.sees n) s.database.ledger t.database.ledger := by
  cases c.agrees h htyped hwithin hlate hflag with
  | ok run run' beside follows follows' same =>
    exact ⟨_, _, _, run, run', beside, follows, follows', same⟩
  | @error e t t' run run' paired fallen fallen' kept =>
    have ho' : s'.inBlock = false := h.inBlock.trans ho
    have hd : t.database = s.database := by
      simpa [run] using (c.atomic s ho).2 e (by rw [run])
    have hd' : t'.database = s'.database := by
      simpa [run'] using (c.atomic s' ho').2 e (by rw [run'])
    exact ⟨_, t, t', run, run', h.of_database_eq hd hd' paired fun hv => (kept hv).1.timely hv,
      fallen.follows ho, fallen'.follows ho', by rw [hd]; exact .refl _ _⟩

/-- Sessions outside of blocks, on databases that calls lead to, are side by side if these have the
same rows of the users in view. Whether references must resolve may differ. -/
theorem beside_of_alike {db : Database} (enforce : Bool) (hd : Reachable s.database)
    (hd' : Reachable db) (ho : s.inBlock = false) (hfuse : s.fuse = none) (hbreaks : s.breaks = none)
    (halike : Ledger.Alike v.sees s.database.ledger db.ledger)
    (hnow : v.timely → ∃ m : Calendar.Moment, s.now = m.toText) :
    s.Beside v { s with database := db, enforce } where
  fuse := ⟨hfuse, hfuse⟩
  breaks := ⟨hbreaks, hbreaks⟩
  standing := by
    rw [Session.inBlock_eq_false.1 ho]
    exact .outside
  scheme := rfl
  salts := rfl
  now := rfl
  layout := ⟨hd.intact.1, hd'.intact.1⟩
  intact := hd.intact.2
  intact' := hd'.intact.2
  alike := halike
  timely := hnow

end Bookkeeping.Service
