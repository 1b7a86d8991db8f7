import Mathlib
import Bookkeeping.Proofs.Acceptance
import Bookkeeping.Proofs.Journal
import Bookkeeping.Proofs.Reports

/-! # What calls log

Every call that may change something logs under a name of its own. If it is rejected, its rejection
is the only event above the lowest level that it leaves; if it changes anything, it says so in an
event that names the ids concerned. And the event of a new entry shows which balances were shifted,
and by how much.
-/

namespace Bookkeeping.Service

open Store Store.Op

/-! ## The names of operations and the ids they concern -/

/-- The name that a call is logged under, if it may change anything. -/
def Call.operation? : Call → Option String
  | createUser _ _ => some "create_user"
  | registerUser _ _ _ => some "register_user"
  | getUser _ => none
  | getUserByUsername _ => none
  | verifyCredentials _ _ => none
  | changePassword _ _ _ => some "change_password"
  | setEnabled _ _ => some "set_enabled"
  | setFixedCurrency _ _ => some "set_fixed_currency"
  | deleteUser _ => some "delete_user"
  | createCurrency _ _ _ => some "create_currency"
  | updateCurrency _ _ _ _ => some "update_currency"
  | createCategory _ _ => some "create_category"
  | createSource _ _ _ _ => some "create_source"
  | rename kind _ _ _ => some ("rename_" ++ kind.run fun ρ [Catalog ρ] [Shown ρ] => Catalog.entity ρ)
  | archive kind _ _ => some ("archive_" ++ kind.run fun ρ [Catalog ρ] [Shown ρ] => Catalog.entity ρ)
  | restore kind _ _ => some ("restore_" ++ kind.run fun ρ [Catalog ρ] [Shown ρ] => Catalog.entity ρ)
  | delete kind _ _ => some ("delete_" ++ kind.run fun ρ [Catalog ρ] [Shown ρ] => Catalog.entity ρ)
  | get _ _ _ => none
  | getByName _ _ _ => none
  | list _ _ _ => none
  | createEntry _ _ _ => some "create_entry"
  | getEntry _ _ => none
  | listEntries _ _ => none
  | archiveEntry _ _ => some "archive_entry"
  | restoreEntry _ _ => some "restore_entry"
  | deleteEntry _ _ => some "delete_entry"

/-- The ids that a call concerns, as they are logged: those that it was given, and that of a row that
it has made. -/
def Call.concerned : Call → Answer → List (String × Value)
  | createUser _ _, .user (some r) => [("user_id", .int r.id)]
  | registerUser _ _ _, .user (some r) => [("user_id", .int r.id)]
  | changePassword user _ _, _ => [("user_id", user)]
  | setEnabled user _, _ => [("user_id", user)]
  | setFixedCurrency user currency, _ => [("user_id", user), ("currency_id", currency)]
  | deleteUser user, _ => [("user_id", user)]
  | createCurrency user _ _, .currency (some r) => [("user_id", user), ("currency_id", .int r.id)]
  | updateCurrency user id _ _, _ => [("user_id", user), ("currency_id", id)]
  | createCategory user _, .category (some r) => [("user_id", user), ("category_id", .int r.id)]
  | createSource user _ currency _, .source (some r) =>
    [("user_id", user), ("source_id", .int r.id), ("currency_id", currency)]
  | rename kind user id _, _ =>
    [("user_id", user), (kind.run fun ρ [Catalog ρ] [Shown ρ] => idField ρ, id)]
  | archive _ user id, _ => [("user_id", user), ("entity_id", id)]
  | restore _ user id, _ => [("user_id", user), ("entity_id", id)]
  | delete _ user id, _ => [("user_id", user), ("entity_id", id)]
  | createEntry user _ _, .entry (some r) => [("user_id", user), ("entry_id", .int r.id)]
  | archiveEntry user id, _ => [("user_id", user), ("entry_id", id)]
  | restoreEntry user id, _ => [("user_id", user), ("entry_id", id)]
  | deleteEntry user id, _ => [("user_id", user), ("entry_id", id)]
  | _, _ => []

/-! ## Logged operations -/

variable {α β : Type} {s t : Session} {P : Log.Event → Prop} {ids : α → List (String × Value)}

/-- The event of a rejected operation. -/
def rejectionEvent (operation : String) (r : Rejection) : Log.Event :=
  ⟨.warning, Log.Part.operations.logger, "Operation rejected", rejectionFields operation r⟩

/-- What a logged operation has logged: only its rejection if it is rejected, and otherwise events of
some kind, one of which informs about what was changed. -/
structure Recounted (operation : String) (P : Log.Event → Prop) (ids : α → List (String × Value))
    (s : Session) (r : Except Failure α) (t : Session) (events : List Log.Event) : Prop where
  log : t.log = s.log ++ events
  kinds : (∀ x, r ≠ .error (.rejected x)) → ∀ e ∈ events, IsRollback e ∨ P e
  rejected : ∀ x, r = .error (.rejected x) →
    ∃ first, events = first ++ [rejectionEvent operation x] ∧ ∀ e ∈ first, IsRollback e
  changed : ∀ a, r = .ok a → t.database = s.database ∨ ∃ e ∈ events, Informs (ids a) e

/-- An operation that is logged under a name. -/
def Recounts (operation : String) (P : Log.Event → Prop) (ids : α → List (String × Value))
    (op : Op α) (s : Session) : Prop :=
  ∃ events, Recounted operation P ids s (op.exec s).1 (op.exec s).2 events

theorem recounts_of_reports {operation : String} {op : Op α} (h : Reports P ids op s) :
    Recounts operation P ids (logged operation op) s := by
  obtain ⟨events, hreport⟩ := h
  rw [Recounts, exec_logged]
  cases hx : op.exec s with
  | mk r t =>
    rw [hx] at hreport
    obtain ⟨⟨hlog, hkinds, hrejected⟩, hchanged⟩ := hreport
    cases r with
    | ok a => exact ⟨events, hlog, fun _ => hkinds, by simp, hchanged⟩
    | error e =>
      cases e with
      | rejected x =>
        refine ⟨events ++ [rejectionEvent operation x], ?_, fun h => absurd rfl (h x), ?_, by simp⟩
        · rw [← List.append_assoc, ← hlog]
          rfl
        · rintro _ ⟨⟩
          exact ⟨events, rfl, hrejected x rfl⟩
      | _ => exact ⟨events, hlog, fun _ => hkinds, by simp, by simp⟩

theorem recounts_logged {operation : String} {op : Op α} (h : Reporting s.setting P ids op)
    (ho : s.inBlock = false) : Recounts operation P ids (logged operation op) s :=
  recounts_of_reports (h s rfl ho)

theorem Recounts.map {γ : Type} {operation : String} {op : Op α} {f : α → γ}
    {ids' : γ → List (String × Value)} (h : Recounts operation P ids op s)
    (hids : ∀ a, ids' (f a) = ids a) : Recounts operation P ids' (f <$> op) s := by
  obtain ⟨events, hlog, hkinds, hrejected, hchanged⟩ := h
  refine ⟨events, ?_⟩
  rw [exec_map]
  cases hx : op.exec s with
  | mk r t =>
    rw [hx] at hlog hkinds hrejected hchanged
    cases r with
    | ok a =>
      refine ⟨hlog, fun _ => hkinds (by simp), by simp, ?_⟩
      rintro _ ⟨⟩
      rw [hids]
      exact hchanged a rfl
    | error e =>
      refine ⟨hlog, fun h => hkinds fun x hx => h x ?_, fun x hx => hrejected x ?_, by simp⟩
      · cases hx
        rfl
      · cases hx
        rfl

/-- The name of an event that is neither of a rejected operation nor of a new entry. -/
def Plain (event : String) : Prop := event ≠ "Operation rejected" ∧ event ≠ "Entry created"

instance (event : String) : Decidable (Plain event) := inferInstanceAs (Decidable (_ ∧ _))

/-! ## Users -/

section

variable (hP : ∀ {level logger event fields}, Plain event → P ⟨level, logger, event, fields⟩)

include hP

theorem recounts_createUser (ho : s.inBlock = false) (username password : Value) :
    Recounts "create_user" P (fun r => [("user_id", .int r.id)]) (createUser username password) s :=
  recounts_logged (reporting_after (orderly_newUser _ _) fun _ hu =>
    (Orderly.transaction (orderly_insertUser hu)).reporting (fun _ => hP (by decide)) (by simp)) ho

theorem recounts_registerUser (ho : s.inBlock = false) (username password currency : Value) :
    Recounts "register_user" P (fun r => [("user_id", .int r.id)])
      (registerUser username password currency) s :=
  recounts_logged (reporting_after (orderly_newUser _ _) fun _ hu =>
    .optionally fun _ hname => (Orderly.transaction
      (orderly_register hu fun n hn => Check.properName (hname n hn))).reporting
      (fun _ => hP (by decide)) (by simp)) ho

theorem recounts_changePassword (ho : s.inBlock = false) (user old new : Value) :
    Recounts "change_password" P (fun _ => [("user_id", user)]) (changePassword user old new) s := by
  refine recounts_logged (reporting_lift fun p hp => reporting_after (orderly_requireUser user)
    fun u _ => ?_) ho
  have hend (right : Bool) : Reporting s.setting P (fun _ => [("user_id", user)]) (if !right then do
        emit .warning .users "Password change refused" [("user_id", user)]
        pure false
      else do
        let hash ← hashed p
        let _ ← transaction (updatePassword user (.text hash))
        emit .info .users "Password changed" [("user_id", user)]
        pure true) := by
    refine .ite (reporting_emit (hP (by decide)) false) (reporting_after (.hashed p)
      fun hash hh v hv _ => ?_)
    obtain ⟨n, rfl⟩ := hh
    exact ((Orderly.transaction (orderly_updatePassword user ⟨n, new, p, hp, rfl⟩)).tells hv).thenInforms
      (fun _ _ _ => hP (by decide)) (fun _ _ => .pure trivial) (fun _ => firm_pure true) (by simp)
  exact .ite (reporting_after (orderly_passwordMatches u old) fun right _ => hend right)
    (reporting_after (k := .quiet) (R := fun _ => True) (.pure trivial) fun right _ => hend right)

theorem recounts_enableUser (ho : s.inBlock = false) (user enabled : Value) :
    Recounts "set_enabled" P (fun _ => [("user_id", user)]) (enableUser user enabled) s := by
  refine recounts_logged ((Orderly.transaction (orderly_switch user enabled)).reporting
    (fun _ => hP ?_) (by simp)) ho
  split <;> decide

theorem recounts_chooseFixedCurrency (ho : s.inBlock = false) (user currency : Value) :
    Recounts "set_fixed_currency" P (fun _ => [("user_id", user), ("currency_id", currency)])
      (chooseFixedCurrency user currency) s :=
  recounts_logged ((Orderly.transaction (orderly_chooseCurrency user currency)).reporting
    (fun _ => hP (by decide)) (by simp)) ho

theorem recounts_deleteUser (ho : s.inBlock = false) (user : Value) :
    Recounts "delete_user" P (fun _ => [("user_id", user)]) (deleteUser user) s :=
  recounts_logged ((Orderly.transaction (orderly_removeAccount user)).reporting
    (fun _ => hP (by decide)) (by simp)) ho

/-! ## Currencies, categories and sources -/

theorem recounts_createCurrency (ho : s.inBlock = false) (user name rate : Value) :
    Recounts "create_currency" P (fun r => [("user_id", user), ("currency_id", .int r.id)])
      (createCurrency user name rate) s :=
  recounts_logged (reporting_lift fun _ hn => reporting_lift fun x _ =>
    (orderly_newCurrency user (Check.properName hn) x).reporting (fun _ => hP (by decide))
      (by simp)) ho

theorem recounts_createCategory (ho : s.inBlock = false) (user name : Value) :
    Recounts "create_category" P (fun r => [("user_id", user), ("category_id", .int r.id)])
      (createCategory user name) s :=
  recounts_logged (reporting_lift fun _ hn =>
    (orderly_newCategory user (Check.properName hn)).reporting (fun _ => hP (by decide))
      (by simp)) ho

theorem recounts_createSource (ho : s.inBlock = false) (user name currency amount : Value) :
    Recounts "create_source" P
      (fun r => [("user_id", user), ("source_id", .int r.id), ("currency_id", currency)])
      (createSource user name currency amount) s :=
  recounts_logged (reporting_lift fun _ hn => reporting_lift fun x _ =>
    (orderly_newSource user currency (Check.properName hn) x).reporting (fun _ => hP (by decide))
      (by simp)) ho

theorem recounts_updateCurrency (ho : s.inBlock = false) (user id name rate : Value) :
    Recounts "update_currency" P (fun _ => [("user_id", user), ("currency_id", id)])
      (updateCurrency user id name rate) s := by
  refine recounts_logged (.optionally fun n hn => .optionally fun x _ => ?_) ho
  have hadjust := Orderly.transaction (orderly_adjust (T := .silent s.setting) user id
    (fun m hm => Check.properName (hn m hm)) x)
  -- nothing is said where nothing is given to be changed
  cases n with
  | some n => cases x <;> exact hadjust.reporting (fun _ => hP (by decide)) (by simp)
  | none =>
    cases x with
    | some x => exact hadjust.reporting (fun _ => hP (by decide)) (by simp)
    | none =>
      intro v hv hout
      refine Orderly.reports (hadjust.finish fun _ _ => .pure trivial) hv fun a t hx => ?_
      obtain ⟨b, u, hu, hp⟩ := bind_ok hx
      obtain ⟨-, rfl⟩ := pure_ok hp
      obtain ⟨w, hw, rfl⟩ := transaction_ok hout hu
      have hnothing : (update Currency id []).Orderly (.silent v.setting) .quiet fun _ => True :=
        .pure trivial
      have hquiet := (orderly_loadOwned (T := .silent v.setting) Currency user id "currency_id").bind
        fun _ _ => hnothing.bind fun _ _ => orderly_find Currency id
      exact hquiet.database_eq (s := v.start) (t := w) rfl rfl hw

/-! ### Any kind of named row -/

section

variable (ρ : Type) [Catalog ρ] (user id : Value)
  (hw : ∀ g I, Lasting g I → WithstandsNamed g I ρ)

include hw

theorem recounts_rename (ho : s.inBlock = false) (name : Value)
    (hevent : Plain (Catalog.entityTitle ρ ++ " renamed")) :
    Recounts ("rename_" ++ Catalog.entity ρ) P (fun _ => [("user_id", user), (idField ρ, id)])
      (rename ρ user id name) s :=
  recounts_logged (reporting_lift fun _ hn => (Orderly.transaction (orderly_giveName
    (T := .silent s.setting) (hw s.setting) user id (Check.properName hn))).reporting
      (fun _ => hP hevent) (by simp)) ho

/-- Marking a row is announced before the row is looked for, which is not rejected. -/
theorem reporting_mark {g : Setting} (archived : Bool)
    (hdecode : ∀ layout (r : Row ρ), Unrejected (Persistent.decode layout r))
    (hevent : Plain (Catalog.entityTitle ρ ++ (if archived then " archived" else " restored"))) :
    Reporting g P (fun _ => [("user_id", user), ("entity_id", id)]) (mark ρ archived user id) := by
  intro s hs ho
  have hmarks (I : Database → Prop) (hI : Lasting g I) : Withstands g I ρ _ OnlyMarks :=
    (hw g I hI).toWithstands.mono (fun _ ha => ha) fun _ => OnlyMarks.renames
  refine Reports.transaction ((orderly_loadOwned ρ user id _).thenReports rfl hs
    fun r t _ _ hset _ => ?_) ho
  split
  · exact ((orderly_setArchived (T := .silent g) ρ hmarks id _).tells hset).thenInforms
      (fun _ _ _ => hP hevent) (fun _ _ => orderly_find ρ id) (fun _ => firm_find hdecode id) (by simp)
  · have hfind := orderly_find (T := .silent g) ρ id
    exact hfind.reports hset fun a u hu => hfind.database_eq rfl hset hu

omit hw in
/-- Removing a row is reported if what is done last is not rejected once it has begun. -/
theorem recounts_remove (ho : s.inBlock = false)
    (husage : (Catalog.usage ρ id).Orderly (.silent s.setting) .quiet fun _ => True)
    (hclear : ∀ counts t u, t.database = s.database → u.database = t.database →
      (Catalog.usage ρ id).exec t = (.ok counts, u) →
      (∀ n ∈ counts, n.2 = 0) → Tells P (do Catalog.beforeDelete ρ id; delete ρ id) u)
    (hevent : Plain (Catalog.entityTitle ρ ++ " deleted")) :
    Recounts ("delete_" ++ Catalog.entity ρ) P (fun _ => [("user_id", user), ("entity_id", id)])
      (remove ρ user id) s := by
  refine recounts_of_reports (Reports.transaction ?_ ho)
  refine (orderly_loadOwned ρ user id _).thenReports (g := s.setting) rfl rfl
    fun r t _ _ hset hdt => ?_
  refine husage.thenReports rfl hset fun counts u hu _ hset hdu => ?_
  split
  · exact Orderly.reports (orderly_fail (T := .silent s.setting) (k := .quiet) (Q := fun _ => True) _)
      hset fun a v hv => by cases hv
  · rename_i hzero
    have htells := hclear counts t u hdt hdu hu (by simpa using hzero)
    have hend : Reports P (fun _ => [("user_id", user), ("entity_id", id)]) (do
        let _ ← (do Catalog.beforeDelete ρ id; delete ρ id)
        emit .info .operations (Catalog.entityTitle ρ ++ " deleted")
          [("user_id", user), ("entity_id", id)]
        pure ()) u :=
      htells.thenInforms (fun _ _ _ => hP hevent) (fun _ _ => .pure trivial)
        (fun _ => firm_pure ()) (by simp)
    rw [bind_assoc] at hend
    exact hend

end

/-! ## Entries -/

omit hP in
/-- An entry that is marked already is left alone. -/
theorem markEntry_none {archived : Bool} {user id : Value} {e : Row Entry}
    (ho : s.inBlock = false) (hx : (markEntry archived user id).exec s = (.ok (e, none), t)) :
    t.database = s.database := by
  obtain ⟨u, hu, rfl⟩ := transaction_ok ho hx
  obtain ⟨e', v, hv, hrest⟩ := bind_ok hu
  have hdv : v.database = s.database :=
    (orderly_loadOwned (T := .calls s.setting) StoredEntry user id _).database_eq (s := s.start) rfl rfl hv
  split at hrest
  · obtain ⟨-, rfl⟩ := pure_ok hrest
    exact hdv
  · obtain ⟨_, _, -, h₁⟩ := bind_ok hrest
    obtain ⟨_, _, -, h₂⟩ := bind_ok h₁
    obtain ⟨_, _, -, h₃⟩ := bind_ok h₂
    obtain ⟨_, _, -, h₄⟩ := bind_ok h₃
    obtain ⟨hout, -⟩ := pure_ok h₄
    cases hout

/-- Archiving and restoring are announced if anything was changed. -/
theorem reporting_marked {g : Setting} (archived : Bool) {event : String} (hevent : Plain event)
    (user id : Value) :
    Reporting g P (fun _ => [("user_id", user), ("entry_id", id)]) (do
      match ← markEntry archived user id with
      | (e, none) => pure (some e)
      | (_, some after) =>
        emit .info .entries event [("user_id", user), ("entry_id", id)]
        pure after) := by
  intro s hs ho
  obtain ⟨first, hlog, hall⟩ := (orderly_markEntry archived user id).hushed hs
  rw [Reports, exec_bind]
  cases hx : (markEntry archived user id).exec s with
  | mk r t =>
    rw [hx] at hlog
    cases r with
    | error e => exact ⟨first, .of_rollbacks hlog hall, by simp⟩
    | ok out =>
      obtain ⟨e, after⟩ := out
      cases after with
      | none => exact ⟨first, .of_rollbacks hlog hall, fun _ _ => .inl (markEntry_none ho hx)⟩
      | some after =>
        have htold : Told P s (.ok ()) t first := .of_rollbacks hlog hall
        exact ⟨_, htold.before (hP hevent) (List.append_nil _).symm (List.forall_mem_nil _)
          (by rintro _ ⟨⟩), fun _ _ => .inr
            ⟨_, List.mem_append_right _ List.mem_cons_self, rfl, List.Subset.refl _⟩⟩

theorem recounts_deleteEntry (ho : s.inBlock = false) (user id : Value) :
    Recounts "delete_entry" P (fun _ => [("user_id", user), ("entry_id", id)])
      (deleteEntry user id) s :=
  recounts_logged ((Orderly.transaction (orderly_removeEntry user id)).reporting
    (fun _ => hP (by decide)) (by simp)) ho

end

/-! ## The balances that a new entry shifts -/

/-- A source with what the deltas have for its id added to its balance. -/
def addedTo (deltas : List (Int × Float)) (r : Row Source) : Row Source :=
  match deltas.lookup r.id with
  | some d => { r with data := { r.data with amount := unsigned (r.data.amount + d) } }
  | none => r

/-- Whether an event names the sources that were shifted from one ledger to another, each of them
once and with what was added to its balance. -/
def ShowsShifts (l m : Ledger) (e : Log.Event) : Prop :=
  ∃ deltas : List (Int × Float),
    ("balance_changes", .dict (deltas.map fun (id, d) => (toString id, .float d))) ∈ e.fields ∧
      (deltas.map Prod.fst).Nodup ∧ (∀ x ∈ deltas, l.sources.Has x.1) ∧
      m.sources.rows = l.sources.rows.map (addedTo deltas)

/-- Shifts of different sources are shifts by the deltas of their ids. -/
theorem deltas_of_shifts {shifts : List Shift} {p : Int → Prop}
    (h : ∀ x ∈ shifts, ∃ id, x.source = some id ∧ p id) (hn : (shifts.map Shift.source).Nodup) :
    ∃ deltas : List (Int × Float), shifts = deltas.map (fun (id, d) => ⟨some id, d⟩) ∧
      (deltas.map Prod.fst).Nodup ∧ ∀ x ∈ deltas, p x.1 := by
  induction shifts with
  | nil => exact ⟨[], rfl, List.nodup_nil, by simp⟩
  | cons x rest ih =>
    obtain ⟨hx, hrest⟩ := List.nodup_cons.1 hn
    obtain ⟨deltas, rfl, hdeltas, hp⟩ := ih (fun y hy => h y (List.mem_cons_of_mem x hy)) hrest
    obtain ⟨id, hid, hpid⟩ := h x List.mem_cons_self
    obtain ⟨source, d⟩ := x
    obtain rfl : source = some id := hid
    refine ⟨(id, d) :: deltas, rfl, List.nodup_cons.2 ⟨fun hmem => hx ?_, hdeltas⟩,
      List.forall_mem_cons.2 ⟨hpid, hp⟩⟩
    obtain ⟨y, hy, hyid⟩ := List.mem_map.1 hmem
    exact List.mem_map.2 ⟨⟨some y.1, y.2⟩, List.mem_map.2 ⟨y, hy, rfl⟩, congrArg some hyid⟩

/-- Shifting one source after the other adds to every source what there is for it. -/
theorem rows_shiftAll (l : Ledger) {deltas : List (Int × Float)}
    (hn : (deltas.map Prod.fst).Nodup) :
    (l.shiftAll (deltas.map fun (id, d) => ⟨some id, d⟩)).sources.rows
      = l.sources.rows.map (addedTo deltas) := by
  induction deltas generalizing l with
  | nil => exact (List.map_id _).symm
  | cons x rest ih =>
    obtain ⟨id, d⟩ := x
    obtain ⟨hid, hrest⟩ := List.nodup_cons.1 hn
    refine (ih (l.shift ⟨some id, d⟩) hrest).trans ?_
    show (l.sources.change _ _).rows.map _ = _
    rw [Table.rows_change, List.map_map]
    refine List.map_congr_left fun r _ => ?_
    have hnone : rest.lookup id = none := List.lookup_eq_none_iff.2 fun x hx => by
      have hne : x.1 ≠ id := fun h => hid (List.mem_map.2 ⟨x, hx, h⟩)
      simpa using hne.symm
    by_cases hr : r.id = id
    · simp [addedTo, hr, hnone, shiftedBy]
    · have hne : (r.id == id) = false := by simpa using hr
      simp [addedTo, List.lookup_cons, hne, Ne.symm hr]

/-- As a dictionary, deltas of different ids stand one after the other. -/
theorem shiftFields_eq {deltas : List (Int × Float)} (hn : (deltas.map Prod.fst).Nodup) :
    shiftFields (deltas.map fun (id, d) => ⟨some id, d⟩)
      = deltas.map fun (id, d) => (toString id, .float d) := by
  -- whatever stands before them has other keys
  have hfold (fields : List (String × Value))
      (hnew : ∀ x ∈ deltas, toString x.1 ∉ fields.map Prod.fst) :
      (deltas.map fun (id, d) => (⟨some id, d⟩ : Shift)).foldl (fun fs s =>
        Value.setField ((s.source.map fun (n : Int) => toString n).getD "null") (.float s.delta) fs)
        fields = fields ++ deltas.map fun (id, d) => (toString id, .float d) := by
    induction deltas generalizing fields with
    | nil => exact (List.append_nil _).symm
    | cons x rest ih =>
      obtain ⟨hx, hrest⟩ := List.nodup_cons.1 hn
      obtain ⟨hnewx, hnewrest⟩ := List.forall_mem_cons.1 hnew
      show (rest.map _).foldl _ (Value.setField (toString x.1) (.float x.2) fields) = _
      rw [Value.setField_new _ hnewx, ih hrest, List.append_assoc]
      · rfl
      · intro y hy hmem
        rw [List.map_append, List.mem_append] at hmem
        obtain hmem | hmem := hmem
        · exact hnewrest y hy hmem
        · have heq : y.1 = x.1 := Int.repr_injective (List.mem_singleton.1 hmem)
          exact hx (List.mem_map.2 ⟨y, hy, heq⟩)
  exact hfold [] (by simp)

/-- What is recorded shifts different sources that there are. -/
theorem Recordable.apart {user : Value} {r : EntryRequest} {c : Checked} {e : Entry}
    {a : Row Entry} {shifts : List Shift} (h : Recordable s user r c e a shifts) (hc : InOrder r c)
    (hi : Intact s.database.ledger) (hids : ∀ v ∈ r.ids, v.isId = true) :
    (shifts.map Shift.source).Nodup ∧
      ∀ x ∈ shifts, ∃ id, x.source = some id ∧ s.database.ledger.sources.Has id := by
  obtain ⟨⟨cat, cur, src, fixed, hplaced, -, hread, hshifts⟩, -, hreadable, -⟩ := h
  obtain ⟨text, party, -, -, -, -, -, hitem⟩ := (read_entryFields hplaced.category.owner
    (hids _ (by simp [EntryRequest.ids]))).1 hread
  obtain rfl : e = entryOf cat.data.owner r c cat.id cur.id src.id fixed text party :=
    congrArg Item.data hitem
  have heffects := (hplaced.effects hi rfl rfl hreadable).trans hshifts
  obtain ⟨hn, howns⟩ := (hplaced.filed hc hi ⟨shifts, heffects⟩).of_effects rfl heffects
  refine ⟨hn, fun x hx => ?_⟩
  obtain ⟨id, hid, hown⟩ := howns x hx
  exact ⟨id, hid, hown.has⟩

/-- The event of a new entry shows what its shifts have added to balances. -/
theorem showsShifts_recordEntry (ho : s.inBlock = false) (hl : s.database.layout = .full)
    (hi : Intact s.database.ledger) {user : Value} {r : EntryRequest} {c : Checked}
    (hc : InOrder r c) (hu : user.isId = true) (hids : ∀ v ∈ r.ids, v.isId = true) {a : Row Entry}
    {shifts : List Shift} (hx : (recordEntry user r c).exec s = (.ok (a, shifts), t))
    {e : Log.Event} (he : ("balance_changes", .dict (shiftFields shifts)) ∈ e.fields) :
    ShowsShifts s.database.ledger t.database.ledger e := by
  -- what succeeds was not broken off
  have hcalm := (orderly_recordEntry (T := .calls s.setting) user hc).unbroken rfl hx
  obtain ⟨e', hrec, ht⟩ := recordEntry_ok (s := s.calm)
    ⟨Session.inTransaction_of_breaks rfl ho, hl, rfl, rfl⟩ hi hu hids hcalm
  obtain ⟨hn, hhas⟩ := hrec.apart hc hi hids
  obtain ⟨deltas, rfl, hdeltas, hp⟩ := deltas_of_shifts hhas hn
  refine ⟨deltas, shiftFields_eq hdeltas ▸ he, hdeltas, hp, ?_⟩
  have hdb : t.database.ledger.sources = (s.database.ledger.shiftAll _).sources :=
    congrArg (fun u : Session => u.database.ledger.sources) ht
  rw [hdb, rows_shiftAll _ hdeltas]

/-! ## Calls -/

/-- The event of a new entry. -/
def entryCreated (user : Value) (c : Checked) (a : Row Entry) (shifts : List Shift) : Log.Event :=
  ⟨.info, Log.Part.entries.logger, "Entry created",
    [("user_id", user), ("entry_id", .int a.id), ("entry_type", .text c.kind.text),
      ("balance_changes", .dict (shiftFields shifts))]⟩

theorem exec_requestOf (data : Option EntryRequest) (fields : List (String × Value)) (s : Session) :
    ((requestOf data fields).exec s).2 = s := by
  unfold requestOf
  split
  · rfl
  · split <;> rfl

theorem recounts_createEntry (user : Value)
    (data : Option EntryRequest) (fields : List (String × Value))
    (hentry : ∀ r c a shifts t, (requestOf data fields).exec s = (.ok r, s) →
      checkRequest r = .ok c → (recordEntry user r c).exec s = (.ok (a, shifts), t) →
      P (entryCreated user c a shifts)) :
    Recounts "create_entry" P (fun a => [("user_id", user), ("entry_id", .int a.id)])
      (createEntry user data fields) s := by
  refine recounts_of_reports ((orderly_requestOf data fields).thenReports rfl rfl
    fun r t hr _ hset _ => ?_)
  obtain rfl : t = s := by
    have h := exec_requestOf data fields s
    rwa [hr] at h
  refine (Orderly.lift _).thenReports rfl hset fun c u hlift _ hset _ => ?_
  obtain ⟨hc, rfl⟩ := lift_ok hlift
  refine ((orderly_recordEntry user (checkRequest_ok.1 hc)).tells hset).thenInforms
    (fun out v hv => hentry r c out.1 out.2 v hr hc hv) (fun _ _ => .pure trivial)
    (fun _ => firm_pure _) ?_
  rintro ⟨a, shifts⟩ v b w hb
  cases hb
  simp

theorem unrejected_reread {ρ : Type} [Record ρ] (r : Row ρ) : Unrejected (reread r) := by
  refine Unrejected.bind (fun x => ?_) fun item => unrejected_ok _
  unfold Reading.orFail
  split <;> simp

/-- What kind of event is logged by a call that may change something: no rejection, and the event of
a new entry for what it has done to balances only. -/
def Call.Faithful (c : Call) (s : Session) (e : Log.Event) : Prop :=
  e.event ≠ "Operation rejected" ∧ (e.event = "Entry created" → c.Typed →
    ShowsShifts s.database.ledger (c.run.exec s).2.database.ledger e)

theorem Call.faithful_of_plain (c : Call) {level : Log.Level} {logger event : String}
    {fields : List (String × Value)} (h : Plain event) :
    c.Faithful s ⟨level, logger, event, fields⟩ :=
  ⟨h.1, fun he => absurd he h.2⟩

/-- The event of a new entry shows the shifts of its call. -/
theorem faithful_entryCreated (hd : Reachable s.database) (ho : s.inBlock = false)
    {user : Value} {data : Option EntryRequest} {fields : List (String × Value)} {r : EntryRequest}
    {c : Checked} {a : Row Entry} {shifts : List Shift}
    (hr : (requestOf data fields).exec s = (.ok r, s)) (hc : checkRequest r = .ok c)
    (hx : (recordEntry user r c).exec s = (.ok (a, shifts), t)) :
    (Call.createEntry user data fields).Faithful s (entryCreated user c a shifts) := by
  have hname : "Entry created" ≠ "Operation rejected" := by decide
  refine ⟨hname, fun _ htyped => ?_⟩
  have huser : user.isId = true := htyped user (by cases data <;> exact List.mem_cons_self)
  have hrun : (createEntry user data fields).exec s
      = (.ok a, { t with log := t.log ++ [entryCreated user c a shifts] }) := by
    have hlift : (Op.lift (checkRequest r)).exec s = (.ok c, s) := by rw [exec_lift, hc]
    rw [createEntry, exec_logged, exec_bind_ok hr, exec_bind_ok hlift, exec_bind_ok hx]
    rfl
  have hdb : ((Call.createEntry user data fields).run.exec s).2.database = t.database := by
    rw [Call.run, exec_map, hrun]
  obtain ⟨hl, hi⟩ := hd.intact
  rw [hdb]
  exact showsShifts_recordEntry ho hl hi (checkRequest_ok.1 hc) huser
    (requestOf_ok htyped hr).2 hx (by simp [entryCreated])

/-- Every call that may change something is logged under its name. -/
theorem Call.recounts (hd : Reachable s.database) (ho : s.inBlock = false) (c : Call)
    {operation : String} (hop : c.operation? = some operation) :
    Recounts operation (c.Faithful s) c.concerned c.run s := by
  have hP {c : Call} {level : Log.Level} {logger event : String} {fields : List (String × Value)}
      (h : Plain event) : c.Faithful s ⟨level, logger, event, fields⟩ := c.faithful_of_plain h
  have hread {ρ : Type} [Record ρ] (_ : Layout) (r : Row ρ) : Unrejected (reread r) :=
    unrejected_reread r
  obtain rfl : operation = c.operation?.getD "" := by
    rw [hop]
    rfl
  cases c with
  | createUser username password =>
    exact (recounts_createUser hP ho username password).map fun _ => rfl
  | registerUser username password currency =>
    exact (recounts_registerUser hP ho username password currency).map fun _ => rfl
  | changePassword user old new =>
    exact (recounts_changePassword hP ho user old new).map fun _ => rfl
  | setEnabled user enabled =>
    exact (recounts_enableUser hP ho user enabled).map fun _ => rfl
  | setFixedCurrency user currency =>
    exact (recounts_chooseFixedCurrency hP ho user currency).map fun _ => rfl
  | deleteUser user =>
    exact (recounts_deleteUser hP ho user).map fun _ => rfl
  | createCurrency user name rate =>
    exact (recounts_createCurrency hP ho user name rate).map fun _ => rfl
  | updateCurrency user id name rate =>
    exact (recounts_updateCurrency hP ho user id name rate).map fun _ => rfl
  | createCategory user name =>
    exact (recounts_createCategory hP ho user name).map fun _ => rfl
  | createSource user name currency amount =>
    exact (recounts_createSource hP ho user name currency amount).map fun _ => rfl
  | rename kind user id name =>
    cases kind
    · exact (recounts_rename hP Currency user id (fun _ _ h => h.currencies) ho name
        (by decide)).map fun _ => rfl
    · exact (recounts_rename hP Category user id (fun _ _ h => h.categories) ho name
        (by decide)).map fun _ => rfl
    · exact (recounts_rename hP Source user id (fun _ _ h => h.sources) ho name
        (by decide)).map fun _ => rfl
  | archive kind user id =>
    cases kind
    · exact (recounts_logged (reporting_mark hP Currency user id (fun _ _ h => h.currencies) true hread
        (by decide)) ho).map fun _ => rfl
    · exact (recounts_logged (reporting_mark hP Category user id (fun _ _ h => h.categories) true hread
        (by decide)) ho).map fun _ => rfl
    · exact (recounts_logged (reporting_mark hP Source user id (fun _ _ h => h.sources) true hread
        (by decide)) ho).map fun _ => rfl
  | restore kind user id =>
    cases kind
    · exact (recounts_logged (reporting_mark hP Currency user id (fun _ _ h => h.currencies) false hread
        (by decide)) ho).map fun _ => rfl
    · exact (recounts_logged (reporting_mark hP Category user id (fun _ _ h => h.categories) false hread
        (by decide)) ho).map fun _ => rfl
    · exact (recounts_logged (reporting_mark hP Source user id (fun _ _ h => h.sources) false hread
        (by decide)) ho).map fun _ => rfl
  | delete kind user id =>
    have hsilent {ρ : Type} [Catalog ρ] (hw : ∀ g I, Lasting g I → WithstandsNamed g I ρ)
        (u : Session) : Tells (Call.Faithful (.delete kind user id) s)
          (do pure (); Store.delete ρ id) u :=
      (orderly_delete (T := .silent u.setting) ρ (fun I hI => (hw _ I hI).toWithstands) id).tells rfl
    cases kind
    · refine (recounts_remove hP Currency user id ho (orderly_select Source _)
        (fun counts t u hdt hdu hu hzero => ?_) (by decide)).map fun _ => rfl
      have hi : Intact t.database.ledger := hdt ▸ hd.intact.2
      exact tells_releaseCurrency hi hdu hu hzero fun _ => hP (by decide)
    · exact (recounts_remove hP Category user id ho (orderly_select StoredEntry _)
        (fun _ _ u _ _ _ _ => hsilent (fun _ _ h => h.categories) u) (by decide)).map fun _ => rfl
    · exact (recounts_remove hP Source user id ho (orderly_select StoredEntry _)
        (fun _ _ u _ _ _ _ => hsilent (fun _ _ h => h.sources) u) (by decide)).map fun _ => rfl
  | createEntry user data fields =>
    exact (recounts_createEntry user data fields fun r c a shifts t hr hc hx =>
      faithful_entryCreated hd ho hr hc hx).map fun _ => rfl
  | archiveEntry user id =>
    exact (recounts_logged (reporting_marked hP true (by decide) user id) ho).map fun _ => rfl
  | restoreEntry user id =>
    exact (recounts_logged (reporting_marked hP false (by decide) user id) ho).map fun _ => rfl
  | deleteEntry user id =>
    exact (recounts_deleteEntry hP ho user id).map fun _ => rfl
  | getUser _ => cases hop
  | getUserByUsername _ => cases hop
  | verifyCredentials _ _ => cases hop
  | get _ _ _ => cases hop
  | getByName _ _ _ => cases hop
  | list _ _ _ => cases hop
  | getEntry _ _ => cases hop
  | listEntries _ _ => cases hop

/-- The log accounts for every call that may change something. A rejected call changes nothing, and
its rejection is the only event above the lowest level. A call that changes anything succeeds, and an
event informs about the ids concerned and none about a rejection. The event of a new entry names each
source whose balance was shifted, with what was added to it. -/
theorem Call.accounted (hd : Reachable s.database) (ho : s.inTransaction = false) (c : Call)
    {operation : String} (hop : c.operation? = some operation) :
    ∃ events, (c.run.exec s).2.log = s.log ++ events ∧
      (∀ r, (c.run.exec s).1 = .error (.rejected r) →
        (events.filter fun e => e.level ≠ .debug) = [⟨.warning, Log.Part.operations.logger,
            "Operation rejected", [("operation", .text operation), ("error_type", .text r.kind.text),
              ("field", Value.ofText? r.field), ("message", .text r.message)]⟩] ∧
          (c.run.exec s).2.database = s.database) ∧
      ((c.run.exec s).2.database ≠ s.database →
        (∃ a, (c.run.exec s).1 = .ok a ∧
          ∃ e ∈ events, e.level = .info ∧ c.concerned a ⊆ e.fields) ∧
        ∀ e ∈ events, e.event ≠ "Operation rejected") ∧
      (c.Typed → ∀ e ∈ events, e.event = "Entry created" →
        ShowsShifts s.database.ledger (c.run.exec s).2.database.ledger e) := by
  obtain ⟨events, hlog, hkinds, hrejected, hchanged⟩ := Call.recounts hd (Session.not_inBlock ho) c hop
  have hname : "Transaction rolled back" ≠ "Operation rejected" ∧
      "Transaction rolled back" ≠ "Entry created" := by decide
  refine ⟨events, hlog, fun r hr => ⟨?_, ?_⟩, fun hne => ?_, fun htyped e he hentry => ?_⟩
  · obtain ⟨first, rfl, hall⟩ := hrejected r hr
    have hnone : (first.filter fun e => e.level ≠ .debug) = [] :=
      List.filter_eq_nil_iff.2 fun e he => by simp [(hall e he).level]
    rw [List.filter_append, hnone]
    rfl
  · exact (c.failure_restores_database s ho (by rw [hr]; rfl)).1
  · cases hx : (c.run.exec s).1 with
    | error e => exact absurd (c.failure_restores_database s ho (by rw [hx]; rfl)).1 hne
    | ok a =>
      refine ⟨⟨a, rfl, (hchanged a hx).resolve_left hne⟩, fun e he => ?_⟩
      obtain ⟨path, rfl⟩ | hfaithful := hkinds (by simp [hx]) e he
      · exact hname.1
      · exact hfaithful.1
  · by_cases hr : ∃ r, (c.run.exec s).1 = .error (.rejected r)
    · -- a rejected call has no such event
      obtain ⟨r, hr⟩ := hr
      obtain ⟨first, rfl, hall⟩ := hrejected r hr
      rcases List.mem_append.1 he with he | he
      · obtain ⟨path, rfl⟩ := hall e he
        exact absurd hentry hname.2
      · obtain rfl := List.mem_singleton.1 he
        exact absurd hentry (by decide : "Operation rejected" ≠ "Entry created")
    · obtain ⟨path, rfl⟩ | hfaithful := hkinds (not_exists.1 hr) e he
      · exact absurd hentry hname.2
      · exact hfaithful.2 hentry htyped

/-- After a first entry its currency cannot be removed, and the log says so in one event. Archiving the
entry changes the ledger, and the log says which entry it was. -/
theorem accounted_after_firstSpending :
    let s := newSession.after firstSpending
    let refused := (Call.delete .currency (.int 1) (.int 1)).run.exec s
    let archived := (Call.archiveEntry (.int 1) (.int 1)).run.exec s
    (∃ events r, refused.2.log = s.log ++ events ∧ refused.1 = .error (.rejected r) ∧
      (events.filter fun e => e.level ≠ .debug).map Log.Event.event = ["Operation rejected"]) ∧
      archived.2.database ≠ s.database ∧ ∃ events, archived.2.log = s.log ++ events ∧
        ∃ e ∈ events, e.level = .info ∧ [("user_id", .int 1), ("entry_id", .int 1)] ⊆ e.fields := by
  intro s refused archived
  have hd : Reachable s.database := reachable_firstSpending 4
  have ho : s.inTransaction = false := by decide +kernel
  have hchanged : archived.2.database ≠ s.database := by decide +kernel
  obtain ⟨r, hr⟩ : ∃ r, refused.1 = .error (.rejected r) :=
    rejection_of_isRejection (by decide +kernel)
  clear_value s
  obtain ⟨events, hlog, hrefused, -⟩ :=
    Call.accounted hd ho (.delete .currency (.int 1) (.int 1)) rfl
  obtain ⟨events', hlog', -, hinforms, -⟩ :=
    Call.accounted hd ho (.archiveEntry (.int 1) (.int 1)) rfl
  obtain ⟨⟨a, -, hinforms⟩, -⟩ := hinforms hchanged
  refine ⟨⟨events, r, hlog, hr, ?_⟩, hchanged, events', hlog', hinforms⟩
  rw [(hrefused r hr).1]
  rfl

/-- A conversion that moves money from a source into itself shifts its balance twice, and the event of
the new entry tells the second shift only: a balance that grew by 5 is said to have grown by 10. -/
theorem log_tells_one_shift_of_two :
    let s := newSession.after (firstSpending.take 3)
    let c := Call.createEntry (.int 1)
      (some { bread with amount := .float 5, kind := .text "convert", rate := .float 2 })
      [("secondary_source_id", .text "1")]
    let t := (c.run.exec s).2
    Reachable s.database ∧ s.inTransaction = false ∧ (c.run.exec s).1.isOk = true ∧
      (t.log.drop s.log.length).map (fun e =>
          (e.event, (e.fields.lookup "balance_changes").map Value.literal))
        = [("Entry created", some "\x7b'1': 10.0\x7d")] ∧
      s.database.ledger.sources.rows.map (fun r => (r.id, r.data.amount)) = [(1, 20)] ∧
      t.database.ledger.sources.rows.map (fun r => (r.id, r.data.amount)) = [(1, 25)] := by
  intro s c t
  exact ⟨reachable_firstSpending 3, by decide +kernel, by decide +kernel, by decide +kernel,
    by decide +kernel, by decide +kernel⟩

end Bookkeeping.Service
