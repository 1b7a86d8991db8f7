import Bookkeeping.Proofs.Convergence

/-! # Migrations in their order

As long as only what is pending is applied and only the last migration is taken back, the applied
migrations are a beginning of the list of all migrations, and the layout is the one that this
beginning leads to. Of the stages of a database that leaves the four straight ones. Whatever fails on
the way leaves the database at the stage that the migrations before it led to.

Taking the last migration back and applying it again gives back every row, but for the column that it
made.
-/

namespace Bookkeeping.Store

/-- The database that migrations make of an empty file, applied one after the other. -/
def Database.built (ms : List Migration) : Database :=
  ms.foldl (fun db m => (db.settle m.applied).2) { layout := { history := true } }

theorem built_tables : Database.built [Migration.tables] = .tabled :=
  congrArg Prod.snd settle_tables

theorem built_all : Database.built Migration.all = .migrated := by
  show ((Database.built [Migration.tables]).settle Migration.indices.applied).2 = .migrated
  rw [built_tables, settle_indices]

/-! ## Straight stages -/

namespace Stage

variable {a b : Stage} {m : Migration} {ms ns : List Migration}

/-- The stages at which the applied migrations are a beginning of the list of all migrations. -/
inductive Straight : Stage → List Migration → Prop
  | untouched : Straight untouched []
  | blank : Straight blank []
  | tabled : Straight tabled [Migration.tables]
  | full : Straight full Migration.all

namespace Straight

theorem history_eq (h : Straight a ms) : a.history = ms.map Migration.name := by
  cases h <;> rfl

theorem isPrefix (h : Straight a ms) : ms <+: Migration.all := by
  cases h with
  | untouched | blank => exact List.nil_prefix
  | tabled => exact ⟨[Migration.indices], rfl⟩
  | full => exact List.prefix_refl _

/-- A straight stage has the layout that its migrations make, once anybody has asked for them. -/
theorem layout_eq (h : Straight a ms) :
    a.layout = (Database.built ms).layout ∨ a.layout = {} ∧ ms = [] := by
  cases h with
  | untouched => exact .inr ⟨rfl, rfl⟩
  | blank => exact .inl rfl
  | tabled => exact .inl (by rw [built_tables]; rfl)
  | full => exact .inl (by rw [built_all]; rfl)

theorem recorded (h : Straight a ms) : Straight a.recorded ms := by
  cases h with
  | untouched | blank => exact .blank
  | tabled => exact .tabled
  | full => exact .full

theorem settled (h : Straight a ms) : a.settled = .full := by
  cases h <;> rfl

/-- Applying a migration leads from a straight stage to a straight one. -/
theorem up (h : Straight a ms) (hup : Up m a b) : Straight b (ms ++ [m]) := by
  cases hup with
  | create =>
    cases h
    exact .tabled
  | extend =>
    cases h
    exact .full
  | recreate => cases h

/-- The last one of the applied migrations can be taken back, and that leads to a straight stage. -/
theorem down (h : Straight a (ms ++ [m])) : ∃ b, Down m a.recorded b ∧ Straight b ms := by
  generalize hms : ms ++ [m] = applied at h
  cases h with
  | untouched | blank => simp at hms
  | tabled =>
    have hms : ms ++ [m] = [] ++ [Migration.tables] := hms
    obtain ⟨rfl, hm⟩ := List.append_inj' hms rfl
    obtain rfl := List.singleton_inj.1 hm
    exact ⟨_, .drop, .blank⟩
  | full =>
    have hms : ms ++ [m] = [Migration.tables] ++ [Migration.indices] := hms
    obtain ⟨rfl, hm⟩ := List.append_inj' hms rfl
    obtain rfl := List.singleton_inj.1 hm
    exact ⟨_, .strip, .tabled⟩

end Straight

end Stage

/-- A database at a straight stage. -/
def Database.IsStraight (db : Database) : Prop := ∃ a ms, Stage.Straight a ms ∧ db.At a

/-! ## Parts of runs -/

section

variable {s t : Session} {n m : Migration} {ns ms : List Migration} {a b : Stage}

/-- A script that leaves nothing behind if it fails as one unit does to the database of a session what
it does as one unit, or else fails and does nothing to it. -/
theorem alter_cases {script : Script} {s : Session}
    (h : ∀ e db, s.database.settle script = (.error e, db) → db = s.database) :
    (∃ e, (alter script).exec s = (.error e, s)) ∨
      ∃ db, s.database.settle script = (.ok (), db) ∧
        (alter script).exec s = (.ok (), { s with database := db }) := by
  by_cases ho : s.isOpen = true
  · exact .inl ⟨.operational "database is locked", by simp [alter, ho]⟩
  · cases hr : s.database.settle script with
    | mk r db =>
      have hx := exec_alter script (Bool.not_eq_true _ ▸ ho) hr
      cases r with
      | ok u => exact .inr ⟨db, rfl, hx⟩
      | error e => exact .inl ⟨e, by rw [hx, h e db hr]⟩

/-- The session once the applied migrations were asked for. -/
def Session.asked (s : Session) : Session :=
  { s with database := { s.database with layout := { s.database.layout with history := true } } }

theorem Session.asked_eq (h : s.database.layout.history = true) : s.asked = s := by
  obtain ⟨⟨⟨tables, target, indices, _⟩, l, names⟩⟩ := s
  cases h
  rfl

theorem Database.At.asked (h : s.database.At a) : s.asked.database.At a.recorded := by
  obtain ⟨hl, hh⟩ := h
  refine ⟨?_, hh.trans (by cases a <;> rfl)⟩
  show { s.database.layout with history := true } = _
  rw [hl]
  cases a <;> rfl

/-- Asking for the applied migrations gives their names, unless the table that keeps them is missing
and a transaction is in the way of making it. -/
theorem history_cases (s : Session) :
    history.exec s = (.ok s.database.history, s.asked) ∨
      s.isOpen = true ∧ s.database.layout.history = false ∧
        ∃ e, history.exec s = (.error e, s) := by
  have hexec : history.exec s = (if !s.database.layout.history then do
      alter (.change fun db => { db with layout := { db.layout with history := true } })
      pure s.database.history else pure s.database.history : Op (List String)).exec s := rfl
  cases hl : s.database.layout.history with
  | true =>
    rw [s.asked_eq hl, hexec, hl]
    exact .inl rfl
  | false =>
    rw [hexec, hl, Bool.not_false, if_pos rfl, Op.exec_bind]
    cases ho : s.isOpen with
    | true => exact .inr ⟨rfl, rfl, .operational "database is locked", by simp [alter, ho]⟩
    | false =>
      rw [exec_alter _ ho (settle_change _ _)]
      exact .inl rfl

theorem exec_history (h : s.isOpen = false ∨ s.database.layout.history = true) :
    history.exec s = (.ok s.database.history, s.asked) :=
  (history_cases s).resolve_right fun ⟨ho, hl, _⟩ => by simp [ho, hl] at h

/-- A migration that fails leaves the database alone, if its script leaves nothing behind. -/
theorem migrate_error {e : Failure}
    (h : ∀ e db, s.database.settle m.applied = (.error e, db) → db = s.database)
    (hx : (migrate m).exec s = (.error e, t)) : t.database = s.database := by
  rw [migrate, Op.exec_bind, Op.exec_tryCatch] at hx
  obtain ⟨e', he⟩ | ⟨db, -, hdb⟩ := alter_cases h
  · rw [he] at hx
    cases hx
    rfl
  · rw [hdb] at hx
    cases hx

/-- Applying migrations in their order stays straight, however far it comes. -/
theorem straight_migrateEach (hn : List.Forall₂ Migration.Attempts ns ms)
    (hclimb : Stage.Climb ms a b) {applied : List Migration} (ha : Stage.Straight a applied)
    (hs : s.database.At a) : ((migrateEach ns).exec s).2.database.IsStraight := by
  induction hclimb generalizing ns applied s with
  | done =>
    cases hn
    exact ⟨_, _, ha, hs⟩
  | up hup _ ih =>
    cases hn with
    | @cons n _ ns _ hn hns =>
      rw [migrateEach, Op.exec_bind]
      cases hx : (migrate n).exec s with
      | mk r t =>
        cases r with
        | error e =>
          obtain ⟨after, hafter, -⟩ := hup.settle hs
          have hsame := migrate_error (fun _ _ => hn.applied.undone hafter) hx
          exact ⟨_, _, ha, hsame.symm ▸ hs⟩
        | ok u =>
          obtain ⟨c, hc, hok⟩ := leads_migrate hn hup s hs
          rw [hx] at hc hok
          exact ih hns (ha.up hup) (hok u rfl ▸ hc)

/-! ## Applying what is pending -/

/-- What is left to do once the applied migrations are known. -/
def applyAll (ns : List Migration) : Op (List String) := do
  migrateEach ns
  pure (ns.map Migration.name)

theorem exec_migrateUp (h : history.exec s = (.ok s.database.history, s.asked))
    (ns : List Migration) (path : Value) :
    ∃ u, u.database = s.asked.database ∧ u.inTransaction = s.inTransaction ∧
      (migrateUp ns path).exec s = (applyAll (Migration.pending ns s.database.history)).exec u := by
  rw [migrateUp, Op.exec_bind_ok h]
  dsimp only
  split
  -- that nothing is pending is logged first
  · exact ⟨((emit .debug .migrations "No pending migrations" [("db_path", path)]).exec s.asked).2,
      rfl, rfl, rfl⟩
  · exact ⟨s.asked, rfl, rfl, rfl⟩

theorem straight_applyAll (hn : List.Forall₂ Migration.Attempts ns ms)
    (hclimb : Stage.Climb ms a b) {applied : List Migration} (ha : Stage.Straight a applied)
    (hs : s.database.At a) : ((applyAll ns).exec s).2.database.IsStraight := by
  have hrun := straight_migrateEach hn hclimb ha hs
  rw [applyAll, Op.exec_bind]
  cases hx : (migrateEach ns).exec s with
  | mk r t =>
    rw [hx] at hrun
    cases r <;> exact hrun

theorem straight_migrateUp (hn : List.Forall₂ Migration.Attempts ns Migration.all) (path : Value)
    (h : s.database.IsStraight) : ((migrateUp ns path).exec s).2.database.IsStraight := by
  obtain ⟨a, applied, ha, hs⟩ := h
  obtain hhist | ⟨-, -, e, he⟩ := history_cases s
  · obtain ⟨u, hu, -, hx⟩ := exec_migrateUp hhist ns path
    rw [hx, hs.history]
    exact straight_applyAll (pending_attempts hn _) a.climb_pending ha.recorded (hu ▸ hs.asked)
  · rw [migrateUp, Op.exec_bind_error he]
    exact ⟨a, applied, ha, hs⟩

/-- Applying succeeds if no migration breaks off and no transaction is in the way. -/
theorem exec_migrateEach (hclimb : Stage.Climb ms a b) (hs : s.database.At a)
    (ho : s.inTransaction = false) :
    ∃ t, (migrateEach ms).exec s = (.ok (), t) ∧ t.database.At b := by
  induction hclimb generalizing s with
  | done => exact ⟨s, rfl, hs⟩
  | @up m _ _ _ _ hup _ ih =>
    obtain ⟨after, hsettle, hafter⟩ := hup.settle hs
    obtain ⟨t, hx, hdb, ht⟩ := migrate_ok m ho hsettle
    rw [migrateEach, Op.exec_bind_ok hx]
    exact ih (hdb ▸ hafter) ht

theorem exec_migrateUp_all (hs : s.database.At a) (ho : s.inTransaction = false) (path : Value) :
    ∃ t, (migrateUp Migration.all path).exec s
        = (.ok ((Migration.pending Migration.all a.history).map Migration.name), t) ∧
      t.database.At a.settled := by
  obtain ⟨u, hu, hou, hx⟩ :=
    exec_migrateUp (exec_history (.inl (Session.isOpen_of_outside ho))) Migration.all path
  obtain ⟨t, ht, hdb⟩ := exec_migrateEach a.climb_pending (hu ▸ hs.asked) (hou.trans ho)
  rw [hx, hs.history, applyAll, Op.exec_bind_ok ht]
  exact ⟨t, rfl, hdb⟩

/-- Once every migration is applied there is nothing to apply. -/
theorem migrateUp_idle (hn : List.Forall₂ Migration.Attempts ns Migration.all) (path : Value)
    (hs : s.database.At .full) : ((migrateUp ns path).exec s).1 = .ok [] ∧
      ((migrateUp ns path).exec s).2.database = s.database := by
  have hl : s.database.layout.history = true := by rw [hs.layout]; rfl
  obtain ⟨u, hu, -, hx⟩ := exec_migrateUp (exec_history (.inr hl)) ns path
  have hnone : Migration.pending ns s.database.history = [] := by
    rw [hs.history]
    exact List.forall₂_nil_right_iff.1 (pending_attempts hn _)
  rw [hx, hnone]
  exact ⟨rfl, hu.trans (by rw [s.asked_eq hl])⟩

/-! ## Taking the last migration back -/

theorem target_null (names : List String) : target names .null = .ok names.getLast? := by
  unfold target
  cases names.getLast? <;> rfl

/-- A migration that does what another one is to do takes back what that one would. -/
theorem settle_reverted_attempt (hn : n.Attempts m) {db after after' : Database}
    (h : db.settle m.reverted = (.ok (), after)) (h' : db.settle n.reverted = (.ok (), after')) :
    after' = after := by
  obtain hsame | ⟨e, he⟩ := hn.reverted.settle db
  · rw [hsame, h] at h'
    cases h'
    rfl
  · rw [he] at h'
    cases h'

/-- Among attempts at the migrations there is one of each name. -/
theorem named_of_mem (hn : List.Forall₂ Migration.Attempts ns Migration.all)
    (hm : m ∈ Migration.all) :
    ∃ n, Migration.named ns (.text m.name) = .ok n ∧ n.Attempts m := by
  obtain ⟨x, y, rfl, hx, hy⟩ : ∃ x y, ns = [x, y] ∧ x.Attempts Migration.tables ∧
      y.Attempts Migration.indices := by
    cases hn with
    | cons hx hn =>
      cases hn with
      | cons hy hn =>
        cases hn
        exact ⟨_, _, rfl, hx, hy⟩
  have hne : (Migration.tables.name == Migration.indices.name) = false := by decide
  obtain rfl | rfl := List.mem_pair.1 hm
  · exact ⟨x, by simp [Migration.named, Migration.ofName?, Value.text?, hx.name], hx⟩
  · exact ⟨y, by simp [Migration.named, Migration.ofName?, Value.text?, hx.name, hy.name, hne], hy⟩

/-- What is left to do to take the migration of a name back. -/
def takeBack (ns : List Migration) (name : String) : Op (Option String) := do
  let m ← Op.lift (Migration.named ns (.text name))
  alter m.reverted
  report .info "Migration rolled back" m
  pure (some name)

theorem exec_migrateDown (h : history.exec s = (.ok s.database.history, s.asked)) :
    (migrateDown ns).exec s = (match s.database.history.getLast? with
      | none => pure none
      | some name => takeBack ns name : Op (Option String)).exec s.asked := by
  rw [migrateDown, Op.exec_bind_ok h, target_null, Op.exec_bind_ok (Op.exec_lift _ _)]
  cases s.database.history.getLast? <;> rfl

theorem takeBack_cases (hn : List.Forall₂ Migration.Attempts ns Migration.all)
    (hm : m ∈ Migration.all) {after : Database}
    (hsettle : s.database.settle m.reverted = (.ok (), after)) :
    (∃ e, (takeBack ns m.name).exec s = (.error e, s)) ∨
      ∃ t, (takeBack ns m.name).exec s = (.ok (some m.name), t) ∧ t.database = after := by
  obtain ⟨n, hnamed, hnm⟩ := named_of_mem hn hm
  rw [takeBack, hnamed, Op.exec_bind_ok (Op.exec_lift _ _)]
  obtain ⟨e, he⟩ | ⟨db, hdb, hx⟩ := alter_cases fun _ _ => hnm.reverted.undone hsettle
  · exact .inl ⟨e, by rw [Op.exec_bind_error he]⟩
  · rw [Op.exec_bind_ok hx]
    exact .inr ⟨_, rfl, settle_reverted_attempt hnm hsettle hdb⟩

/-- Taking the last migration back gives its name and leaves the migrations before it, unless it
fails and leaves them all. -/
theorem migrateDown_cases (hn : List.Forall₂ Migration.Attempts ns Migration.all)
    {applied : List Migration} (ha : Stage.Straight a applied) (hs : s.database.At a) :
    (∃ e t, (migrateDown ns).exec s = (.error e, t) ∧ t.database.IsStraight) ∨
      ∃ t b, (migrateDown ns).exec s = (.ok (applied.map Migration.name).getLast?, t) ∧
        Stage.Straight b applied.dropLast ∧ t.database.At b := by
  obtain hhist | ⟨-, -, e, he⟩ := history_cases s
  · rw [exec_migrateDown hhist, hs.history, ha.history_eq]
    obtain rfl | ⟨before, m, rfl⟩ := applied.eq_nil_or_concat'
    · exact .inr ⟨s.asked, a.recorded, rfl, ha.recorded, hs.asked⟩
    · obtain ⟨b, hdown, hb⟩ := ha.down
      obtain ⟨after, hsettle, hafter⟩ := hdown.settle hs.asked
      have hm : m ∈ Migration.all := ha.isPrefix.subset (by simp)
      rw [List.map_append, List.map_singleton, List.getLast?_concat, List.dropLast_concat]
      obtain ⟨e, he⟩ | ⟨t, ht, hdb⟩ := takeBack_cases hn hm hsettle
      · exact .inl ⟨e, _, he, a.recorded, _, ha.recorded, hs.asked⟩
      · exact .inr ⟨t, b, ht, hb, hdb ▸ hafter⟩
  · exact .inl ⟨e, s, by rw [migrateDown, Op.exec_bind_error he], a, _, ha, hs⟩

/-- Taking a migration back succeeds if it does not break off and no transaction is in the way. -/
theorem exec_takeBack (hm : m ∈ Migration.all) (ho : s.inTransaction = false) {after : Database}
    (hsettle : s.database.settle m.reverted = (.ok (), after)) :
    ∃ t, (takeBack Migration.all m.name).exec s = (.ok (some m.name), t) ∧ t.database = after ∧
      t.inTransaction = false := by
  have hnamed : Migration.named Migration.all (.text m.name) = .ok m := by
    obtain rfl | rfl := List.mem_pair.1 hm <;> rfl
  rw [takeBack, hnamed, Op.exec_bind_ok (Op.exec_lift _ _),
    Op.exec_bind_ok (exec_alter m.reverted (Session.isOpen_of_outside ho) hsettle)]
  exact ⟨_, rfl, rfl, ho⟩

/-- There is always a last migration to take back, or none at all. -/
theorem migrateDown_all (ha : Stage.Straight a ms) (hs : s.database.At a)
    (ho : s.inTransaction = false) : ((migrateDown Migration.all).exec s).1.isOk = true := by
  rw [exec_migrateDown (exec_history (.inl (Session.isOpen_of_outside ho))), hs.history, ha.history_eq]
  obtain rfl | ⟨before, m, rfl⟩ := ms.eq_nil_or_concat'
  · rfl
  · obtain ⟨b, hdown, hb⟩ := ha.down
    obtain ⟨after, hsettle, -⟩ := hdown.settle hs.asked
    have hm : m ∈ Migration.all := ha.isPrefix.subset (by simp)
    obtain ⟨t, ht, -⟩ := exec_takeBack (s := s.asked) hm ho hsettle
    rw [List.map_append, List.map_singleton, List.getLast?_concat]
    exact congrArg (fun run => run.1.isOk) ht

/-! ## There and back -/

theorem settle_full_reverted {db : Database} (hd : db.At .full) :
    db.settle Migration.indices.reverted = (.ok (),
      ⟨Stage.tabled.layout, db.ledger.withoutTargets, Stage.tabled.history⟩) := by
  have hdown : Migration.indices.downgrade.exec (.on db)
      = (.ok (), ⟨⟨Stage.tabled.layout, db.ledger.withoutTargets, db.history⟩, some db⟩) := by
    simp [Migration.indices, Work.on, Script.exec_bind, exec_each_dropIndex, Script.exec_get,
      dropTarget, Script.exec_change, Database.withIndices, hd.layout, Stage.layout, Layout.full]
  have hhist : Stage.full.history.filter (· != Migration.indices.name) = Stage.tabled.history := by
    decide
  rw [Migration.settle_reverted hdown]
  show _ = (Except.ok (), Database.mk Stage.tabled.layout db.ledger.withoutTargets _)
  rw [← hhist, ← hd.history]

theorem settle_tabled_applied {db : Database} (hd : db.At .tabled) :
    db.settle Migration.indices.applied
      = (.ok (), ⟨Layout.full, db.ledger, Stage.full.history⟩) := by
  have hl : db.layout.tables = true ∧ db.layout.target = false ∧ db.layout.indices = [] := by
    rw [hd.layout]
    exact ⟨rfl, rfl, rfl⟩
  rw [Migration.settle_applied (exec_upgrade_indices (some db) hl.1 hl.2.1 hl.2.2)]
  simp only [hd.history, hd.layout]
  rfl

/-- The second migration, taken back and applied again, gives back the database, but for the other
parties of the entries. -/
theorem there_and_back (hs : s.database.At .full) (ho : s.inTransaction = false) (path : Value) :
    ∃ t u, (migrateDown Migration.all).exec s = (.ok (some Migration.indices.name), t) ∧
      (migrateUp Migration.all path).exec t = (.ok [Migration.indices.name], u) ∧
      u.database = { s.database with ledger := s.database.ledger.withoutTargets } := by
  have hl : s.database.layout.history = true := by rw [hs.layout]; rfl
  have hm : Migration.indices ∈ Migration.all := List.mem_of_getLast? rfl
  obtain ⟨t, ht, hdb, hot⟩ := exec_takeBack hm ho (settle_full_reverted hs)
  have htabled : t.database.At .tabled := by rw [hdb]; exact ⟨rfl, rfl⟩
  obtain ⟨v, hv, hov, hx⟩ := exec_migrateUp
    (exec_history (s := t) (.inl (Session.isOpen_of_outside hot))) Migration.all path
  have hasked : v.database = t.database := hv.trans (by rw [t.asked_eq (by rw [hdb]; rfl)])
  obtain ⟨u, hu, hafter, -⟩ :=
    migrate_ok Migration.indices (hov.trans hot) (settle_tabled_applied (hasked ▸ htabled))
  refine ⟨t, u, ?_, ?_, ?_⟩
  · rw [exec_migrateDown (exec_history (.inl (Session.isOpen_of_outside ho))), s.asked_eq hl,
      hs.history]
    exact ht
  · rw [hx, htabled.history]
    show (applyAll [Migration.indices]).exec v = _
    rw [applyAll, migrateEach, bind_assoc, Op.exec_bind_ok hu]
    rfl
  · rw [hafter, hasked, hdb]
    show _ = Database.mk s.database.layout _ s.database.history
    rw [hs.layout, hs.history]
    rfl

end

/-! ## Running in order -/

/-- A database that comes about from an empty one by applying what is pending, taking the last
migration back and making calls, in any order and in sessions of any kind. Any of this may succeed or
fail, and any migration may break off. What a block may be undone to is such a database, too. -/
inductive Ordered : Database → Prop
  | empty : Ordered {}
  | up {s : Session} {ns : List Migration} {path : Value} (hd : Ordered s.database)
      (hn : List.Forall₂ Migration.Attempts ns Migration.all) :
      Ordered ((migrateUp ns path).exec s).2.database
  | down {s : Session} {ns : List Migration} (hd : Ordered s.database)
      (hn : List.Forall₂ Migration.Attempts ns Migration.all) :
      Ordered ((migrateDown ns .null).exec s).2.database
  | call {s : Session} {c : Service.Call} (hd : Ordered s.database)
      (hb : ∀ before, s.standing = .inside before → Ordered before) :
      Ordered (c.run.exec s).2.database

theorem Ordered.straight {db : Database} (h : Ordered db) : db.IsStraight := by
  induction h with
  | empty => exact ⟨.untouched, [], .untouched, rfl, rfl⟩
  | up _ hn ih => exact straight_migrateUp hn _ ih
  | down _ hn ih =>
    obtain ⟨a, ms, ha, hs⟩ := ih
    obtain ⟨e, t, hx, ht⟩ | ⟨t, b, hx, hb, ht⟩ := migrateDown_cases hn ha hs
    · rw [hx]
      exact ht
    · rw [hx]
      exact ⟨b, _, hb, ht⟩
  | @call s c _ _ ih ihb =>
    have hlasting : Lasting s.setting Database.IsStraight :=
      lasting_of_withLedger fun _ _ ⟨a, ms, ha, hs⟩ => ⟨a, ms, ha, hs.layout, hs.history⟩
    exact (c.upholds hlasting ⟨ih, ihb⟩).now

/-- The applied migrations are a beginning of all migrations, in the order of their names, and the
layout is what they make of an empty file. A file that nobody has asked for its migrations does not
even have the table of their names. -/
def Database.InStep (db : Database) : Prop :=
  ∃ ms, ms <+: Migration.all ∧ db.history = ms.map Migration.name ∧
    db.history.Pairwise (· < ·) ∧
    (db.layout = (Database.built ms).layout ∨ db.layout = {} ∧ ms = [])

theorem Database.IsStraight.inStep {db : Database} (h : db.IsStraight) : db.InStep := by
  obtain ⟨a, ms, ha, hs⟩ := h
  have hnames : (Migration.all.map Migration.name).Pairwise (· < ·) := by decide
  refine ⟨ms, ha.isPrefix, hs.history.trans ha.history_eq, ?_, ?_⟩
  · rw [hs.history, ha.history_eq]
    exact hnames.sublist (ha.isPrefix.sublist.map _)
  · rw [hs.layout]
    exact ha.layout_eq

/-- Applying what is pending leaves nothing to apply. -/
theorem Ordered.idle {s : Session} {ns ns' : List Migration} {path path' : Value}
    (hd : Ordered s.database) (hn : List.Forall₂ Migration.Attempts ns Migration.all)
    (hn' : List.Forall₂ Migration.Attempts ns' Migration.all) {names : List String} {t : Session}
    (hx : (migrateUp ns path).exec s = (.ok names, t)) :
    ((migrateUp ns' path').exec t).1 = .ok [] ∧
      ((migrateUp ns' path').exec t).2.database = t.database := by
  obtain ⟨a, ms, ha, hs⟩ := hd.straight
  obtain ⟨b, hb, hok⟩ := leads_migrateUp hn path a s hs
  rw [hx] at hb hok
  obtain rfl := hok names rfl
  exact migrateUp_idle hn' path' (ha.settled ▸ hb)

/-- Taking the last migration back gives its name, and leaves the migrations before it. -/
theorem Ordered.takesLast {s t : Session} {ns : List Migration} {name : Option String}
    (hd : Ordered s.database) (hn : List.Forall₂ Migration.Attempts ns Migration.all)
    (hx : (migrateDown ns .null).exec s = (.ok name, t)) :
    name = s.database.history.getLast? ∧ t.database.history = s.database.history.dropLast := by
  obtain ⟨a, ms, ha, hs⟩ := hd.straight
  obtain ⟨e, u, hx', -⟩ | ⟨u, b, hx', hb, hu⟩ := migrateDown_cases hn ha hs
  · rw [hx] at hx'
    cases hx'
  · rw [hx] at hx'
    cases hx'
    rw [hs.history, hu.history, ha.history_eq, hb.history_eq, List.map_dropLast]
    exact ⟨rfl, rfl⟩

/-- Migrations stay in step with the layout. Whatever was applied, taken back and done in between,
the applied migrations are a beginning of all migrations and the layout is the one that they make.
After applying what is pending there is nothing to apply, and what is taken back is the last applied
migration; where nothing breaks off and no transaction is in the way, neither fails. And from the full
layout, whatever is in the tables, taking back the last migration and applying what is pending gives
back all rows as they were, but without the other parties of the entries. -/
theorem Ordered.in_step {s : Session} {ns ns' : List Migration} (path path' : Value)
    (hd : Ordered s.database) (hn : List.Forall₂ Migration.Attempts ns Migration.all)
    (hn' : List.Forall₂ Migration.Attempts ns' Migration.all) :
    s.database.InStep ∧
      (∀ names t, (migrateUp ns path).exec s = (.ok names, t) →
        ((migrateUp ns' path').exec t).1 = .ok [] ∧
          ((migrateUp ns' path').exec t).2.database = t.database) ∧
      (∀ name t, (migrateDown ns .null).exec s = (.ok name, t) →
        name = s.database.history.getLast? ∧
          t.database.history = s.database.history.dropLast) ∧
      (s.inTransaction = false → ((migrateUp Migration.all path).exec s).1.isOk = true ∧
        ((migrateDown Migration.all .null).exec s).1.isOk = true) ∧
      ∀ full : Session, full.inTransaction = false → full.database.layout = .full →
        full.database.history = Migration.all.map Migration.name →
        ∃ t u, (migrateDown Migration.all .null).exec full
            = (.ok (some "002_add_indices"), t) ∧
          (migrateUp Migration.all path).exec t = (.ok ["002_add_indices"], u) ∧
          u.database = { full.database with ledger := { full.database.ledger with
            entries := { full.database.ledger.entries with
              rows := full.database.ledger.entries.rows.map fun r =>
                r.put "target" { r.data with target := none } } } } := by
  refine ⟨hd.straight.inStep, fun _ _ hx => hd.idle hn hn' hx, fun _ _ hx => hd.takesLast hn hx,
    fun ho => ?_, fun full ho hl hh => there_and_back ⟨hl, hh⟩ ho path⟩
  obtain ⟨a, ms, ha, hs⟩ := hd.straight
  obtain ⟨t, ht, -⟩ := exec_migrateUp_all hs ho path
  exact ⟨congrArg (fun run => run.1.isOk) ht, migrateDown_all ha hs ho⟩

/-- Where the second migration broke off, the first one is the last that was applied. Taken back, it
leaves no migration applied. -/
theorem in_step_after_breaking_off :
    let s := Session.applying brokenMigrations
    let run := (migrateDown brokenMigrations .null).exec s
    s.database.InStep ∧ s.database.history = ["001_create_tables"] ∧
      run.1 = .ok (some "001_create_tables") ∧ run.2.database.history = [] := by
  intro s run
  have hd : Ordered s.database := .up .empty attempts_brokenMigrations
  obtain ⟨hstep, -, htakes, -⟩ :=
    hd.in_step .null .null attempts_brokenMigrations attempts_all
  have hhist : s.database.history = ["001_create_tables"] := by decide +kernel
  have hok : run.1.isOk = true := by decide +kernel
  cases hr : run.1 with
  | error e => simp [hr, Except.isOk, Except.toBool] at hok
  | ok name =>
    obtain ⟨rfl, hleft⟩ := htakes name run.2 (Prod.ext hr rfl)
    exact ⟨hstep, hhist, by rw [hhist]; rfl, by rw [hleft, hhist]; rfl⟩

end Bookkeeping.Store
