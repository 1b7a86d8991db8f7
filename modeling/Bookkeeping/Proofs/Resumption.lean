import Bookkeeping.Proofs.Prefixes

/-! # Migrations that break off

A migration is any pair of scripts, and a script may fail at any of its statements. Of what is
pending, the migrations before the first one that fails stay applied; that one leaves nothing behind,
and those after it are not begun. Once it is repaired, applying what is pending goes on from there.
-/

namespace Bookkeeping.Store

/-! ## Migrations that are applied -/

namespace Migration

variable {m : Migration} {ms ns : List Migration} {db before after : Database} {names : List String}

/-- Migrations succeed one after the other, and lead from one database to another. -/
inductive Applies : List Migration → Database → Database → Prop
  | nil (db : Database) : Applies [] db db
  | cons {m : Migration} {rest : List Migration} {db upgraded before after : Database}
      (hrun : m.upgrade.exec (.on db) = (.ok (), ⟨upgraded, some before⟩))
      (hrest : Applies rest { upgraded with history := upgraded.history ++ [m.name] } after) :
      Applies (m :: rest) db after

/-- A migration that leaves the record of the applied migrations to whoever applies it. -/
def KeepsRecord (m : Migration) : Prop :=
  ∀ db w, m.upgrade.exec (.on db) = (.ok (), w) →
    w.database.history = db.history ∧ w.database.layout.history = db.layout.history

/-- What is applied is recorded, in the order in which it was applied. -/
theorem Applies.recorded (h : Applies ms db after) (hkeep : ∀ m ∈ ms, m.KeepsRecord) :
    after.history = db.history ++ ms.map Migration.name ∧
      after.layout.history = db.layout.history := by
  induction h with
  | nil db => exact ⟨(List.append_nil _).symm, rfl⟩
  | @cons m rest db upgraded _ after hrun _ ih =>
    obtain ⟨hnames, htable⟩ := hkeep m List.mem_cons_self db _ hrun
    obtain ⟨hafter, hlayout⟩ := ih fun n hn => hkeep n (List.mem_cons_of_mem m hn)
    refine ⟨?_, hlayout.trans htable⟩
    rw [hafter, hnames, List.map_cons, List.append_assoc]
    rfl

/-- A migration whose script fails while its transaction is open leaves nothing behind, however far it
came. -/
theorem settle_applied_error {e : Failure}
    (h : m.upgrade.exec (.on db) = (.error e, ⟨after, some db⟩)) :
    db.settle m.applied = (.error e, db) := by
  rw [Database.settle, applied, Script.exec_bind, h]

theorem settle_reverted_error {e : Failure}
    (h : m.downgrade.exec (.on db) = (.error e, ⟨after, some db⟩)) :
    db.settle m.reverted = (.error e, db) := by
  rw [Database.settle, reverted, Script.exec_bind, h]

/-- The same for any script in which the engine does not undo the transaction. -/
theorem settle_reverted_undone (h : m.downgrade.Steady) {e : Failure}
    (hx : db.settle m.reverted = (.error e, after)) : after = db := by
  have hsteady : m.reverted.Steady := h.bind (Script.steady_change _)
  have hbefore := hsteady (.on db)
  rw [Database.settle] at hx
  cases hm : m.reverted.exec (.on db) with
  | mk r w =>
    obtain ⟨w, kept⟩ := w
    rw [hm] at hx hbefore
    obtain rfl : kept = some db := hbefore
    cases r with
    | ok u => cases hx
    | error e' =>
      cases hx
      rfl

/-- Where a statement makes the engine undo the transaction, nothing is left behind either; but then
it is for the missing transaction that the unit fails. -/
theorem settle_giveUp {script : Script} (h : script.Steady) (e : Failure)
    (hx : (script.exec (.on db)).1 = .ok ()) :
    db.settle (do script; Script.giveUp e)
      = (.error (.operational "cannot rollback - no transaction is active"), db) := by
  have hbefore := h (.on db)
  rw [Database.settle, Script.exec_bind]
  cases hm : script.exec (.on db) with
  | mk r w =>
    obtain ⟨w, kept⟩ := w
    rw [hm] at hx hbefore
    obtain rfl : kept = some db := hbefore
    cases hx
    rfl

/-! ### What is pending, by name -/

theorem map_name_pending (ms : List Migration) (names : List String) :
    (pending ms names).map Migration.name
      = (ms.map Migration.name).filter fun name => !names.contains name := by
  rw [List.filter_map]
  rfl

/-- Among names without repetition, what was pending before some were recorded is those, then what
is pending still. -/
theorem pending_of_recorded (hnodup : (ms.map Migration.name).Nodup) {before behind : List String}
    (h : (pending ms names).map Migration.name = before ++ behind)
    (hsame : ns.map Migration.name = ms.map Migration.name) :
    (pending ns (names ++ before)).map Migration.name = behind := by
  rw [map_name_pending] at h
  have hapart : (before ++ behind).Nodup := h ▸ hnodup.filter _
  have hsplit : (pending ns (names ++ before)).map Migration.name
      = (before ++ behind).filter fun name => !before.contains name := by
    rw [map_name_pending, hsame, ← h, List.filter_filter]
    refine List.filter_congr fun name _ => ?_
    rw [List.contains_append, Bool.not_or, Bool.and_comm]
  have hbefore : before.filter (fun name => !before.contains name) = [] := by
    simp
  have hbehind : behind.filter (fun name => !before.contains name) = behind := by
    refine List.filter_eq_self.2 fun name hname => ?_
    have hout : name ∉ before := fun hin => (List.nodup_append.1 hapart).2.2 name hin name hname rfl
    simpa using hout
  rw [hsplit, List.filter_append, hbefore, hbehind, List.nil_append]

end Migration

/-! ## Applying up to a failure -/

section

variable {s t : Session} {m : Migration} {ms ns done rest : List Migration} {db partway : Database}
  {e : Failure}

/-- Applying migrations goes on behind those that succeed. -/
theorem exec_migrateEach_append (h : Migration.Applies done s.database db)
    (ho : s.inTransaction = false) (rest : List Migration) :
    ∃ t, t.database = db ∧ t.inTransaction = false ∧
      (migrateEach (done ++ rest)).exec s = (migrateEach rest).exec t := by
  generalize hstart : s.database = start at h
  induction h generalizing s with
  | nil => exact ⟨s, hstart, ho, rfl⟩
  | @cons m _ _ _ _ _ hrun _ ih =>
    subst hstart
    obtain ⟨t, hx, hdb, ht⟩ := migrate_ok m ho (Migration.settle_applied hrun)
    obtain ⟨u, hu, hou, hgoes⟩ := ih ht hdb
    refine ⟨u, hu, hou, ?_⟩
    rw [List.cons_append, migrateEach, Op.exec_bind_ok hx, hgoes]

theorem exec_migrate_error
    (hfail : m.upgrade.exec (.on s.database) = (.error e, ⟨partway, some s.database⟩))
    (ho : s.inTransaction = false) :
    ∃ t, (migrate m).exec s = (.error e, t) ∧ t.database = s.database ∧
      t.inTransaction = false := by
  rw [migrate, Op.exec_bind, Op.exec_tryCatch,
    exec_alter _ (Session.isOpen_of_outside ho) (Migration.settle_applied_error hfail)]
  exact ⟨_, rfl, rfl, ho⟩

/-- Of the migrations that a session has pending, those of `done` succeed and lead to `db`. The next
one fails there with `e`, whatever it did before, while its transaction is open. -/
structure Session.BreaksOff (s : Session) (ms done : List Migration) (m : Migration)
    (rest : List Migration) (db : Database) (e : Failure) : Prop where
  pending : Migration.pending ms s.database.history = done ++ m :: rest
  applies : Migration.Applies done s.asked.database db
  fails : ∃ partway, m.upgrade.exec (.on db) = (.error e, ⟨partway, some db⟩)

/-- Applying what is pending fails as the first migration that fails does, with nothing left of that
one and nothing begun of those after it. -/
theorem Session.BreaksOff.exec_migrateUp (h : s.BreaksOff ms done m rest db e)
    (ho : s.inTransaction = false) (path : Value) :
    ∃ t, (migrateUp ms path).exec s = (.error e, t) ∧ t.database = db ∧
      t.inTransaction = false := by
  obtain ⟨u, hu, hou, hx⟩ :=
    Store.exec_migrateUp (exec_history (.inl (Session.isOpen_of_outside ho))) ms path
  obtain ⟨v, hv, hov, hgoes⟩ :=
    exec_migrateEach_append (hu ▸ h.applies) (hou.trans ho) (m :: rest)
  obtain ⟨partway, hfail⟩ := h.fails
  obtain ⟨t, ht, hdb, hot⟩ := exec_migrate_error (hv ▸ hfail) hov
  refine ⟨t, ?_, hdb.trans hv, hot⟩
  rw [hx, h.pending, applyAll, Op.exec_bind_error]
  rw [hgoes, migrateEach, Op.exec_bind_error ht]

/-- Where all that is pending succeeds, applying it gives its names. -/
theorem exec_migrateUp_applies
    (h : Migration.Applies (Migration.pending ns s.database.history) s.asked.database db)
    (ho : s.inTransaction = false) (path : Value) :
    ∃ t, (migrateUp ns path).exec s
      = (.ok ((Migration.pending ns s.database.history).map Migration.name), t) ∧
        t.database = db ∧ t.inTransaction = false := by
  obtain ⟨u, hu, hou, hx⟩ := exec_migrateUp (exec_history (.inl (Session.isOpen_of_outside ho))) ns path
  obtain ⟨t, ht, hot, hgoes⟩ := exec_migrateEach_append (hu ▸ h) (hou.trans ho) []
  rw [List.append_nil] at hgoes
  refine ⟨t, ?_, ht, hot⟩
  rw [hx, applyAll, Op.exec_bind_ok hgoes]
  rfl

/-! ## Taking back that fails -/

/-- A database whose record of applied migrations stands in the table that is made for it. -/
def Database.KeepsNames (db : Database) : Prop :=
  db.history ≠ [] → db.layout.history = true

theorem Database.KeepsNames.asked (h : s.database.KeepsNames) (name : Value)
    (hr : target s.database.history name ≠ .ok none) : s.asked = s := by
  refine s.asked_eq (h fun hnone => hr ?_)
  rw [hnone]
  rfl

theorem takeBack_error {name : String} (hsteady : ∀ n ∈ ns, n.downgrade.Steady)
    (hx : (takeBack ns name).exec s = (.error e, t)) :
    t.database = s.database := by
  rw [takeBack] at hx
  cases hm : Migration.named ns (.text name) with
  | error e' =>
    rw [hm, Op.exec_bind_error (Op.exec_lift _ _)] at hx
    cases hx
    rfl
  | ok m =>
    rw [hm, Op.exec_bind_ok (Op.exec_lift _ _)] at hx
    have hm : m ∈ ns := List.mem_of_find?_eq_some (ofName?_of_named hm)
    have hundone : ∀ e db, s.database.settle m.reverted = (.error e, db) → db = s.database :=
      fun _ _ => Migration.settle_reverted_undone (hsteady m hm)
    obtain ⟨e', he⟩ | ⟨db, -, hdb⟩ := alter_cases hundone
    · rw [Op.exec_bind_error he] at hx
      cases hx
      rfl
    · rw [Op.exec_bind_ok hdb] at hx
      cases hx

theorem exec_migrateDown_target {name : Value} {found : String}
    (h : history.exec s = (.ok s.database.history, s.asked))
    (hfound : target s.database.history name = .ok (some found)) :
    (migrateDown ns name).exec s = (takeBack ns found).exec s.asked := by
  rw [migrateDown, Op.exec_bind_ok h, hfound, Op.exec_bind_ok (Op.exec_lift _ _)]
  rfl

/-- Whatever keeps a migration from being taken back, nothing changes. -/
theorem migrateDown_error {name : Value} (hk : s.database.KeepsNames)
    (hsteady : ∀ n ∈ ns, n.downgrade.Steady) (hx : (migrateDown ns name).exec s = (.error e, t)) :
    t.database = s.database := by
  obtain hhist | ⟨-, -, e', he⟩ := history_cases s
  · cases hr : target s.database.history name with
    | error e' =>
      have hasked : s.asked = s := hk.asked name (by simp [hr])
      rw [migrateDown, Op.exec_bind_ok hhist, hr, Op.exec_bind_error (Op.exec_lift _ _),
        hasked] at hx
      cases hx
      rfl
    | ok found =>
      cases found with
      | none =>
        rw [migrateDown, Op.exec_bind_ok hhist, hr, Op.exec_bind_ok (Op.exec_lift _ _)] at hx
        cases hx
      | some found =>
        have hasked : s.asked = s := hk.asked name (by simp [hr])
        rw [exec_migrateDown_target hhist hr, hasked] at hx
        exact takeBack_error hsteady hx
  · rw [migrateDown, Op.exec_bind_error he] at hx
    cases hx
    rfl

/-- Taking a migration back fails as its script does. -/
theorem exec_migrateDown_error {name : Value} {found : String} (hk : s.database.KeepsNames)
    (ho : s.inTransaction = false) (hfound : target s.database.history name = .ok (some found))
    (hm : Migration.named ns (.text found) = .ok m)
    (hfail : m.downgrade.exec (.on s.database) = (.error e, ⟨partway, some s.database⟩)) :
    (migrateDown ns name).exec s = (.error e, s) := by
  have hasked : s.asked = s := hk.asked name (by simp [hfound])
  rw [exec_migrateDown_target (exec_history (.inl (Session.isOpen_of_outside ho))) hfound, hasked,
    takeBack, hm,
    Op.exec_bind_ok (Op.exec_lift _ _),
    Op.exec_bind_error (exec_alter _ (Session.isOpen_of_outside ho)
      (Migration.settle_reverted_error hfail))]

/-! ## Going on -/

/-- A migration that breaks off while its transaction is open leaves no trace. Applying what is pending
fails as that migration does, wherever it fails, and leaves exactly the database that the migrations
before it made. As long as migrations leave it to the runner to record them, the names of those before
are recorded; and once that one is repaired and no other one fails, applying what is pending applies it
and the ones after it, in the order of their names. Taking a migration back, if it fails, changes
nothing, unless the engine has undone its transaction; and it fails if the script does.

Apart from all that, a file that nobody has asked for its migrations gets the empty table in which
they will be recorded. -/
theorem Session.BreaksOff.resumes (path : Value) (ho : s.inTransaction = false)
    (hnames : (ms.map Migration.name).Pairwise (· < ·)) (h : s.BreaksOff ms done m rest db e) :
    (∃ t, (migrateUp ms path).exec s = (.error e, t) ∧ t.database = db ∧
        t.inTransaction = false) ∧
      ((∀ n ∈ done, n.KeepsRecord) →
        db.history = s.database.history ++ done.map Migration.name ∧
          ∀ (ns : List Migration) (path' : Value) (t : Session) (after : Database),
            ns.map Migration.name = ms.map Migration.name → t.database = db →
            t.inTransaction = false →
            Migration.Applies (Migration.pending ns db.history) db after →
            ∃ u, (migrateUp ns path').exec t = (.ok ((m :: rest).map Migration.name), u) ∧
              ((m :: rest).map Migration.name).Pairwise (· < ·) ∧ u.database = after ∧
              u.inTransaction = false) ∧
      ∀ (ns : List Migration) (name : Value) (t : Session), t.database.KeepsNames →
        ((∀ n ∈ ns, n.downgrade.Steady) → ∀ e u,
          (migrateDown ns name).exec t = (.error e, u) → u.database = t.database) ∧
          ∀ found n e partway, t.inTransaction = false →
            target t.database.history name = .ok (some found) →
            Migration.named ns (.text found) = .ok n →
            n.downgrade.exec (.on t.database) = (.error e, ⟨partway, some t.database⟩) →
            (migrateDown ns name).exec t = (.error e, t) := by
  refine ⟨h.exec_migrateUp ho path, fun hkeep => ?_, fun ns name t hk =>
    ⟨fun hsteady e u hx => migrateDown_error hk hsteady hx, fun found n e partway hot hfound hn hfail =>
      exec_migrateDown_error hk hot hfound hn hfail⟩⟩
  obtain ⟨hhistory, htable⟩ := h.applies.recorded hkeep
  refine ⟨hhistory, fun ns path' t after hsame hdb hot happlies => ?_⟩
  have hleft : (Migration.pending ms s.database.history).map Migration.name
      = done.map Migration.name ++ (m :: rest).map Migration.name := by
    rw [h.pending, List.map_append]
  -- what is pending is told by the names alone, and these are the same in the repaired folder
  have hpending : (Migration.pending ns db.history).map Migration.name
      = (m :: rest).map Migration.name := by
    have hnodup : (ms.map Migration.name).Nodup := by
      refine List.Pairwise.imp (fun {a b} hlt => ?_) hnames
      rintro rfl
      exact String.lt_irrefl a hlt
    exact hhistory ▸ Migration.pending_of_recorded hnodup hleft hsame
  have hsorted : ((m :: rest).map Migration.name).Pairwise (· < ·) := by
    rw [← hpending, Migration.map_name_pending, hsame]
    exact hnames.filter _
  have hasked : t.asked = t := t.asked_eq (by rw [hdb, htable]; rfl)
  have hgoes : Migration.Applies (Migration.pending ns t.database.history) t.asked.database after := by
    rw [hasked, hdb]
    exact happlies
  obtain ⟨u, hu, hafter, hou⟩ := exec_migrateUp_applies hgoes hot path'
  exact ⟨u, by rw [hu, hdb, hpending], hsorted, hafter, hou⟩

end

/-- A third migration, which removes all entries and so cannot be taken back. -/
def Migration.clearing : Migration where
  name := "003_clear_entries"
  upgrade := .change fun db => { db with ledger := { db.ledger with entries := {} } }
  downgrade := throw (.interrupted "the entries are gone")

theorem keepsRecord_tables : Migration.tables.KeepsRecord := by
  intro db w h
  rw [exec_upgrade_tables] at h
  obtain rfl := congrArg Prod.snd h
  dsimp only
  split <;> exact ⟨rfl, rfl⟩

theorem applies_tabled : Migration.Applies [Migration.indices, Migration.clearing] .tabled
    { layout := .full, history := Migration.all.map Migration.name ++ ["003_clear_entries"] } :=
  .cons (exec_upgrade_indices (some _) rfl rfl rfl) (.cons rfl (.nil _))

/-- Three migrations of which the second one breaks off when its work is done. The first one stays.
With the second one repaired, that one and the third are applied; and the third, which cannot be
taken back, stays when that is tried. -/
theorem resumes_from_second :
    let s := { newSession with database := {} }
    let broken := brokenMigrations ++ [Migration.clearing]
    let repaired := Migration.all ++ [Migration.clearing]
    ∃ t u, (migrateUp broken .null).exec s = (.error (.interrupted "boom"), t) ∧
      t.database = .tabled ∧
      (migrateUp repaired .null).exec t = (.ok ["002_add_indices", "003_clear_entries"], u) ∧
      u.database.history = ["001_create_tables", "002_add_indices", "003_clear_entries"] ∧
      (migrateDown repaired .null).exec u = (.error (.interrupted "the entries are gone"), u) := by
  intro s broken repaired
  have hbreaks : s.BreaksOff broken [Migration.tables]
      (Migration.indices.breakingOff (.interrupted "boom")) [Migration.clearing] .tabled
      (.interrupted "boom") :=
    { pending := rfl
      applies := .cons rfl (.nil _)
      fails := by
        refine ⟨{ Database.tabled with layout := .full }, ?_⟩
        rw [Migration.breakingOff, Work.on, Script.exec_bind,
          exec_upgrade_indices (some _) rfl rfl rfl]
        rfl }
  have hnames : (broken.map Migration.name).Pairwise (· < ·) := by decide
  obtain ⟨⟨t, ht, hdb, hot⟩, hagain, hdown⟩ := hbreaks.resumes .null rfl hnames
  have hkeeps : ∀ n ∈ [Migration.tables], n.KeepsRecord :=
    List.forall_mem_singleton.2 keepsRecord_tables
  obtain ⟨u, hu, -, hafter, hou⟩ :=
    (hagain hkeeps).2 repaired .null t _ rfl hdb hot applies_tabled
  have hlast : target u.database.history .null = .ok (some "003_clear_entries") := by
    rw [hafter]
    rfl
  exact ⟨t, u, ht, hdb, hu, by rw [hafter]; rfl,
    (hdown repaired .null u (by rw [hafter]; exact fun _ => rfl)).2 _ Migration.clearing _ _ hou
      hlast rfl rfl⟩

/-- A first migration that breaks off leaves no table of its own, but a file that had no table at all
has the one in which migrations are recorded. -/
theorem first_failure_leaves_record_table :
    let s := { newSession with database := {} }
    let broken := [Migration.tables.breakingOff (.interrupted "boom"), Migration.indices]
    let run := (migrateUp broken .null).exec s
    s.database.layout.schema = [] ∧ run.1.isOk = false ∧
      run.2.database.layout.schema = [("migrations", historyColumns)] := by
  decide +kernel

end Bookkeeping.Store
