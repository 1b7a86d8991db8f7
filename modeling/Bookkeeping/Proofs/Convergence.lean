import Bookkeeping.Proofs.Upholding
import Bookkeeping.Proofs.Reachable

/-! # Where migrations lead

Migrations may be applied and taken back time and again. Any of them may break off, and any applied
one may be taken back, not only the last. This leads a database through six stages: its history
tells the stage, and the stage tells the layout.

Applying what is pending completes the layout in four of them. In the other two the tables were
dropped while the second migration was applied. It still counts as applied, so it is never done
again, and the column and the indices that went with the tables stay away.
-/

namespace Bookkeeping.Store

variable {α β : Type}

/-! ## Scripts -/

namespace Script

variable {script aim : Script}

theorem exec_change (f : Database → Database) (w : Work) :
    exec (change f) w = (.ok (), { w with database := f w.database }) := rfl

theorem exec_get (f : Work → Script) (w : Work) : exec (get >>= f) w = exec (f w) w := rfl

theorem exec_bind (script : Script) (f : Unit → Script) (w : Work) :
    exec (script >>= f) w = match exec script w with
      | (.ok a, v) => exec (f a) v
      | (.error e, v) => (.error e, v) := by
  show (ExceptT.run (script >>= f)).run w = _
  simp only [ExceptT.run_bind, StateT.run_bind]
  unfold exec
  cases h : script.run.run w with
  | mk r v => cases r <;> rfl

/-! ### Scripts that leave their transaction alone -/

/-- A script in which the engine does not undo the transaction. -/
def Steady (script : Script) : Prop := ∀ w, (exec script w).2.before = w.before

theorem steady_pure : Steady (pure ()) := fun _ => rfl

theorem steady_change (f : Database → Database) : Steady (change f) := fun _ => rfl

theorem steady_throw (e : Failure) : Steady (throw e) := fun _ => rfl

theorem steady_get {f : Work → Script} (h : ∀ w, Steady (f w)) : Steady (get >>= f) := fun w => h w w

theorem Steady.bind (h : Steady script) {f : Unit → Script} (hf : Steady (f ())) :
    Steady (script >>= f) := by
  intro w
  have hscript := h w
  rw [exec_bind]
  cases hx : exec script w with
  | mk r v =>
    rw [hx] at hscript
    cases r with
    | error e => exact hscript
    | ok a => exact (hf v).trans hscript

theorem Steady.ite {c : Prop} [Decidable c] (h : Steady script) (h' : Steady aim) :
    Steady (if c then script else aim) := by
  split
  · exact h
  · exact h'

theorem steady_each {β : Type} {script : β → Script} (h : ∀ b, Steady (script b)) (bs : List β) :
    Steady (each script bs) := by
  induction bs with
  | nil => exact steady_pure
  | cons b rest ih => exact (h b).bind ih

/-! ### Attempts -/

/-- A script that does what another one is to do, or else fails, wherever and however it may. If the
engine has undone its transaction by then, it has written nothing after that. -/
def Attempts (script aim : Script) : Prop :=
  ∀ db, exec script (.on db) = exec aim (.on db) ∨
    ∃ e v, exec script (.on db) = (.error e, v) ∧ v.undone = db

theorem Attempts.bind (h : Attempts script aim) (f : Unit → Script) :
    Attempts (script >>= f) (aim >>= f) := by
  intro db
  obtain hsame | ⟨e, v, he, hv⟩ := h db
  · exact .inl (by rw [exec_bind, exec_bind, hsame])
  · exact .inr ⟨e, v, by rw [exec_bind, he], hv⟩

/-- An attempt that fails leaves nothing behind. -/
theorem Attempts.settle (h : Attempts script aim) (db : Database) :
    db.settle script = db.settle aim ∨ ∃ e, db.settle script = (.error e, db) := by
  obtain hsame | ⟨e, ⟨after, before⟩, he, hv⟩ := h db
  · exact .inl (by rw [Database.settle, hsame, Database.settle])
  · refine .inr ?_
    rw [Database.settle, he, ← hv]
    cases before <;> exact ⟨_, rfl⟩

/-- Where a script goes through as one unit, whatever attempts it leaves nothing behind if it fails. -/
theorem Attempts.undone (h : Attempts script aim) {db after db' : Database} {e : Failure}
    (ha : db.settle aim = (.ok (), after)) (hx : db.settle script = (.error e, db')) : db' = db := by
  obtain hsame | ⟨e', he⟩ := h.settle db
  · rw [hsame, ha] at hx
    cases hx
  · rw [he] at hx
    cases hx
    rfl

/-- Work that is thrown away is an attempt at it. -/
theorem Steady.attempts (h : Steady aim) (e : Failure) : Attempts (do aim; throw e) aim := by
  intro db
  have hbefore := h (.on db)
  rw [exec_bind]
  cases hx : exec aim (.on db) with
  | mk r v =>
    rw [hx] at hbefore
    have hv : v.undone = db := by
      rw [Work.undone, hbefore]
      rfl
    cases r <;> exact .inr ⟨_, v, rfl, hv⟩

end Script

namespace Migration

variable {n m : Migration} {db before after : Database}

/-- A migration that does what another one of the same name is to do, or else fails. -/
structure Attempts (n m : Migration) : Prop where
  name : n.name = m.name
  upgrade : Script.Attempts n.upgrade m.upgrade
  downgrade : Script.Attempts n.downgrade m.downgrade

theorem attempts_self (m : Migration) : m.Attempts m := ⟨rfl, fun _ => .inl rfl, fun _ => .inl rfl⟩

/-- A migration that breaks off once its work is done. -/
theorem breakingOff_attempts (h : m.upgrade.Steady) (h' : m.downgrade.Steady) (e : Failure) :
    (m.breakingOff e).Attempts m :=
  ⟨rfl, h.attempts e, h'.attempts e⟩

theorem Attempts.applied (h : n.Attempts m) : Script.Attempts n.applied m.applied := by
  simp only [Migration.applied, h.name]
  exact h.upgrade.bind _

theorem Attempts.reverted (h : n.Attempts m) : Script.Attempts n.reverted m.reverted := by
  simp only [Migration.reverted, h.name]
  exact h.downgrade.bind _

theorem settle_applied (h : m.upgrade.exec (.on db) = (.ok (), ⟨after, some before⟩)) :
    db.settle m.applied = (.ok (), { after with history := after.history ++ [m.name] }) := by
  rw [Database.settle, applied, Script.exec_bind, h]
  rfl

theorem settle_reverted (h : m.downgrade.exec (.on db) = (.ok (), ⟨after, some before⟩)) :
    db.settle m.reverted = (.ok (), { after with history := after.history.filter (· != m.name) }) := by
  rw [Database.settle, reverted, Script.exec_bind, h]
  rfl

end Migration

/-! ## What the migrations do -/

/-- A database with other indices. -/
def Database.withIndices (db : Database) (indices : List Index) : Database :=
  { db with layout := { db.layout with indices } }

theorem exec_upgrade_tables (db : Database) :
    Migration.tables.upgrade.exec (.on db) = (.ok (), ⟨if db.layout.tables then db
      else { db with layout := { db.layout with tables := true }, ledger := {} }, some db⟩) := rfl

theorem exec_downgrade_tables (db : Database) :
    Migration.tables.downgrade.exec (.on db)
      = (.ok (), ⟨{ db with layout := { history := db.layout.history }, ledger := {} }, some db⟩) :=
  rfl

theorem exec_createIndex {i : Index} {db : Database} (before : Option Database)
    (ht : db.layout.tables = true) (hi : i ∉ db.layout.indices) :
    (createIndex i).exec ⟨db, before⟩
      = (.ok (), ⟨db.withIndices (db.layout.indices ++ [i]), before⟩) := by
  simp [createIndex, Script.exec_get, ht, hi, Script.exec_change, Database.withIndices]

theorem exec_each_createIndex (is : List Index) {db : Database} (before : Option Database)
    (ht : db.layout.tables = true) (hn : (db.layout.indices ++ is).Nodup) :
    (Script.each createIndex is).exec ⟨db, before⟩
      = (.ok (), ⟨db.withIndices (db.layout.indices ++ is), before⟩) := by
  induction is generalizing db with
  | nil =>
    rw [List.append_nil]
    rfl
  | cons i rest ih =>
    have hi : i ∉ db.layout.indices := fun hmem =>
      (List.nodup_append.mp hn).2.2 i hmem i List.mem_cons_self rfl
    rw [List.append_cons] at hn ⊢
    rw [Script.each, Script.exec_bind, exec_createIndex before ht hi]
    exact ih ht hn

theorem exec_each_dropIndex (is : List Index) (db : Database) (before : Option Database) :
    (Script.each dropIndex is).exec ⟨db, before⟩
      = (.ok (), ⟨db.withIndices (db.layout.indices.filter fun i => !is.contains i), before⟩) := by
  induction is generalizing db with
  | nil =>
    simp only [List.contains_nil, Bool.not_false, List.filter_true]
    rfl
  | cons i rest ih =>
    rw [Script.each, Script.exec_bind, dropIndex, Script.exec_change]
    refine (ih _).trans ?_
    simp only [Database.withIndices, List.filter_filter, List.contains_cons, Bool.not_or, bne,
      Bool.and_comm]

theorem exec_upgrade_indices {db : Database} (before : Option Database)
    (ht : db.layout.tables = true) (hg : db.layout.target = false) (hi : db.layout.indices = []) :
    Migration.indices.upgrade.exec ⟨db, before⟩ = (.ok (), ⟨{ db with layout :=
      { db.layout with target := true, indices := Index.all } }, before⟩) := by
  have hadd : addTarget.exec ⟨db, before⟩
      = (.ok (), ⟨{ db with layout := { db.layout with target := true } }, before⟩) := by
    simp [addTarget, Script.exec_get, ht, Script.exec_change]
  have hnodup : Index.all.Nodup := by decide
  simp only [Migration.indices, Script.exec_get, hg, Bool.not_false, if_true, Script.exec_bind, hadd]
  refine (exec_each_createIndex Index.all before ?_ ?_).trans ?_
  · exact ht
  · simpa [hi] using hnodup
  · simp [Database.withIndices, hi]

/-- Taking the second migration back never fails, whether or not there is anything to drop. -/
theorem exec_downgrade_indices {db : Database} (before : Option Database)
    (hi : ∀ i ∈ db.layout.indices, i ∈ Index.all) :
    ∃ l, Migration.indices.downgrade.exec ⟨db, before⟩ = (.ok (), ⟨{ db with
      layout := { db.layout with target := false, indices := [] }, ledger := l }, before⟩) := by
  have hnone : (db.layout.indices.filter fun i => !Index.all.contains i) = [] := by
    simpa using hi
  simp only [Migration.indices, Script.exec_bind, exec_each_dropIndex, hnone, Script.exec_get]
  cases hg : db.layout.target with
  | false => exact ⟨db.ledger, by simp [Database.withIndices, hg]; rfl⟩
  | true => exact ⟨db.ledger.withoutTargets, by simp [Database.withIndices, hg, dropTarget]; rfl⟩

theorem steady_upgrade_indices : Migration.indices.upgrade.Steady := by
  have hcreate : (Script.each createIndex Index.all).Steady :=
    Script.steady_each (fun i => Script.steady_get fun w => .ite
      ((Script.steady_throw _).bind (.ite (Script.steady_change _) Script.steady_pure))
      (.ite (Script.steady_change _) Script.steady_pure)) _
  have hadd : addTarget.Steady :=
    Script.steady_get fun w => .ite ((Script.steady_throw _).bind (Script.steady_change _))
      (Script.steady_change _)
  exact Script.steady_get fun w => .ite (hadd.bind hcreate) hcreate

theorem steady_downgrade_indices : Migration.indices.downgrade.Steady :=
  (Script.steady_each (fun _ => Script.steady_change _) _).bind
    (Script.steady_get fun _ => .ite (Script.steady_change _) Script.steady_pure)

/-! ## Stages -/

/-- How far a database has come. -/
inductive Stage where
  /-- Nobody has asked for its migrations yet. -/
  | untouched
  | blank
  /-- It has its tables. -/
  | tabled
  | full
  /-- Its tables were dropped while the second migration was applied. -/
  | stranded
  /-- Its tables were made again after that. -/
  | patched

namespace Stage

/-- What a database has at a stage. -/
def layout : Stage → Layout
  | untouched => {}
  | blank | stranded => { history := true }
  | tabled | patched => { tables := true, history := true }
  | full => .full

/-- The names of the migrations that are applied at a stage, the oldest first. -/
def history : Stage → List String
  | untouched | blank => []
  | tabled => [Migration.tables.name]
  | full => [Migration.tables.name, Migration.indices.name]
  | stranded => [Migration.indices.name]
  | patched => [Migration.indices.name, Migration.tables.name]

/-- The stage once the migrations have been asked for. -/
def recorded : Stage → Stage
  | untouched => blank
  | st => st

/-- The stage once nothing is pending. -/
def settled : Stage → Stage
  | untouched | blank | tabled | full => full
  | stranded | patched => patched

/-- The steps that applying a migration takes. -/
inductive Up : Migration → Stage → Stage → Prop
  | create : Up Migration.tables blank tabled
  | recreate : Up Migration.tables stranded patched
  | extend : Up Migration.indices tabled full

/-- The steps that taking a migration back takes. -/
inductive Down : Migration → Stage → Stage → Prop
  | drop : Down Migration.tables tabled blank
  | strand : Down Migration.tables full stranded
  | strandAgain : Down Migration.tables patched stranded
  | strip : Down Migration.indices full tabled
  | forget : Down Migration.indices stranded blank
  | level : Down Migration.indices patched tabled

/-- The steps that applying migrations one after the other takes. -/
inductive Climb : List Migration → Stage → Stage → Prop
  | done {a : Stage} : Climb [] a a
  | up {m : Migration} {ms : List Migration} {a b c : Stage} (h : Up m a b) (hs : Climb ms b c) :
      Climb (m :: ms) a c

/-- Applying what is pending can be done at every stage. -/
theorem climb_pending (st : Stage) :
    Climb (Migration.pending Migration.all st.history) st.recorded st.settled := by
  cases st with
  | untouched | blank => exact .up .create (.up .extend .done)
  | tabled => exact .up .extend .done
  | stranded => exact .up .recreate .done
  | full | patched => exact .done

/-- Every applied migration can be taken back. -/
theorem down_of_applied {st : Stage} {m : Migration} (hm : m ∈ Migration.all)
    (h : m.name ∈ st.history) : ∃ st', Down m st.recorded st' := by
  obtain rfl | rfl := List.mem_pair.mp hm
  · cases st with
    | tabled => exact ⟨_, .drop⟩
    | full => exact ⟨_, .strand⟩
    | patched => exact ⟨_, .strandAgain⟩
    | untouched | blank | stranded => exact absurd h (by decide)
  · cases st with
    | full => exact ⟨_, .strip⟩
    | stranded => exact ⟨_, .forget⟩
    | patched => exact ⟨_, .level⟩
    | untouched | blank | tabled => exact absurd h (by decide)

end Stage

/-- A database at a stage, whatever its rows. -/
structure Database.At (db : Database) (st : Stage) : Prop where
  layout : db.layout = st.layout
  history : db.history = st.history

theorem Stage.Up.settle {m : Migration} {a b : Stage} {db : Database} (h : Up m a b)
    (hd : db.At a) : ∃ after, db.settle m.applied = (.ok (), after) ∧ after.At b := by
  obtain ⟨hl, hh⟩ := hd
  cases h with
  | create | recreate =>
    refine ⟨_, Migration.settle_applied (exec_upgrade_tables db), ?_, ?_⟩
    · simp [hl, Stage.layout]
    · simp [hl, hh, Stage.layout, Stage.history]
  | extend =>
    refine ⟨_, Migration.settle_applied (exec_upgrade_indices _ ?_ ?_ ?_), ?_, ?_⟩
    all_goals simp [hl, hh, Stage.layout, Stage.history, Layout.full]

theorem Stage.Down.settle {m : Migration} {a b : Stage} {db : Database} (h : Down m a b)
    (hd : db.At a) : ∃ after, db.settle m.reverted = (.ok (), after) ∧ after.At b := by
  obtain ⟨hl, hh⟩ := hd
  cases h with
  | drop | strand | strandAgain =>
    refine ⟨_, Migration.settle_reverted (exec_downgrade_tables db), ?_, ?_⟩
    · simp [hl, Stage.layout, Layout.full]
    · exact (congrArg _ hh).trans (by decide)
  | strip | forget | level =>
    obtain ⟨l, hx⟩ := exec_downgrade_indices (some db)
      (show ∀ i ∈ db.layout.indices, i ∈ Index.all by simp [hl, Stage.layout, Layout.full])
    refine ⟨_, Migration.settle_reverted hx, ?_, ?_⟩
    · simp [hl, Stage.layout, Layout.full]
    · exact (congrArg _ hh).trans (by decide)

/-! ## Running migrations -/

/-- From a stage an operation leads to some stage, and if it succeeds, something holds of what it
gives and of the stage that it leads to. -/
def Op.Leads (op : Op α) (a : Stage) (Q : α → Stage → Prop) : Prop :=
  ∀ s, s.database.At a →
    ∃ b, (op.exec s).2.database.At b ∧ ∀ v, (op.exec s).1 = .ok v → Q v b

namespace Op

variable {a : Stage} {P : α → Stage → Prop} {Q : β → Stage → Prop}

theorem leads_pure {v : α} (h : P v a) : (pure v : Op α).Leads a P := by
  intro s hs
  refine ⟨a, hs, fun w hw => ?_⟩
  cases hw
  exact h

theorem leads_lift {r : Except Failure α} (h : ∀ v, r = .ok v → P v a) : (lift r).Leads a P :=
  fun _ hs => ⟨a, hs, h⟩

theorem leads_get : (get : Op Session).Leads a fun s st => s.database.At a ∧ st = a := by
  intro s hs
  refine ⟨a, hs, fun v hv => ?_⟩
  cases hv
  exact ⟨hs, rfl⟩

theorem leads_throw (e : Failure) : (throw e : Op α).Leads a P :=
  fun _ hs => ⟨a, hs, fun _ hv => by cases hv⟩

theorem Leads.bind {x : Op α} {f : α → Op β} (hx : x.Leads a P)
    (hf : ∀ v b, P v b → (f v).Leads b Q) : (x >>= f).Leads a Q := by
  intro s hs
  obtain ⟨b, hb, hok⟩ := hx s hs
  rw [exec_bind]
  cases hxs : x.exec s with
  | mk r t =>
    rw [hxs] at hb hok
    cases r with
    | error e => exact ⟨b, hb, fun _ hv => by cases hv⟩
    | ok v => exact hf v b (hok v rfl) t hb

theorem Leads.tryCatch {x : Op α} {f : Failure → Op α} (hx : x.Leads a P)
    (hf : ∀ e b, (f e).Leads b P) : (tryCatch x f).Leads a P := by
  intro s hs
  obtain ⟨b, hb, hok⟩ := hx s hs
  rw [exec_tryCatch]
  cases hxs : x.exec s with
  | mk r t =>
    rw [hxs] at hb hok
    cases r with
    | error e => exact hf e b t hb
    | ok v => exact ⟨b, hb, hok⟩

end Op

section Running

variable {a b : Stage} {n m : Migration} {ns ms : List Migration}

theorem leads_emit (level : Log.Level) (part : Log.Part) (event : String)
    (fields : List (String × Value)) :
    (emit level part event fields).Leads a fun _ st => st = a :=
  fun _ hs => ⟨a, hs, fun _ _ => rfl⟩

/-- A script leads where it takes a database as one unit; or it fails, and the stage stays. -/
theorem leads_alter {script aim : Script} (ha : Script.Attempts script aim)
    (h : ∀ db : Database, db.At a → ∃ after, db.settle aim = (.ok (), after) ∧ after.At b) :
    (alter script).Leads a fun _ st => st = b := by
  intro s hs
  cases ho : s.isOpen with
  | true => exact ⟨a, by simpa [alter, ho] using hs, fun _ hv => by simp [alter, ho] at hv⟩
  | false =>
    obtain hsame | ⟨e, he⟩ := ha.settle s.database
    · obtain ⟨after, hsettle, hat⟩ := h _ hs
      rw [exec_alter script ho (hsame.trans hsettle)]
      exact ⟨b, hat, fun _ _ => rfl⟩
    · rw [exec_alter script ho he]
      exact ⟨a, hs, fun _ hv => by cases hv⟩

/-- Asking for the applied migrations. -/
theorem leads_history (a : Stage) :
    history.Leads a fun names st => names = a.history ∧ st = a.recorded := by
  refine Op.leads_get.bind fun s st ⟨hs, hst⟩ => ?_
  subst hst
  cases st with
  | untouched =>
    simp only [hs.layout, hs.history, Stage.layout, Bool.not_false, if_true]
    refine (leads_alter (b := .blank) (fun _ => .inl rfl) fun db hdb => ?_).bind
      fun _ _ hc => Op.leads_pure ⟨rfl, hc⟩
    exact ⟨_, settle_change db _, by simp [hdb.layout, Stage.layout], hdb.history⟩
  | blank | tabled | full | stranded | patched =>
    simp only [hs.layout, hs.history, Stage.layout, Layout.full, Bool.not_true, Bool.false_eq_true,
      if_false]
    exact Op.leads_pure ⟨rfl, rfl⟩

theorem leads_migrate (hn : n.Attempts m) (h : Stage.Up m a b) :
    (migrate n).Leads a fun _ st => st = b := by
  refine ((leads_alter hn.applied fun _ => h.settle).tryCatch fun e _ => ?_).bind fun _ _ hc => ?_
  · exact (leads_emit _ _ _ _).bind fun _ _ _ => Op.leads_throw e
  · subst hc
    exact leads_emit _ _ _ _

theorem leads_migrateEach (hn : List.Forall₂ Migration.Attempts ns ms)
    (h : Stage.Climb ms a b) : (migrateEach ns).Leads a fun _ st => st = b := by
  -- on the climb, so that every migration comes with the step that it takes
  induction h generalizing ns with
  | done =>
    cases hn
    exact Op.leads_pure rfl
  | up h hs ih =>
    cases hn with
    | cons hn hns =>
      refine (leads_migrate hn h).bind fun _ _ hc => ?_
      subst hc
      exact ih hns

theorem pending_attempts (hn : List.Forall₂ Migration.Attempts ns ms)
    (names : List String) :
    List.Forall₂ Migration.Attempts (Migration.pending ns names) (Migration.pending ms names) := by
  induction hn with
  | nil => exact .nil
  | cons h _ ih =>
    rw [Migration.pending, Migration.pending, List.filter_cons, List.filter_cons, h.name]
    split
    · exact .cons h ih
    · exact ih

theorem leads_migrateUp (hn : List.Forall₂ Migration.Attempts ns Migration.all) (path : Value)
    (a : Stage) : (migrateUp ns path).Leads a fun _ st => st = a.settled := by
  refine (leads_history a).bind fun names st ⟨hnames, hst⟩ => ?_
  subst hnames hst
  have hrun : (migrateEach (Migration.pending ns a.history)).Leads a.recorded
      fun _ st => st = a.settled :=
    leads_migrateEach (pending_attempts hn _) a.climb_pending
  have hend : (do
      migrateEach (Migration.pending ns a.history)
      pure ((Migration.pending ns a.history).map Migration.name) : Op (List String)).Leads a.recorded
      fun _ st => st = a.settled :=
    hrun.bind fun _ _ hc => Op.leads_pure hc
  dsimp only
  split
  -- that nothing is pending is logged, and then nothing is applied
  · exact (leads_emit _ _ _ _).bind fun _ _ hc => hc ▸ hend
  · exact hend

theorem ofName?_of_named {name : String} (h : Migration.named ns (.text name) = .ok n) :
    Migration.ofName? ns name = some n := by
  unfold Migration.named at h
  split at h
  · rename_i found hfound
    cases h
    exact hfound
  · cases h

theorem named_attempts (hn : List.Forall₂ Migration.Attempts ns ms) {name : String}
    (hnamed : Migration.named ns (.text name) = .ok n) :
    ∃ m ∈ ms, m.name = name ∧ n.Attempts m := by
  have hfound := ofName?_of_named hnamed
  clear hnamed
  -- along both lists at once: the first match in one is the first match in the other
  induction hn with
  | nil => cases hfound
  | @cons n' m' ns ms h _ ih =>
    rw [Migration.ofName?, List.find?_cons] at hfound
    split at hfound
    · rename_i hname
      cases hfound
      exact ⟨m', List.mem_cons_self, h.name.symm.trans (by simpa using hname), h⟩
    · obtain ⟨m, hm, hmn⟩ := ih hfound
      exact ⟨m, List.mem_cons_of_mem _ hm, hmn⟩

/-- Only applied migrations are taken back. -/
theorem target_applied {names : List String} {v : Value} {name : String}
    (h : target names v = .ok (some name)) : name ∈ names := by
  unfold target at h
  split at h
  · cases h
  · rename_i last hlast
    split at h
    · cases h
      exact List.mem_of_getLast? hlast
    · split at h
      · rename_i s hs
        cases h
        exact List.contains_iff_mem.mp (Option.filter_eq_some_iff.mp hs).2
      · cases h

theorem leads_migrateDown (hn : List.Forall₂ Migration.Attempts ns Migration.all) (name : Value)
    (a : Stage) : (migrateDown ns name).Leads a fun _ _ => True := by
  refine (leads_history a).bind fun names st ⟨hnames, hst⟩ => ?_
  subst hnames hst
  refine (Op.leads_lift (P := fun r st => target a.history name = .ok r ∧ st = a.recorded)
    fun r hr => ⟨hr, rfl⟩).bind fun r st ⟨hr, hst⟩ => ?_
  subst hst
  cases r with
  | none => exact Op.leads_pure trivial
  | some name =>
    refine (Op.leads_lift (P := fun n st => Migration.named ns (.text name) = .ok n ∧ st = a.recorded)
      fun n hn => ⟨hn, rfl⟩).bind fun n st ⟨hnamed, hst⟩ => ?_
    subst hst
    obtain ⟨m, hm, hname, hnm⟩ := named_attempts hn hnamed
    obtain ⟨b, hdown⟩ := Stage.down_of_applied hm (hname ▸ target_applied hr)
    refine (leads_alter hnm.reverted fun _ => hdown.settle).bind fun _ _ _ => ?_
    exact (leads_emit _ _ _ _).bind fun _ _ _ => Op.leads_pure trivial

end Running

/-! ## Convergence -/

/-- A database that comes about from an empty one by applying migrations, taking them back and
making calls, in any order and in sessions of any kind. Any of this may succeed or fail, and any
migration may break off. What a block may be undone to is such a database, too. -/
inductive Evolved : Database → Prop
  | empty : Evolved {}
  | up {s : Session} {ns : List Migration} {path : Value} (hd : Evolved s.database)
      (hn : List.Forall₂ Migration.Attempts ns Migration.all) :
      Evolved ((migrateUp ns path).exec s).2.database
  | down {s : Session} {ns : List Migration} {name : Value} (hd : Evolved s.database)
      (hn : List.Forall₂ Migration.Attempts ns Migration.all) :
      Evolved ((migrateDown ns name).exec s).2.database
  | call {s : Session} {c : Service.Call} (hd : Evolved s.database)
      (hb : ∀ before, s.standing = .inside before → Evolved before) :
      Evolved (c.run.exec s).2.database

theorem Evolved.stage {db : Database} (h : Evolved db) : ∃ st, db.At st := by
  induction h with
  | empty => exact ⟨.untouched, rfl, rfl⟩
  | @up s ns path _ hn ih =>
    obtain ⟨a, ha⟩ := ih
    obtain ⟨b, hb, _⟩ := leads_migrateUp hn path a s ha
    exact ⟨b, hb⟩
  | @down s ns name _ hn ih =>
    obtain ⟨a, ha⟩ := ih
    obtain ⟨b, hb, _⟩ := leads_migrateDown hn name a s ha
    exact ⟨b, hb⟩
  | @call s c _ _ ih ihb =>
    have hlasting : Lasting s.setting fun db => ∃ st, db.At st :=
      lasting_of_withLedger fun _ _ ⟨st, hst⟩ => ⟨st, hst.layout, hst.history⟩
    exact (c.upholds hlasting ⟨ih, ihb⟩).now

/-- Applying what is pending leaves every migration applied, wherever a database comes from. It
leaves the full layout, which a single run on an empty database leads to, unless the second migration
is the oldest of those that were applied before: then the layout has neither the column nor the
indices. -/
theorem Evolved.converges {s : Session} {ns : List Migration} {path : Value}
    (hd : Evolved s.database) (hn : List.Forall₂ Migration.Attempts ns Migration.all)
    (h : ((migrateUp ns path).exec s).1.isOk = true) :
    let db := ((migrateUp ns path).exec s).2.database
    (∀ m ∈ Migration.all, m.name ∈ db.history) ∧
      (s.database.history.head? ≠ some Migration.indices.name → db.layout = .full) ∧
      (s.database.history.head? = some Migration.indices.name →
        db.layout = { tables := true, history := true }) := by
  obtain ⟨a, ha⟩ := hd.stage
  obtain ⟨b, hb, hok⟩ := leads_migrateUp hn path a s ha
  obtain ⟨v, hv⟩ : ∃ v, ((migrateUp ns path).exec s).1 = .ok v := by
    cases hr : ((migrateUp ns path).exec s).1 with
    | ok v => exact ⟨v, rfl⟩
    | error e => simp [hr, Except.isOk, Except.toBool] at h
  obtain rfl := hok v hv
  intro db
  rw [show db.history = _ from hb.history, show db.layout = _ from hb.layout, ha.history]
  -- the second migration is the oldest one at the last two stages only
  cases a with
  | untouched | blank | tabled | full =>
    exact ⟨by decide, fun _ => rfl, fun hhead => absurd hhead (by decide)⟩
  | stranded | patched =>
    exact ⟨by decide, fun hhead => absurd rfl hhead, fun _ => rfl⟩

/-- The session in which migrations were applied to an empty database. -/
def Session.applying (ns : List Migration) : Session :=
  ((migrateUp ns (.text "ledger.db")).exec { newSession with database := {} }).2

/-- The session after migrations were taken back one after the other. -/
def Session.takingBack (s : Session) (names : List Value) : Session :=
  names.foldl (fun s name => ((migrateDown Migration.all name).exec s).2) s

theorem attempts_all : List.Forall₂ Migration.Attempts Migration.all Migration.all :=
  List.forall₂_same.2 fun m _ => m.attempts_self

theorem evolved_takingBack {s : Session} (hs : Evolved s.database) (names : List Value) :
    Evolved (s.takingBack names).database := by
  induction names generalizing s with
  | nil => exact hs
  | cons name rest ih => exact ih (.down hs attempts_all)

/-- Migrations of which the second one always breaks off. -/
def brokenMigrations : List Migration :=
  [Migration.tables, Migration.indices.breakingOff (.interrupted "boom")]

theorem attempts_brokenMigrations :
    List.Forall₂ Migration.Attempts brokenMigrations Migration.all :=
  .cons (Migration.attempts_self _)
    (.cons (Migration.breakingOff_attempts steady_upgrade_indices steady_downgrade_indices _) .nil)

/-- After a migration broke off and the one before it was taken back, all can be applied. -/
theorem converges_after_breaking_off :
    let s := (Session.applying brokenMigrations).takingBack [.null]
    s.database.history = [] ∧
      ((migrateUp Migration.all (.text "ledger.db")).exec s).2.database.layout = .full := by
  intro s
  have hd : Evolved s.database :=
    evolved_takingBack (.up .empty attempts_brokenMigrations) [.null]
  have hnone : s.database.history = [] := by decide +kernel
  have hok : ((migrateUp Migration.all (.text "ledger.db")).exec s).1.isOk = true := by
    decide +kernel
  exact ⟨hnone, (hd.converges attempts_all hok).2.1 (by simp [hnone])⟩

/-- With the first migration taken back under the second, applying what is pending succeeds and
leaves every migration applied, but neither the column nor an index. -/
theorem stranded_stays_incomplete :
    let s := (Session.applying Migration.all).takingBack [.text "001_create_tables"]
    let run := (migrateUp Migration.all (.text "ledger.db")).exec s
    Evolved s.database ∧ run.1.isOk = true ∧
      run.2.database.history = ["002_add_indices", "001_create_tables"] ∧
      run.2.database.layout.target = false ∧ run.2.database.layout.indices = [] := by
  intro s run
  have hd : Evolved s.database := evolved_takingBack (.up .empty attempts_all) _
  exact ⟨hd, by decide +kernel⟩

end Bookkeeping.Store
