import Bookkeeping.Proofs.Layers
import Bookkeeping.Service.Program

/-! # Blocks in blocks

A block that stands in another one is part of it: what its calls write stays when the outermost block
ends well, also if the inner block failed and the failure was caught, and goes when the outermost
block fails. So all that counts is which calls were executed, in which order, and how the outermost
block ended. It alone begins a transaction and ends it, and the count of the blocks is zero again
whichever way they were left.
-/

namespace Bookkeeping.Store

variable {α β : Type}

/-! ## Staying at a level -/

/-- What a session at the same level of blocks has in common with another: it is in a block if the
other is, whose transaction has neither ended nor begun anew, unless the engine has undone it. -/
structure Session.Abreast (s t : Session) : Prop where
  standing : t.standing = s.standing ∨
    (∃ before, s.standing = .inside before) ∧ t.standing = .bereft
  setting : t.setting = s.setting
  boundaries : s.inBlock = true → t.boundaries = s.boundaries
  pending : s.inBlock = true → t.isPending = true → s.isPending = true

namespace Session

variable {s t u : Session}

theorem Stays.abreast {lost : Prop} (h : s.Stays t lost) (hset : t.setting = s.setting) :
    s.Abreast t where
  standing := h.standing.imp_right fun ⟨_, before, hs, ht, _⟩ => ⟨⟨before, hs⟩, ht⟩
  setting := hset
  boundaries := h.boundaries
  pending := h.pending

namespace Abreast

theorem refl (s : Session) : s.Abreast s := ⟨.inl rfl, rfl, fun _ => rfl, fun _ => id⟩

theorem inBlock (h : s.Abreast t) : t.inBlock = s.inBlock := by
  rcases h.standing with h | ⟨⟨before, hs⟩, ht⟩
  · exact inBlock_congr h
  · rw [inBlock_of_inside hs, Session.inBlock, ht]

/-- A transaction that the engine has undone does not come back. -/
theorem between (h : s.Abreast t) (h' : t.Abreast u) (hu : u.standing = s.standing) :
    t.standing = s.standing := by
  rcases h.standing with h | ⟨⟨before, hs⟩, ht⟩
  · exact h
  · rcases h'.standing with h' | ⟨⟨before', ht'⟩, -⟩
    · exact h'.symm.trans hu
    · rw [ht] at ht'
      cases ht'

theorem trans (h : s.Abreast t) (h' : t.Abreast u) : s.Abreast u where
  standing := by
    rcases h'.standing with hu | ⟨⟨before, ht⟩, hu⟩
    · rw [hu]
      exact h.standing
    · rcases h.standing with hst | ⟨-, ht'⟩
      · exact .inr ⟨⟨before, hst.symm.trans ht⟩, hu⟩
      · rw [ht] at ht'
        cases ht'
  setting := h'.setting.trans h.setting
  boundaries hin := (h'.boundaries (h.inBlock.trans hin)).trans (h.boundaries hin)
  pending hin hu := h.pending hin (h'.pending (h.inBlock.trans hin) hu)

end Abreast

end Session

namespace Op

/-- An operation that ends at the level of blocks where it began. -/
def Balanced (op : Op α) : Prop := ∀ s : Session, s.Abreast (op.exec s).2

theorem balanced_lift (r : Except Failure α) : (lift r).Balanced := fun s => .refl s

theorem Orderly.balanced {op : Op α} {k : Grade} {Q : α → Prop}
    (h : ∀ g, op.Orderly (.tables g) k Q) : op.Balanced := fun s =>
  ((h s.setting).kept rfl).abreast ((h s.setting).leads rfl).1.setting_eq

theorem Balanced.bind {x : Op α} {f : α → Op β} (hx : x.Balanced) (hf : ∀ a, (f a).Balanced) :
    (x >>= f).Balanced := by
  intro s
  have hs := hx s
  rw [exec_bind]
  cases hxs : x.exec s with
  | mk r t =>
    rw [hxs] at hs
    cases r with
    | error e => exact hs
    | ok a => exact hs.trans (hf a t)

theorem Balanced.tryCatch {x : Op α} {f : Failure → Op α} (hx : x.Balanced)
    (hf : ∀ e, (f e).Balanced) : (tryCatch x f).Balanced := by
  intro s
  have hs := hx s
  rw [exec_tryCatch]
  cases hxs : x.exec s with
  | mk r t =>
    rw [hxs] at hs
    cases r with
    | ok a => exact hs
    | error e => exact hs.trans (hf e t)

/-- A transaction ends as it began, whatever its end. -/
theorem Balanced.transaction {body : Op α} (h : body.Balanced) : (transaction body).Balanced := by
  intro s
  cases hin : s.inBlock with
  | true =>
    rw [exec_transaction_inside body hin]
    exact h s
  | false =>
    refine ⟨.inl (standing_transaction hin), ?_, fun hs => ?_, fun hs => ?_⟩
    · exact transaction_along (R := fun s t : Session => t.setting = s.setting)
        (fun _ _ _ h h' => h'.trans h) (fun _ _ h => h.setting_eq) (fun s => (h s).setting) s
    · rw [hin] at hs
      cases hs
    · rw [hin] at hs
      cases hs

end Op

open Op

/-! ## Writing once -/

/-- A session of its own on a database, in which nothing is broken off. -/
def Setting.alone (g : Setting) (db : Database) : Session :=
  { database := db, enforce := g.enforce, scheme := g.scheme, now := g.now, path := "" }

/-- Whether the next statement of a session is broken off, or else the balance shift that it is part
of. -/
def Session.breaksOff (shifts : Bool) (s : Session) : Bool :=
  s.trouble?.isSome || (shifts && (s.fuse == some 0 || s.fuse == some 1))

/-- An operation that writes with its first statement or not at all. What it makes of a database is
the same in every session with its setting, whether in a block or by itself, unless that statement is
broken off or the transaction of the block is undone. -/
def Op.WritesOnce (shifts : Bool) (op : Op α) : Prop :=
  ∃ f : Setting → Database → Database, ∀ s, s.inBlock = true ∨ s.breaks = none →
    (op.exec s).2.standing = s.standing → (op.exec s).2.database =
      if s.breaksOff shifts then s.database else f s.setting s.database

namespace Op.WritesOnce

variable {shifts : Bool}

theorem lift (r : Except Failure α) : (lift r).WritesOnce shifts :=
  ⟨fun _ db => db, fun s _ _ => by simp⟩

theorem lift_bind {r : Except Failure α} {f : α → Op β} (h : ∀ a, (f a).WritesOnce shifts) :
    (Op.lift r >>= f).WritesOnce shifts := by
  cases r with
  | error e => exact lift (.error e)
  | ok a => exact h a

/-- What is read afterwards makes no difference, whether it succeeds or not. -/
theorem reading {x : Op α} {f : α → Op β} {Q : β → Prop} (hx : x.WritesOnce shifts)
    (hk : ∀ s, x.Kept s) (hf : ∀ a g, (f a).Orderly (.tables g) .quiet Q) :
    (x >>= f).WritesOnce shifts := by
  obtain ⟨g, hg⟩ := hx
  refine ⟨g, fun s hs hend => ?_⟩
  cases hxs : x.exec s with
  | mk r t =>
    cases r with
    | error e =>
      rw [exec_bind_error hxs] at hend ⊢
      have h := hg s hs
      rw [hxs] at h
      exact h hend
    | ok a =>
      rw [exec_bind_ok hxs] at hend ⊢
      have ht := (hk s).of_ok hxs
      have h := hg s hs
      rw [hxs] at h
      rw [((hf a t.setting).still rfl rfl).database (hend.trans ht.symm)]
      exact h ht

theorem map {x : Op α} (f : α → β) (hx : x.WritesOnce shifts) : (f <$> x).WritesOnce shifts := by
  obtain ⟨g, hg⟩ := hx
  refine ⟨g, fun s hs => ?_⟩
  have hsame : ((f <$> x).exec s).2 = (x.exec s).2 := by
    rw [exec_map]
    cases x.exec s with
    | mk r t => cases r <;> rfl
  rw [hsame]
  exact hg s hs

end Op.WritesOnce

section

variable (ρ : Type) [Persistent ρ α] {deleting : Bool}
  {run : Session → Except Failure (Stored (β × Ledger))} {s : Session}

omit [Persistent ρ α] in
theorem calm_of_alone (h : ∀ s : Session, run (s.setting.alone s.database) = run s) (s : Session) :
    run s.calm = run s := (h s.calm).symm.trans (h s)

/-- An operation that succeeds as a change does and then leaves what the change makes of the
database. -/
def Op.Strikes (body : Op β) (run : Session → Except Failure (Stored (β × Ledger))) (s : Session) :
    Prop :=
  (∃ b l, run s = .ok (.ok (b, l)) ∧ body.exec s = (.ok b, s.put l)) ∨
    ∃ e t, Database.changed run s = s.database ∧ body.exec s = (.error e, t)

theorem strikes_change (hin : s.inBlock = true) (hb : s.breaks = none) :
    (change ρ deleting run).Strikes run s := by
  rw [Op.Strikes, Database.changed, exec_change_inside ρ hin hb]
  cases hr : run s with
  | error e => exact .inr ⟨_, _, rfl, rfl⟩
  | ok stored =>
    cases stored with
    | error b => exact .inr ⟨_, _, rfl, rfl⟩
    | ok c => exact .inl ⟨_, _, rfl, rfl⟩

omit [Persistent ρ α] in
theorem Op.Strikes.abandoning {body : Op β} (h : body.Strikes run s) :
    (abandoning body).Strikes run s := by
  rcases h with ⟨b, l, hrun, hx⟩ | ⟨e, t, hsame, hx⟩
  · exact .inl ⟨b, l, hrun, abandoning_ok.2 hx⟩
  · obtain ⟨u, hu, -⟩ := exec_abandoning body s
    rw [hx] at hu
    exact .inr ⟨e, u, hsame, hu⟩

omit [Persistent ρ α] in
/-- By itself such an operation leaves all as it was if it fails, and otherwise the new ledger. -/
theorem Op.Strikes.alone {body : Op β} (hcalm : ∀ s : Session, run (s.setting.alone s.database) = run s)
    (ho : s.inBlock = false) (hb : s.breaks = none) (h : body.Strikes run s.start)
    (hk : body.Kept s.start) :
    ((transaction body).exec s).2.database = Database.changed run s := by
  have hstart : Database.changed run s.start = Database.changed run s := by
    have hrun : run s.start = run s := by rw [← hcalm, ← hcalm s]; rfl
    rw [Database.changed, hrun]
    rfl
  rcases h with ⟨b, l, hrun, hx⟩ | ⟨e, t, hsame, hx⟩
  · rw [exec_transaction_ok ho hb hx ⟨rfl, Session.hindrance_of_breaks hb⟩, ← hstart,
      Database.changed, hrun]
    rfl
  · rw [← hstart, hsame]
    refine whole_transaction ho hk ?_
    rw [exec_transaction_error ho hb hx]
    rfl

omit [Persistent ρ α] in
/-- What makes of a database what a change does, in a block and by itself, writes once. -/
theorem writesOnce_of {op : Op β}
    (hcalm : ∀ s : Session, run (s.setting.alone s.database) = run s)
    (hin : ∀ s : Session, s.inBlock = true → (op.exec s).2.standing = s.standing →
      (op.exec s).2.database = if s.trouble?.isSome then s.database else Database.changed run s)
    (hout : ∀ s : Session, s.inBlock = false → s.breaks = none →
      (op.exec s).2.database = Database.changed run s) : op.WritesOnce false := by
  refine ⟨fun g db => Database.changed run (g.alone db), fun s hs hend => ?_⟩
  have hchanged : Database.changed run (s.setting.alone s.database) = Database.changed run s := by
    rw [Database.changed, hcalm]
    rfl
  simp only [hchanged, Session.breaksOff, Bool.false_and, Bool.or_false]
  cases hblock : s.inBlock with
  | true => exact hin s hblock hend
  | false =>
    have hb := hs.resolve_left (by simp [hblock])
    rw [if_neg (by simp [Session.trouble?_of_breaks hb])]
    exact hout s hblock hb

theorem writesOnce_change (hcalm : ∀ s : Session, run (s.setting.alone s.database) = run s) :
    (change ρ deleting run).WritesOnce false := by
  refine writesOnce_of hcalm (fun s => exec_change_within ρ (calm_of_alone hcalm)) fun s ho hb => ?_
  have hstrikes : (change ρ deleting run).Strikes run s.start :=
    strikes_change ρ rfl (Session.hindrance_of_breaks hb)
  rw [change, Op.Strikes, exec_transaction_inside _ rfl, ← Op.Strikes] at hstrikes
  exact hstrikes.alone hcalm ho hb (.bind (.statement _ _) fun _ t _ => .obey _ _ _ t)

theorem writesOnce_room (hcalm : ∀ s : Session, run (s.setting.alone s.database) = run s) :
    (transaction (abandoning (change ρ deleting run))).WritesOnce false := by
  refine writesOnce_of hcalm (fun s hin hend => ?_) fun s ho hb => ?_
  · rw [exec_transaction_inside _ hin] at hend ⊢
    have hsame := exec_abandoning_within (Kept.change _ s) hend
    rw [hsame] at hend ⊢
    exact exec_change_within ρ (calm_of_alone hcalm) hin hend
  · have hstrikes : (change ρ deleting run).Strikes run s.start :=
      strikes_change ρ rfl (Session.hindrance_of_breaks hb)
    exact hstrikes.abandoning.alone hcalm ho hb (Kept.change _ s.start).abandoning

theorem writesOnce_update (id : Value) (fields : List (String × Value)) :
    (update ρ id fields).WritesOnce false := by
  unfold update
  split
  · exact .lift (.ok false)
  · exact (writesOnce_change ρ fun _ => rfl).map _

theorem writesOnce_updateNamed (id : Value) (fields : List (String × Value)) :
    (updateNamed ρ id fields).WritesOnce false := by
  unfold updateNamed
  split
  · exact .lift (.ok false)
  · exact (writesOnce_change ρ fun _ => rfl).map _

theorem writesOnce_delete (id : Value) : (delete ρ id).WritesOnce false :=
  (writesOnce_change ρ fun _ => rfl).map _

theorem writesOnce_insert (a : α) : (Store.insert ρ a).WritesOnce false :=
  (writesOnce_room ρ fun _ => rfl).reading (Q := fun _ => True)
    (fun _ => .transaction fun _ => (Kept.change _ _).abandoning) fun id g =>
    (orderly_selectOne ρ _ _).bind fun found _ => by
      cases found with
      | none => exact orderly_fail _
      | some r => exact .pure trivial

end

/-- A balance shift may be broken off before its statement. -/
theorem Op.WritesOnce.burning {f : Unit → Op α} (h : (f ()).WritesOnce false) :
    (burnFuse >>= f).WritesOnce true := by
  obtain ⟨g, hg⟩ := h
  refine ⟨g, fun s hs hend => ?_⟩
  have hburn : (∃ e u, burnFuse.exec s = (.error e, u) ∧ u.database = s.database ∧
        (s.fuse = some 0 ∨ s.fuse = some 1)) ∨
      (∃ fuse, burnFuse.exec s = (.ok (), { s with fuse }) ∧
        s.fuse ≠ some 0 ∧ s.fuse ≠ some 1) := by
    rw [burnFuse, exec_of]
    rcases hf : s.fuse with _ | _ | _ | n
    · exact .inr ⟨s.fuse, rfl, by simp, by simp⟩
    · exact .inl ⟨_, _, rfl, rfl, .inl rfl⟩
    · exact .inl ⟨_, _, rfl, rfl, .inr rfl⟩
    · exact .inr ⟨_, rfl, by simp, by simp⟩
  rcases hburn with ⟨e, u, hu, hd, hf⟩ | ⟨fuse, hu, h0, h1⟩
  · rw [exec_bind_error hu, if_pos (by simp [Session.breaksOff, hf])]
    exact hd
  · rw [exec_bind_ok hu] at hend ⊢
    rw [hg { s with fuse } hs hend]
    have hbreaks : s.breaksOff true = Session.breaksOff false { s with fuse } := by
      simp [Session.breaksOff, Session.trouble?, h0, h1]
    rw [hbreaks]
    rfl

theorem writesOnce_applyDelta (source delta : Value) :
    (applyDelta source delta).WritesOnce true :=
  .burning (Op.WritesOnce.reading (Q := fun _ => True) (writesOnce_change Source fun _ => rfl)
    (Kept.change _) fun _ _ => .ite (fun _ => .pure trivial) fun _ => orderly_missing source delta)

end Bookkeeping.Store

namespace Bookkeeping.Service

open Store Op

theorem writesOnce_storeRead (ρ : Type) {α : Type} [Persistent ρ α] [Record α]
    (answer : Row α → Answer) (fields : List (String × Value)) :
    (storeRead ρ answer fields).WritesOnce false :=
  .lift_bind fun a => (writesOnce_insert ρ a).map answer

namespace TableCall

/-- Whether a call shifts a balance. -/
def shifts : TableCall → Bool
  | applyDelta _ _ => true
  | _ => false

theorem balanced (c : TableCall) : c.run.Balanced :=
  Op.Orderly.balanced fun _ => orderly_tableCall c

theorem writesOnce (c : TableCall) : c.run.WritesOnce c.shifts := by
  cases c with
  | insert table fields => cases table <;> exact writesOnce_storeRead _ _ fields
  | updateFields table id fields => cases table <;> exact (writesOnce_updateNamed _ id fields).map _
  | setArchived table id archived =>
    cases table <;>
      exact Op.WritesOnce.map _ (.lift_bind fun _ => writesOnce_update _ id _)
  | delete table id => cases table <;> exact (writesOnce_delete _ id).map _
  | deleteByUser table user =>
    cases table <;> exact (writesOnce_change _ fun _ => rfl).map _
  | applyDelta source delta => exact (writesOnce_applyDelta source delta).map _
  | setEnabled user enabled =>
    exact Op.WritesOnce.map _ (.lift_bind fun _ => writesOnce_update User user _)
  | setFixedCurrency user currency => exact (writesOnce_update User user _).map _
  | clearFixedCurrency currency => exact (writesOnce_change User fun _ => rfl).map _
  | updatePassword user hash => exact (writesOnce_update User user _).map _

/-- What a call makes of a database if it is made alone. -/
def alone (g : Setting) (db : Database) (c : TableCall) : Database :=
  (c.run.exec (g.alone db)).2.database

/-- A call makes of the database what it makes of it alone, unless it is broken off; the blocks that
it stands in make no difference, as long as the engine does not undo them. -/
theorem exec_database (c : TableCall) {s : Session} (hin : s.inBlock = true)
    (hend : (c.run.exec s).2.standing = s.standing) :
    (c.run.exec s).2.database =
      if s.breaksOff c.shifts then s.database else c.alone s.setting s.database := by
  obtain ⟨f, hf⟩ := c.writesOnce
  have halone : c.alone s.setting s.database = f s.setting s.database := by
    rw [alone, hf _ (.inr rfl)]
    · simp [Session.breaksOff, Session.trouble?, Setting.alone, Session.setting]
    · rcases (c.balanced (s.setting.alone s.database)).standing with h | ⟨⟨_, h⟩, -⟩
      · exact h
      · cases h
  rw [hf s (.inl hin) hend, halone]

end TableCall

/-! ## What programs do -/

namespace Program

/-- The calls of a program whose statements are executed when it runs within a block, in their order.
Those of an inner block count whatever becomes of the block. -/
def executed : Program → Session → List TableCall
  | done _, _ => []
  | call c, s => if s.breaksOff c.shifts then [] else [c]
  | fail _, _ => []
  | block body, s => body.executed s
  | seq first next, s =>
    first.executed s ++ match first.run.exec s with
      | (.ok a, t) => (next a).executed t
      | (.error _, _) => []
  | handle body handler, s =>
    body.executed s ++ match body.run.exec s with
      | (.ok _, _) => []
      | (.error e, t) => (handler e).executed t

theorem balanced (p : Program) : p.run.Balanced := by
  induction p with
  | done answer => exact balanced_lift (.ok answer)
  | call c => exact c.balanced
  | fail e => exact balanced_lift (.error e)
  | block body ih => exact ih.transaction
  | seq first next ihf ihn => exact ihf.bind ihn
  | handle body handler ihb ihh => exact ihb.tryCatch ihh

/-- Within a block a program makes of the database what its calls make of it one by one, whether the
program succeeds or fails, and however deep in blocks of its own they stand, unless the engine undoes
the transaction of the block. -/
theorem exec_database (p : Program) {s : Session} (hin : s.inBlock = true)
    (hend : (p.run.exec s).2.standing = s.standing) :
    (p.run.exec s).2.database
      = (p.executed s).foldl (TableCall.alone s.setting) s.database := by
  -- each part begins where the one before it ended, which is within the block and in its setting
  induction p generalizing s with
  | done answer => rfl
  | call c =>
    rw [run, c.exec_database hin hend, executed]
    split <;> rfl
  | fail e => rfl
  | block body ih =>
    rw [run, exec_transaction_inside _ hin] at hend ⊢
    exact ih hin hend
  | seq first next ihf ihn =>
    have hbeside := first.balanced s
    have hfirst := ihf (s := s) hin
    rw [run, exec_bind] at hend ⊢
    rw [executed, List.foldl_append]
    cases hx : first.run.exec s with
    | mk r t =>
      rw [hx] at hbeside hfirst hend
      cases r with
      | error e => exact hfirst hend
      | ok a =>
        have ht := hbeside.between ((next a).balanced t) hend
        rw [← hfirst ht, ← hbeside.setting]
        exact ihn a (hbeside.inBlock.trans hin) (hend.trans ht.symm)
  | handle body handler ihb ihh =>
    have hbeside := body.balanced s
    have hbody := ihb (s := s) hin
    rw [run, exec_tryCatch] at hend ⊢
    rw [executed, List.foldl_append]
    cases hx : body.run.exec s with
    | mk r t =>
      rw [hx] at hbeside hbody hend
      cases r with
      | ok a => exact hbody hend
      | error e =>
        have ht := hbeside.between ((handler e).balanced t) hend
        rw [← hbody ht, ← hbeside.setting]
        exact ihh e (hbeside.inBlock.trans hin) (hend.trans ht.symm)

/-- A thread that counts its blocks does the same, and its count is in the end what it was. -/
theorem counted_eq (p : Program) {w : Thread} (h : w.session.inBlock = decide (0 < w.depth)) :
    p.counted w = ((p.run.exec w.session).1, ⟨(p.run.exec w.session).2, w.depth⟩) := by
  -- the count is above zero exactly within a block, before and after each part
  induction p generalizing w with
  | done answer => rfl
  | call c => rfl
  | fail e => rfl
  | block body ih =>
    rw [counted, Thread.block, run]
    split
    · rename_i hzero
      have hout : w.session.inBlock = false := by simp [h, hzero]
      rw [exec_transaction_outside _ hout, exec_bind]
      cases hopen : openBlock.exec w.session with
      | mk r t =>
        cases r with
        | error e => simp [hzero]
        | ok u =>
          have hin : t.inBlock = true := by
            rw [openBlock, exec_of] at hopen
            split at hopen
            · cases hopen
            · split at hopen <;> cases hopen
              rfl
          simp only [exec_bind, exec_undoing]
          rw [ih (w := ⟨t, 1⟩) hin]
          cases body.run.exec t with
          | mk r v =>
            cases r with
            | error e => simp [hzero]
            | ok a =>
              simp only
              cases closeBlock.exec v with
              | mk r x => cases r <;> simp [hzero]
    · rename_i hdeep
      have hin : w.session.inBlock = true := by simp [h]; omega
      rw [exec_transaction_inside _ hin, ih (w := { w with depth := w.depth + 1 }) (by simp [hin])]
  | seq first next ihf ihn =>
    have hbeside := first.balanced w.session
    rw [counted, ihf h, run, exec_bind]
    cases hx : first.run.exec w.session with
    | mk r t =>
      rw [hx] at hbeside
      cases r with
      | error e => rfl
      | ok a => exact ihn a (w := ⟨t, w.depth⟩) (hbeside.inBlock.trans h)
  | handle body handler ihb ihh =>
    have hbeside := body.balanced w.session
    rw [counted, ihb h, run, exec_tryCatch]
    cases hx : body.run.exec w.session with
    | mk r t =>
      rw [hx] at hbeside
      cases r with
      | ok a => rfl
      | error e => exact ihh e (w := ⟨t, w.depth⟩) (hbeside.inBlock.trans h)

/-- An outermost block comes all or not at all, if the engine begins its transaction, does not undo it
by itself, and commits it. If its body succeeds, every call that was executed in it has then done its
part, one after the other, also within inner blocks that failed; if its body fails, the block fails
alike and the database is what it was. Either way one transaction was begun and ended and none is left
open. Whatever the engine does, a thread that counts its blocks is at depth zero again. -/
theorem block_whole (p : Program) {s : Session} (ho : s.inTransaction = false) :
    (s.trouble? = none → (p.run.exec s.start).2.isOpen = true →
      (p.run.exec s.start).2.trouble? = none →
        ((∃ a, (p.run.exec s.start).1 = .ok a ∧ ((block p).run.exec s).1 = .ok a ∧
          ((block p).run.exec s).2.database
            = (p.executed s.start).foldl (TableCall.alone s.setting) s.database ∧
          ((block p).run.exec s).2.boundaries = s.boundaries ++ [.begun, .committed]) ∨
        (∃ e, (p.run.exec s.start).1 = .error e ∧ ((block p).run.exec s).1 = .error e ∧
          ((block p).run.exec s).2.database = s.database ∧
          ((block p).run.exec s).2.boundaries = s.boundaries ++ [.begun, .rolledBack])) ∧
        ((block p).run.exec s).2.inTransaction = false) ∧
    ((block p).run.exec s).2.inBlock = false ∧
    (block p).counted ⟨s, 0⟩ = (((block p).run.exec s).1, ⟨((block p).run.exec s).2, 0⟩) := by
  obtain ⟨hout, hpending⟩ := Session.inTransaction_eq_false.1 ho
  refine ⟨fun hs hthere hends => ?_, ((block p).balanced s).inBlock.trans hout,
    counted_eq (block p) (w := ⟨s, 0⟩) hout⟩
  have hbeside := p.balanced s.start
  have hdb := p.exec_database (s := s.start) rfl
  have hboundaries : (p.run.exec s.start).2.boundaries = s.boundaries ++ [.begun] :=
    hbeside.boundaries rfl
  have hfree : (p.run.exec s.start).2.isPending = false := Bool.eq_false_iff.2 fun h => by
    have := hbeside.pending rfl h
    rw [s.isPending_start, hpending] at this
    cases this
  have hopen : openBlock.exec s = (.ok (), s.start) := by simp [openBlock, hpending, hs]
  rw [run, exec_transaction_outside _ hout, exec_bind_ok hopen, exec_bind, exec_undoing]
  cases hx : p.run.exec s.start with
  | mk r t =>
    rw [hx] at hdb hboundaries hfree hthere hends hbeside
    replace hboundaries : t.boundaries = s.boundaries ++ [.begun] := hboundaries
    have hinside : t.standing = .inside s.database := by
      rcases hbeside.standing with h | ⟨-, h⟩
      · exact h
      · rw [Session.isOpen, h] at hthere
        exact absurd hthere (Bool.eq_false_iff.1 hfree)
    cases r with
    | ok a =>
      have hclose : closeBlock.exec t = (.ok (), t.commit) := by simp [closeBlock, hinside, hends]
      simp only [exec_bind_ok hclose, exec_pure]
      exact ⟨.inl ⟨a, rfl, rfl, hdb hinside, by simp [Session.commit, hboundaries]⟩,
        Session.inTransaction_eq_false.2 ⟨rfl, t.isPending_start.trans hfree⟩⟩
    | error e =>
      have hback : t.rollBack.isPending = false := by
        rwa [Session.isPending, Session.breaks_rollBack]
      refine ⟨.inr ⟨e, rfl, rfl, ?_, ?_⟩, Session.inTransaction_eq_false.2 ⟨?_, hback⟩⟩
      · simp [Session.rollBack, hinside]
      · simp [Session.rollBack, hinside, hboundaries]
      · simp [Session.inBlock, Session.rollBack, hinside]

/-- A category that is stored in an inner block stays although the inner block fails, if the failure
is caught, and goes with the other one if the outer block fails as well. -/
theorem category_of_caught_block_stays :
    let s := newSession.after [registration]
    let food := TableCall.insert .categories [("user_id", .int 1), ("name", .text "Food")]
    let rent := TableCall.insert .categories [("user_id", .int 1), ("name", .text "Rent")]
    let abort := fail (.interrupted "abort")
    let body := seq (call food) fun _ => handle (block (seq (call rent) fun _ => abort)) fun _ =>
      done .nothing
    let kept := ((block body).run.exec s).2
    let undone := ((block (seq body fun _ => abort)).run.exec s).2
    s.inTransaction = false ∧ (body.executed s.start).length = 2 ∧
      kept.database = (body.executed s.start).foldl (TableCall.alone s.setting) s.database ∧
      kept.database.ledger.categories.rows.length = 2 ∧
      kept.boundaries = s.boundaries ++ [.begun, .committed] ∧
      undone.database = s.database ∧ undone.boundaries = s.boundaries ++ [.begun, .rolledBack] := by
  intro s food rent abort body kept undone
  have ho : s.inTransaction = false := by decide +kernel
  have hs : s.trouble? = none := by decide +kernel
  have hkept : (body.run.exec s.start).1.isOk = true := by decide +kernel
  have hundone : ((seq body fun _ => abort).run.exec s.start).1.isOk = false := by decide +kernel
  have hrows : kept.database.ledger.categories.rows.length = 2 := by decide +kernel
  have hcalls : (body.executed s.start).length = 2 := by decide +kernel
  obtain ⟨⟨a, -, -, hdb, hends⟩ | ⟨e, he, -⟩, -⟩ := (block_whole body ho).1 hs (by decide +kernel)
    (by decide +kernel)
  · obtain ⟨⟨a, ha, -⟩ | ⟨e, -, -, hsame, hback⟩, -⟩ := (block_whole (seq body fun _ => abort) ho).1 hs
      (by decide +kernel) (by decide +kernel)
    · rw [ha] at hundone
      cases hundone
    · exact ⟨ho, hcalls, hdb, hrows, hends, hsame, hback⟩
  · rw [he] at hkept
    cases hkept

/-- A block need not come all or not at all. If the engine finds no room for a row, it undoes the
transaction of the block by itself; if the failure is caught, what follows is stored at once, and it
stays although the block fails, since there is no transaction to commit. -/
theorem block_without_room_comes_in_part :
    let rent := TableCall.insert .categories [("user_id", .int 1), ("name", .text "Rent")]
    let enable := TableCall.setEnabled (.int 1) (.bool true)
    let s := newSession.after [registration]
    let l := s.database.ledger
    let used := { l with categories := { l.categories with lastId := 9223372036854775807 } }
    let full := { s with database := s.database.withLedger used }
    let body := seq (handle (call rent) fun _ => done .nothing) fun _ => call enable
    let after := (block body).run.exec full
    full.inTransaction = false ∧ (body.run.exec full.start).1.isOk = true ∧ after.1.isOk = false ∧
      full.database.ledger.users.rows.map (·.data.enabled) = [false] ∧
      after.2.database.ledger.users.rows.map (·.data.enabled) = [true] ∧
      after.2.boundaries = full.boundaries ++ [.begun] := by
  decide +kernel

end Program

end Bookkeeping.Service
