import Mathlib.Algebra.BigOperators.Group.List.Basic
import Mathlib.Data.Rat.Defs
import Mathlib.Tactic.Ring
import Bookkeeping.Proofs.Ownership

/-! # The journal of a run

An entry that becomes active posts its shifts, and one that stops being active has them taken back.
The journal of a run lists what was posted by each call in turn, as it can be seen from the ledgers
before and after the call, and the amounts that new sources were opened with.
-/

namespace Bookkeeping.Store

open Service

/-! ## Postings -/

/-- A delta of an entry that is applied to the balance of a source as it is, or undone. -/
structure Posting where
  entry : Int
  source : Int
  delta : Float
  undone : Bool
  deriving DecidableEq

/-- What a posting adds to the balance. -/
def Posting.applied (p : Posting) : Float := if p.undone then -p.delta else p.delta

/-- The balance that a source is made with. -/
structure Opening where
  source : Int
  amount : Float
  deriving DecidableEq

/-- The openings and postings of a run in their order, and the number of its calls. -/
structure Journal where
  calls : Nat := 0
  openings : List Opening := []
  postings : List Posting := []

namespace Ledger

/-- The deltas of an entry for the balance of a source. -/
def deltas (l : Ledger) (source : Int) (e : Row StoredEntry) : List Float :=
  match l.effects e with
  | .ok shifts => (shifts.filter fun x => x.source == some source).map Shift.delta
  | .error _ => []

/-- The postings of an entry. -/
def postingsOf (l : Ledger) (undone : Bool) (e : Row StoredEntry) : List Posting :=
  match l.effects e with
  | .ok shifts => shifts.filterMap fun x => x.source.map fun s => ⟨e.id, s, x.delta, undone⟩
  | .error _ => []

/-- The entries that are not archived. -/
def active (l : Ledger) : List (Row StoredEntry) := l.entries.rows.filter fun e => !e.data.archived

/-- Whether the entry of an id is active. -/
def isActive (l : Ledger) (id : Int) : Bool := l.active.any fun e => e.id == id

/-- The active entries of a ledger that are active in another one no more. -/
def stopped (l m : Ledger) : List (Row StoredEntry) := l.active.filter fun e => !m.isActive e.id

/-- What is posted between two ledgers to the sources of the second: the entries that stop being
active are undone, and those that become active are applied. -/
def postings (l m : Ledger) : List Posting :=
  ((l.stopped m).flatMap (l.postingsOf true) ++ (m.stopped l).flatMap (m.postingsOf false)).filter
    fun p => m.sources.contains p.source

/-- The sources of a ledger that another one does not have, with their balances. -/
def openings (l m : Ledger) : List Opening :=
  (m.sources.rows.filter fun r => !l.sources.contains r.id).map fun r => ⟨r.id, r.data.amount⟩

end Ledger

/-- A journal with what is opened and posted by a call that leads from one ledger to another. -/
def Journal.next (j : Journal) (l m : Ledger) : Journal where
  calls := j.calls + 1
  openings := j.openings ++ l.openings m
  postings := j.postings ++ l.postings m

/-- The journals of calls that lead to a database. -/
inductive Recorded : Journal → Database → Prop
  | migrated : Recorded {} .migrated
  | call {j : Journal} {s : Session} {c : Call} (hd : Recorded j s.database)
      (ho : s.inBlock = false) (hc : c.Typed) :
      Recorded (j.next s.database.ledger (c.run.exec s).2.database.ledger)
        (c.run.exec s).2.database

theorem Recorded.reachable {j : Journal} {db : Database} (h : Recorded j db) : Reachable db := by
  induction h with
  | migrated => exact .migrated
  | call _ ho hc ih => exact ih.call ho hc

/-- Every run has a journal. -/
theorem Reachable.recorded {db : Database} (h : Reachable db) : ∃ j, Recorded j db := by
  induction h with
  | migrated => exact ⟨_, .migrated⟩
  | call _ ho hc ih =>
    obtain ⟨j, hj⟩ := ih
    exact ⟨_, hj.call ho hc⟩

/-! ## The deltas of an entry -/

variable {l m : Ledger} {e : Row StoredEntry} {shifts : List Shift}

theorem deltas_of_effects (h : l.effects e = .ok shifts) (s : Int) :
    l.deltas s e = (shifts.filter fun x => x.source == some s).map Shift.delta := by
  rw [Ledger.deltas, h]

/-- At one source an entry posts its deltas for the source. -/
theorem filter_postingsOf (l : Ledger) (undone : Bool) (e : Row StoredEntry) (s : Int) :
    (l.postingsOf undone e).filter (fun p => p.source == s)
      = (l.deltas s e).map fun d => ⟨e.id, s, d, undone⟩ := by
  unfold Ledger.postingsOf Ledger.deltas
  cases l.effects e with
  | error f => rfl
  | ok shifts =>
    dsimp only
    induction shifts with
    | nil => rfl
    | cons x rest ih =>
      cases hx : x.source with
      | none => simp [hx, ih]
      | some n => by_cases hn : n = s <;> simp [hx, hn, ih]

theorem mem_postingsOf {undone : Bool} {p : Posting} (h : p ∈ l.postingsOf undone e) :
    p.entry = e.id ∧ p.delta ∈ l.deltas p.source e := by
  have hp : p ∈ (l.postingsOf undone e).filter fun q => q.source == p.source :=
    List.mem_filter.2 ⟨h, by simp⟩
  rw [filter_postingsOf] at hp
  obtain ⟨d, hd, hdp⟩ := List.mem_map.1 hp
  rw [← hdp]
  exact ⟨rfl, hd⟩

/-- The shifts of a filed entry are for different sources, all of the entry's user. -/
theorem Filed.of_effects (h : Filed l e) (ho : e.odd = []) (hs : l.effects e = .ok shifts) :
    (shifts.map Shift.source).Nodup ∧
      ∀ x ∈ shifts, ∃ id, x.source = some id ∧ l.sources.Owns e.data.owner id := by
  cases ha : StoredEntry.toEntry .full e with
  | error f =>
    rw [Ledger.effects, ha] at hs
    cases hs
  | ok a =>
    rw [effects_of_toEntry ha] at hs
    obtain ⟨date, createdAt, -, -, -, -, -, rfl⟩ := (StoredEntry.toEntry_ok ho).1 ha
    rcases shifts_cases hs with ⟨d, rfl⟩ | ⟨hk, d, d', rfl⟩
    · refine ⟨List.nodup_singleton _, fun x hx => ?_⟩
      obtain rfl := List.mem_singleton.1 hx
      exact ⟨_, rfl, h.source⟩
    · obtain ⟨id, hid, hne⟩ := h.apart hk
      have hsecond : l.sources.Owns e.data.owner id := h.secondary id hid
      refine ⟨?_, fun x hx => ?_⟩
      · show [some e.data.source, e.data.secondary].Nodup
        simp [hid, hne.symm]
      · rcases List.mem_pair.1 hx with rfl | rfl
        · exact ⟨_, rfl, h.source⟩
        · exact ⟨id, hid, hsecond⟩

theorem filter_source_of_nodup (h : (shifts.map Shift.source).Nodup) (s : Option Int) :
    shifts.filter (fun x => x.source == s) = [] ∨
      ∃ x, shifts.filter (fun x => x.source == s) = [x] := by
  induction shifts with
  | nil => exact .inl rfl
  | cons x rest ih =>
    obtain ⟨hx, hrest⟩ := List.nodup_cons.1 h
    by_cases hs : x.source = s
    · right
      refine ⟨x, ?_⟩
      rw [List.filter_cons_of_pos (by simp [hs]), List.filter_eq_nil_iff.2 fun y hy => ?_]
      intro hys
      refine hx (List.mem_map.2 ⟨y, hy, ?_⟩)
      rw [hs]
      simpa using hys
    · rw [List.filter_cons_of_neg (by simp [hs])]
      exact ih hrest

/-- An entry has at most one delta for a source. -/
theorem Filed.deltas_eq (h : Filed l e) (ho : e.odd = []) (s : Int) :
    l.deltas s e = [] ∨ ∃ d, l.deltas s e = [d] := by
  obtain ⟨shifts, hs⟩ := h.effects
  rw [deltas_of_effects hs]
  rcases filter_source_of_nodup (h.of_effects ho hs).1 (some s) with hf | ⟨x, hf⟩
  · exact .inl (by rw [hf]; rfl)
  · exact .inr ⟨x.delta, by rw [hf]; rfl⟩

/-- Only sources of its user are shifted by an entry. -/
theorem Filed.owns_of_delta (h : Filed l e) (ho : e.odd = []) {s : Int} (hd : l.deltas s e ≠ []) :
    l.sources.Owns e.data.owner s := by
  obtain ⟨shifts, hs⟩ := h.effects
  rw [deltas_of_effects hs] at hd
  obtain ⟨x, hx⟩ := List.exists_mem_of_ne_nil _ (mt (congrArg (List.map Shift.delta)) hd)
  obtain ⟨hx, hxs⟩ := List.mem_filter.1 hx
  obtain ⟨id, hid, ho⟩ := (h.of_effects ho hs).2 x hx
  rw [beq_iff_eq, hid, Option.some.injEq] at hxs
  exact hxs ▸ ho

/-! ## Entries that stop being active -/

theorem mem_active : e ∈ l.active ↔ e ∈ l.entries.rows ∧ e.data.archived = false := by
  simp [Ledger.active]

theorem isActive_iff {id : Int} : l.isActive id = true ↔ ∃ e ∈ l.active, e.id = id := by
  simp [Ledger.isActive]

theorem isActive_of_mem (ht : l.entries.Tidy) (he : e ∈ l.entries.rows) :
    l.isActive e.id = !e.data.archived := by
  rw [Bool.eq_iff_iff, isActive_iff, Bool.not_eq_true']
  constructor
  · rintro ⟨x, hx, hid⟩
    obtain ⟨hx, ha⟩ := mem_active.1 hx
    obtain rfl := ht.eq_of_id hx he hid
    exact ha
  · exact fun ha => ⟨e, mem_active.2 ⟨he, ha⟩, rfl⟩

theorem isActive_of_not_has {id : Int} (h : ¬ l.entries.Has id) : l.isActive id = false := by
  rw [← Bool.not_eq_true, isActive_iff]
  rintro ⟨e, he, hid⟩
  exact h ⟨e, (mem_active.1 he).1, hid⟩

theorem mem_stopped : e ∈ l.stopped m ↔ e ∈ l.active ∧ m.isActive e.id = false := by
  simp [Ledger.stopped]

/-- Where every entry that was active still is, none stops. -/
theorem stopped_eq_nil (h : ∀ e ∈ l.active, m.isActive e.id = true) : l.stopped m = [] := by
  refine List.eq_nil_iff_forall_not_mem.2 fun e he => ?_
  obtain ⟨hl, hm⟩ := mem_stopped.1 he
  rw [h e hl] at hm
  cases hm

/-- Where one entry stops being active and the others stay as they are, it is the one that stops. -/
theorem stopped_eq_singleton (ht : l.entries.Tidy) (he : e ∈ l.active)
    (hm : m.isActive e.id = false) (hothers : ∀ x ∈ l.active, x.id ≠ e.id → m.isActive x.id = true) :
    l.stopped m = [e] := by
  have hn : (l.stopped m).Nodup := (ht.nodup.of_map.filter _).filter _
  refine List.perm_singleton.1
    ((List.perm_ext_iff_of_nodup hn (List.nodup_singleton e)).2 fun x => ?_)
  rw [mem_stopped, List.mem_singleton]
  constructor
  · rintro ⟨hx, hxm⟩
    by_contra hne
    have hid : x.id ≠ e.id := fun hid => hne (ht.eq_of_id (mem_active.1 hx).1 (mem_active.1 he).1 hid)
    rw [hothers x hx hid] at hxm
    cases hxm
  · rintro rfl
    exact ⟨he, hm⟩

/-- The postings to one source. -/
def postingsTo (s : Int) (ps : List Posting) : List Posting := ps.filter fun p => p.source == s

/-- To a source that there is after a call, the call posts all the deltas for it of the entries that
start or stop being active. -/
theorem postingsTo_postings {s : Int} (hs : m.sources.Has s) :
    postingsTo s (l.postings m)
      = (l.stopped m).flatMap (fun e => (l.deltas s e).map fun d => ⟨e.id, s, d, true⟩)
        ++ (m.stopped l).flatMap (fun e => (m.deltas s e).map fun d => ⟨e.id, s, d, false⟩) := by
  have hall : postingsTo s (l.postings m) = postingsTo s
      ((l.stopped m).flatMap (l.postingsOf true) ++ (m.stopped l).flatMap (m.postingsOf false)) := by
    rw [postingsTo, postingsTo, Ledger.postings, List.filter_filter]
    refine List.filter_congr fun p _ => ?_
    cases hp : p.source == s with
    | false => rfl
    | true =>
      obtain ⟨r, hr, hid⟩ := hs
      rw [beq_iff_eq] at hp
      simp only [Bool.true_and, Table.contains, List.any_eq_true]
      exact ⟨r, hr, by simp [hid, hp]⟩
  rw [hall, postingsTo, List.filter_append, List.filter_flatMap, List.filter_flatMap]
  simp only [filter_postingsOf]

/-! ## Sums -/

section

variable (w : Int → Float → ℚ)

/-- The sum of what postings weigh, where what is undone weighs the opposite. -/
def netWeight (ps : List Posting) : ℚ :=
  (ps.map fun p => if p.undone then -w p.entry p.delta else w p.entry p.delta).sum

/-- What an entry weighs at a source. -/
def Ledger.weight (l : Ledger) (s : Int) (e : Row StoredEntry) : ℚ :=
  ((l.deltas s e).map (w e.id)).sum

/-- What the active entries weigh at a source. -/
def Ledger.activeWeight (l : Ledger) (s : Int) : ℚ := (l.active.map (l.weight w s)).sum

variable {w}

theorem netWeight_append (ps qs : List Posting) :
    netWeight w (ps ++ qs) = netWeight w ps + netWeight w qs := by
  simp [netWeight]

theorem netWeight_undone (s : Int) (rows : List (Row StoredEntry)) :
    netWeight w (rows.flatMap fun e => (l.deltas s e).map fun d => ⟨e.id, s, d, true⟩)
      = -(rows.map (l.weight w s)).sum := by
  induction rows with
  | nil => rfl
  | cons e rest ih =>
    have he : netWeight w ((l.deltas s e).map fun d => ⟨e.id, s, d, true⟩) = -l.weight w s e := by
      rw [netWeight, Ledger.weight, List.sum_neg, List.map_map, List.map_map]
      rfl
    rw [List.flatMap_cons, netWeight_append, he, ih, List.map_cons, List.sum_cons, neg_add]

theorem netWeight_applied (s : Int) (rows : List (Row StoredEntry)) :
    netWeight w (rows.flatMap fun e => (l.deltas s e).map fun d => ⟨e.id, s, d, false⟩)
      = (rows.map (l.weight w s)).sum := by
  induction rows with
  | nil => rfl
  | cons e rest ih =>
    have he : netWeight w ((l.deltas s e).map fun d => ⟨e.id, s, d, false⟩) = l.weight w s e := by
      rw [netWeight, Ledger.weight, List.map_map]
      rfl
    rw [List.flatMap_cons, netWeight_append, he, ih, List.map_cons, List.sum_cons]

/-- The active entries of a ledger that are still active in another one. -/
def Ledger.lasting (l m : Ledger) : List (Row StoredEntry) := l.active.filter fun e => m.isActive e.id

theorem activeWeight_eq (s : Int) :
    l.activeWeight w s
      = ((l.lasting m).map (l.weight w s)).sum + ((l.stopped m).map (l.weight w s)).sum := by
  rw [← List.sum_append, ← List.map_append]
  exact ((List.filter_append_perm _ l.active).map _).sum_eq.symm

theorem lasting_subset {s : Int} (hd : ∀ a ∈ l.entries.rows, ∀ b ∈ m.entries.rows, b.id = a.id →
      m.deltas s b = l.deltas s a) :
    (l.lasting m).map (fun e => (e.id, l.deltas s e))
      ⊆ (m.lasting l).map fun e => (e.id, m.deltas s e) := by
  intro x hx
  obtain ⟨a, ha, rfl⟩ := List.mem_map.1 hx
  obtain ⟨hal, ham⟩ := List.mem_filter.1 ha
  obtain ⟨b, hb, hid⟩ := isActive_iff.1 ham
  refine List.mem_map.2 ⟨b, List.mem_filter.2 ⟨hb, isActive_iff.2 ⟨a, hal, hid.symm⟩⟩, ?_⟩
  rw [hid, hd a (mem_active.1 hal).1 b (mem_active.1 hb).1 hid]

theorem nodup_lasting (ht : l.entries.Tidy) (s : Int) :
    ((l.lasting m).map fun e => (e.id, l.deltas s e)).Nodup := by
  refine List.Nodup.of_map Prod.fst ?_
  rw [List.map_map]
  exact ht.nodup.sublist (((List.filter_sublist).trans List.filter_sublist).map Row.id)

/-- As long as entries keep their deltas, what is posted to a source makes up for what the active
entries weigh at it. -/
theorem activeWeight_of_deltas {s : Int} (hl : l.entries.Tidy) (hm : m.entries.Tidy)
    (hs : m.sources.Has s) (hd : ∀ a ∈ l.entries.rows, ∀ b ∈ m.entries.rows, b.id = a.id →
      m.deltas s b = l.deltas s a) :
    m.activeWeight w s = l.activeWeight w s + netWeight w (postingsTo s (l.postings m)) := by
  have hperm : ((l.lasting m).map fun e => (e.id, l.deltas s e)).Perm
      ((m.lasting l).map fun e => (e.id, m.deltas s e)) :=
    (List.perm_ext_iff_of_nodup (nodup_lasting hl s) (nodup_lasting hm s)).2 fun x =>
      ⟨fun hx => lasting_subset hd hx,
        fun hx => lasting_subset (fun b hb a ha hid => (hd a ha b hb hid.symm).symm) hx⟩
  have hsum : ((l.lasting m).map (l.weight w s)).sum = ((m.lasting l).map (m.weight w s)).sum := by
    have hmap := (hperm.map fun x => (x.2.map (w x.1)).sum).sum_eq
    rw [List.map_map, List.map_map] at hmap
    exact hmap
  rw [postingsTo_postings hs, netWeight_append, netWeight_undone, netWeight_applied,
    activeWeight_eq (l := l) (m := m), activeWeight_eq (l := m) (m := l), hsum]
  ring

end

end Bookkeeping.Store
