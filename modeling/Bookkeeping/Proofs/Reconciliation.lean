import Mathlib.Tactic.Linarith
import Bookkeeping.Proofs.Accounts

/-! # Balances over whole runs

A balance is what its source was opened with, and then every posting to the source in turn. Whatever
was posted for an entry is undone when the entry stops being active, so that what is left over are
the deltas of the active entries.
-/

namespace Bookkeeping.Store

open Service

variable {l m : Ledger} {e : Row StoredEntry} {x : Row Source}

/-! ## Journals and ledgers -/

theorem postingsTo_append (s : Int) (ps qs : List Posting) :
    postingsTo s (ps ++ qs) = postingsTo s ps ++ postingsTo s qs := List.filter_append ps qs

/-- Whether an entry of a ledger has an id and a delta for a source. -/
def Ledger.Shows (l : Ledger) (p : Posting) : Prop :=
  ∃ e ∈ l.entries.rows, e.id = p.entry ∧ p.delta ∈ l.deltas p.source e

/-- What is posted is a delta of an entry from before or after the call. -/
theorem mem_postings {p : Posting} (hp : p ∈ l.postings m) :
    m.sources.Has p.source ∧ (l.Shows p ∨ m.Shows p) := by
  obtain ⟨hp, hsource⟩ := List.mem_filter.1 hp
  refine ⟨by simpa [Table.contains, Table.Has] using hsource, ?_⟩
  rcases List.mem_append.1 hp with hp | hp
  · obtain ⟨e, he, hpe⟩ := List.mem_flatMap.1 hp
    obtain ⟨hid, hd⟩ := mem_postingsOf hpe
    exact .inl ⟨e, (mem_active.1 (mem_stopped.1 he).1).1, hid.symm, hd⟩
  · obtain ⟨e, he, hpe⟩ := List.mem_flatMap.1 hp
    obtain ⟨hid, hd⟩ := mem_postingsOf hpe
    exact .inr ⟨e, (mem_active.1 (mem_stopped.1 he).1).1, hid.symm, hd⟩

/-- A source that was not there before is opened with its balance, and no other one is opened. -/
theorem filter_openings (hm : m.sources.Tidy) (hx : x ∈ m.sources.rows) :
    (l.openings m).filter (fun o => o.source == x.id)
      = if l.sources.contains x.id then [] else [⟨x.id, x.data.amount⟩] := by
  have hone : m.sources.rows.filter (fun r => r.id == x.id) = [x] := by
    have hn : (m.sources.rows.filter fun r => r.id == x.id).Nodup := hm.nodup.of_map.filter _
    refine List.perm_singleton.1
      ((List.perm_ext_iff_of_nodup hn (List.nodup_singleton x)).2 fun y => ?_)
    rw [List.mem_filter, beq_iff_eq, List.mem_singleton]
    constructor
    · exact fun ⟨hy, hid⟩ => hm.eq_of_id hy hx hid
    · rintro rfl
      exact ⟨hx, rfl⟩
  have hsplit : (l.openings m).filter (fun o => o.source == x.id)
      = ((m.sources.rows.filter fun r => r.id == x.id).filter fun r =>
          !l.sources.contains r.id).map fun r => ⟨r.id, r.data.amount⟩ := by
    rw [Ledger.openings, List.filter_map, List.filter_filter, List.filter_filter]
    congr 2
    funext r
    exact Bool.and_comm _ _
  rw [hsplit, hone]
  cases h : l.sources.contains x.id <;> simp [h]

/-- A journal that agrees with a ledger. -/
structure Reconciled (j : Journal) (l : Ledger) : Prop where
  opened : ∀ o ∈ j.openings, o.source ≤ l.sources.lastId
  known : ∀ p ∈ j.postings, p.entry ≤ l.entries.lastId ∧ p.source ≤ l.sources.lastId
  amounts : ∀ x ∈ l.sources.rows, ∃ y,
    j.openings.filter (fun o => o.source == x.id) = [⟨x.id, y⟩] ∧
      x.data.amount = posted y (postingsTo x.id j.postings)
  net : ∀ w s, l.sources.Has s → l.activeWeight w s = netWeight w (postingsTo s j.postings)
  shown : ∀ p ∈ j.postings, l.sources.Has p.source → l.entries.Has p.entry → l.Shows p
  same : ∀ p ∈ j.postings, ∀ q ∈ j.postings, l.sources.Has p.source → p.entry = q.entry →
    p.source = q.source → p.delta = q.delta

variable {j : Journal}

theorem reconciled_empty : Reconciled {} {} where
  opened := by simp
  known := by simp
  amounts := by simp
  net := by simp [Table.Has]
  shown := by simp
  same := by simp

/-- Two postings of one entry to one source have the same delta. -/
theorem Ledger.Shows.delta_eq (hl : Intact l) {p q : Posting} (hp : l.Shows p) (hq : l.Shows q)
    (he : p.entry = q.entry) (hs : p.source = q.source) : p.delta = q.delta := by
  obtain ⟨a, ha, haid, had⟩ := hp
  obtain ⟨b, hb, hbid, hbd⟩ := hq
  obtain rfl := hl.entries.eq_of_id ha hb (by rw [haid, hbid, he])
  rw [← hs] at hbd
  rcases (hl.filed a ha).deltas_eq (hl.entries.proper a ha) p.source with h | ⟨d, h⟩
  · rw [h] at had
    cases had
  · rw [h] at had hbd
    rw [List.mem_singleton.1 had, List.mem_singleton.1 hbd]

/-! ## One call after the other -/

namespace Continues

variable (h : Continues l m)

include h

/-- An id that was given before is that of a source from before. -/
theorem has_source {s : Int} (hs : m.sources.Has s) (hle : s ≤ l.sources.lastId) :
    l.sources.Has s := by
  obtain ⟨x, hx, rfl⟩ := hs
  rcases h.sources x hx with ⟨r, hr, hid, -⟩ | ⟨hnew, -⟩
  · exact ⟨r, hr, hid⟩
  · omega

theorem has_entry {n : Int} (hn : m.entries.Has n) (hle : n ≤ l.entries.lastId) :
    l.entries.Has n := by
  obtain ⟨e, he, rfl⟩ := hn
  rcases h.entries e he with ⟨r, hr, her⟩ | hnew
  · exact ⟨r, hr, by rw [her]; rfl⟩
  · omega

theorem shows (hl : Intact l) (hm : Intact m) {p : Posting} (hp : l.Shows p)
    (hn : m.entries.Has p.entry) : m.Shows p := by
  obtain ⟨a, ha, hid, hd⟩ := hp
  obtain ⟨b, hb, hbid⟩ := hn
  refine ⟨b, hb, hbid, ?_⟩
  rwa [h.deltas_eq hl hm p.source a ha b hb (hbid.trans hid.symm)]

variable (hj : Reconciled j l)

include hj

theorem amounts_next (hl : Intact l) (hm : Intact m) : ∀ x ∈ m.sources.rows, ∃ y,
    (j.next l m).openings.filter (fun o => o.source == x.id) = [⟨x.id, y⟩] ∧
      x.data.amount = posted y (postingsTo x.id (j.next l m).postings) := by
  intro x hx
  have hopen := filter_openings (l := l) hm.sources.tidy hx
  rw [Journal.next, List.filter_append, postingsTo_append, hopen]
  rcases h.sources x hx with ⟨r, hr, hid, -, ha⟩ | ⟨hnew, hnone⟩
  · obtain ⟨y, hy, hamount⟩ := hj.amounts r hr
    have hhas : l.sources.contains x.id = true := List.any_eq_true.2 ⟨r, hr, by simp [hid]⟩
    refine ⟨y, ?_, ?_⟩
    · rw [if_pos hhas, List.append_nil, ← hid, hy]
    · rw [posted_append, ha, hamount, hid]
  · have hhas : l.sources.contains x.id ≠ true := by
      intro hc
      obtain ⟨r, hr, hid⟩ := List.any_eq_true.1 hc
      have := hl.sources.tidy.within r hr
      rw [beq_iff_eq] at hid
      omega
    refine ⟨x.data.amount, ?_, ?_⟩
    · rw [if_neg hhas, List.append_eq_singleton_iff]
      refine .inl ⟨List.filter_eq_nil_iff.2 fun o ho hox => ?_, rfl⟩
      have := hj.opened o ho
      rw [beq_iff_eq] at hox
      omega
    · have hold : postingsTo x.id j.postings = [] := by
        refine List.filter_eq_nil_iff.2 fun p hp hpx => ?_
        have := (hj.known p hp).2
        rw [beq_iff_eq] at hpx
        omega
      rw [hold, hnone]
      rfl

theorem net_next (hl : Intact l) (hm : Intact m) (w : Int → Float → ℚ) {s : Int}
    (hs : m.sources.Has s) :
    m.activeWeight w s = netWeight w (postingsTo s (j.next l m).postings) := by
  rw [Journal.next, postingsTo_append, netWeight_append,
    activeWeight_of_deltas hl.entries hm.entries hs (h.deltas_eq hl hm s)]
  congr 1
  by_cases hold : l.sources.Has s
  · exact hj.net w s hold
  · -- no entry has a delta for a source that is not there, and none was posted to a new one
    have hnew : ¬ s ≤ l.sources.lastId := fun hle => hold (h.has_source hs hle)
    have hnone : postingsTo s j.postings = [] :=
      List.filter_eq_nil_iff.2 fun p hp hps =>
        hnew (beq_iff_eq.1 hps ▸ (hj.known p hp).2)
    rw [hnone, Ledger.activeWeight]
    refine List.sum_eq_zero fun x hx => ?_
    obtain ⟨e, he, rfl⟩ := List.mem_map.1 hx
    obtain ⟨he, -⟩ := mem_active.1 he
    have hd : l.deltas s e = [] := by
      by_contra hd
      obtain ⟨r, hr, hid, -⟩ := (hl.filed e he).owns_of_delta (hl.entries.proper e he) hd
      exact hold ⟨r, hr, hid⟩
    rw [Ledger.weight, hd]
    rfl

/-- Of the entries of one of the two ledgers the postings so far are shown by it. -/
theorem shown_next (hl : Intact l) (hm : Intact m) {p : Posting} (hp : p ∈ (j.next l m).postings)
    (hs : m.sources.Has p.source) :
    (m.entries.Has p.entry → m.Shows p) ∧
      (¬ m.entries.Has p.entry → l.entries.Has p.entry → l.Shows p) := by
  rcases List.mem_append.1 hp with hp | hp
  · obtain ⟨hentry, hsource⟩ := hj.known p hp
    have hshown := hj.shown p hp (h.has_source hs hsource)
    exact ⟨fun he => h.shows hl hm (hshown (h.has_entry he hentry)) he, fun _ => hshown⟩
  · rcases (mem_postings hp).2 with hl' | hm'
    · exact ⟨h.shows hl hm hl', fun _ _ => hl'⟩
    · refine ⟨fun _ => hm', fun hno _ => absurd ?_ hno⟩
      obtain ⟨e, he, hid, -⟩ := hm'
      exact ⟨e, he, hid⟩

theorem same_next (hl : Intact l) (hm : Intact m) {p q : Posting}
    (hp : p ∈ (j.next l m).postings) (hq : q ∈ (j.next l m).postings) (hs : m.sources.Has p.source)
    (he : p.entry = q.entry) (hsource : p.source = q.source) : p.delta = q.delta := by
  have hps := h.shown_next hj hl hm hp hs
  have hqs := h.shown_next hj hl hm hq (hsource ▸ hs)
  rw [← he] at hqs
  by_cases hin : m.entries.Has p.entry
  · exact (hps.1 hin).delta_eq hm (hqs.1 hin) he hsource
  · by_cases hout : l.entries.Has p.entry
    · exact (hps.2 hin hout).delta_eq hl (hqs.2 hin hout) he hsource
    · have hold (r : Posting) (hr : r ∈ (j.next l m).postings) (hid : r.entry = p.entry) :
          r ∈ j.postings := by
        refine (List.mem_append.1 hr).resolve_right fun hr => ?_
        rcases (mem_postings hr).2 with ⟨e, he, heid, -⟩ | ⟨e, he, heid, -⟩
        · exact hout ⟨e, he, heid.trans hid⟩
        · exact hin ⟨e, he, heid.trans hid⟩
      exact hj.same p (hold p hp rfl) q (hold q hq he.symm)
        (h.has_source hs (hj.known p (hold p hp rfl)).2) he hsource

theorem reconciled (hl : Intact l) (hm : Intact m) : Reconciled (j.next l m) m where
  opened := by
    intro o ho
    rcases List.mem_append.1 ho with ho | ho
    · exact Int.le_trans (hj.opened o ho) h.sourceIds
    · obtain ⟨r, hr, rfl⟩ := List.mem_map.1 ho
      exact hm.sources.tidy.within r (List.mem_filter.1 hr).1
  known := by
    intro p hp
    rcases List.mem_append.1 hp with hp | hp
    · obtain ⟨hentry, hsource⟩ := hj.known p hp
      exact ⟨Int.le_trans hentry h.entryIds, Int.le_trans hsource h.sourceIds⟩
    · obtain ⟨⟨r, hr, hid⟩, hshown⟩ := mem_postings hp
      refine ⟨?_, hid ▸ hm.sources.tidy.within r hr⟩
      rcases hshown with ⟨e, he, heid, -⟩ | ⟨e, he, heid, -⟩
      · exact heid ▸ Int.le_trans (hl.entries.within e he) h.entryIds
      · exact heid ▸ hm.entries.within e he
  amounts := h.amounts_next hj hl hm
  net w s hs := h.net_next hj hl hm w hs
  shown p hp hs := (h.shown_next hj hl hm hp hs).1
  same p hp q hq hs he hsource := h.same_next hj hl hm hp hq hs he hsource

end Continues

/-! ## Whole runs -/

/-- The journal of a run agrees with the ledger that the run leads to. -/
theorem Recorded.reconciled {db : Database} (h : Recorded j db) : Reconciled j db.ledger := by
  induction h with
  | migrated => exact reconciled_empty
  | @call j s c hd ho hc ih =>
    have hi := hd.reachable.intact.2
    have hchange := hd.reachable.change ho hc
    exact (hchange.continues hi).reconciled ih hi (hchange.intact hi)

/-- A change gives out one id for an entry at most. -/
theorem Change.lastId_le {gone : Row StoredEntry → Prop} (h : Change gone l m) (hl : Intact l) :
    m.entries.lastId ≤ l.entries.lastId + 1 := by
  cases h with
  | settings settling =>
    rw [(untouched_of_steps settling.steps hl).entries]
    omega
  | record e shifts room active filed effects bears placed =>
    rw [Table.lastId_insert, hl.entries.nextId_eq]
  | mark r archived shifts mem other effects bears => exact Int.le_add_one (Int.le_refl _)
  | remove r shifts mem meant undone bears => exact Int.le_add_one (Int.le_refl _)
  | clear user meant => exact Int.le_add_one (Int.le_refl _)

theorem Recorded.lastId_le {db : Database} (h : Recorded j db) :
    0 ≤ db.ledger.entries.lastId ∧ db.ledger.entries.lastId ≤ j.calls := by
  induction h with
  | migrated => exact ⟨Int.le_refl _, Int.le_refl _⟩
  | @call j s c hd ho hc ih =>
    have hi := hd.reachable.intact.2
    have hchange := hd.reachable.change ho hc
    have hids := (hchange.continues hi).entryIds
    have hone := hchange.lastId_le hi
    refine ⟨by omega, ?_⟩
    show _ ≤ ((j.calls + 1 : Nat) : Int)
    omega

/-- Ids for entries do not run out before there have been as many calls as there are ids. -/
theorem Recorded.room {db : Database} (h : Recorded j db) (hn : j.calls < 2 ^ 63 - 1) :
    db.ledger.entries.isFull = false := by
  have hids := h.lastId_le
  have hnext := h.reachable.intact.2.entries.nextId_eq
  simp only [Table.isFull, fitsInteger, Bool.not_eq_false', Bool.and_eq_true, decide_eq_true_eq]
  omega

/-- What a balance is in exact arithmetic after postings one by one, where doubles stand for the
numbers that a valuation gives them. -/
def postedExactly (v : Float → ℚ) (x : ℚ) (ps : List Posting) : ℚ :=
  ps.foldl (fun y p => if p.undone then y - v p.delta else y + v p.delta) x

theorem postedExactly_eq (v : Float → ℚ) (x : ℚ) (ps : List Posting) :
    postedExactly v x ps = x + netWeight (fun _ => v) ps := by
  induction ps generalizing x with
  | nil => exact (add_zero x).symm
  | cons p rest ih =>
    have hcons : netWeight (fun _ => v) (p :: rest)
        = (if p.undone then -v p.delta else v p.delta) + netWeight (fun _ => v) rest := rfl
    rw [hcons, postedExactly, List.foldl_cons, ← postedExactly, ih]
    split <;> ring

/-- A journal that explains the balances of a ledger. -/
structure Journal.Explains (j : Journal) (l : Ledger) : Prop where
  /-- Every balance is the one that its source was opened with, and all postings to the source one
  by one. -/
  balance : ∀ s ∈ l.sources.rows, ∃ x,
    j.openings.filter (fun o => o.source == s.id) = [⟨s.id, x⟩] ∧
      s.data.amount = posted x (postingsTo s.id j.postings)
  /-- The deltas of an active entry were applied once more than they were undone, and no other ones
  were posted for it. -/
  active : ∀ e ∈ l.active, ∃ shifts, l.effects e = .ok shifts ∧ ∀ s ∈ l.sources.rows,
    (∀ d, ⟨some s.id, d⟩ ∈ shifts →
      j.postings.count ⟨e.id, s.id, d, false⟩ = j.postings.count ⟨e.id, s.id, d, true⟩ + 1) ∧
    ∀ p ∈ j.postings, p.entry = e.id → p.source = s.id → ⟨some s.id, p.delta⟩ ∈ shifts
  /-- Whatever was applied for an entry that is archived or was removed was undone as often. -/
  inactive : ∀ id, l.isActive id = false → ∀ s ∈ l.sources.rows, ∀ d,
    j.postings.count ⟨id, s.id, d, false⟩ = j.postings.count ⟨id, s.id, d, true⟩
  /-- To one source an entry always posts the same delta. -/
  same : ∀ p ∈ j.postings, ∀ q ∈ j.postings, l.sources.Has p.source → p.entry = q.entry →
    p.source = q.source → p.delta = q.delta
  /-- In exact arithmetic a balance is the one that its source was opened with and the deltas of the
  active entries. -/
  exact : ∀ (v : Float → ℚ) (x : ℚ), ∀ s ∈ l.sources.rows,
    postedExactly v x (postingsTo s.id j.postings)
      = x + (l.active.map fun e => ((l.deltas s.id e).map v).sum).sum

/-- The weight of one delta of one entry. -/
def only (id : Int) (d : Float) (n : Int) (x : Float) : ℚ := if n = id ∧ x = d then 1 else 0

theorem netWeight_only (id s : Int) (d : Float) (ps : List Posting) :
    netWeight (only id d) (postingsTo s ps)
      = (ps.count ⟨id, s, d, false⟩ : ℚ) - ps.count ⟨id, s, d, true⟩ := by
  induction ps with
  | nil => simp [netWeight, postingsTo]
  | cons p rest ih =>
    obtain ⟨n, t, x, undone⟩ := p
    by_cases ht : t = s
    · have hcons : netWeight (only id d) (postingsTo s (⟨n, t, x, undone⟩ :: rest))
          = (if undone then -only id d n x else only id d n x)
            + netWeight (only id d) (postingsTo s rest) := by
        rw [postingsTo, List.filter_cons_of_pos (by simpa using ht)]
        rfl
      rw [hcons, ih]
      by_cases hx : n = id ∧ x = d
      · obtain ⟨rfl, rfl⟩ := hx
        subst ht
        cases undone <;> simp [only] <;> ring
      · have hne (b : Bool) : (⟨n, t, x, undone⟩ : Posting) ≠ ⟨id, s, d, b⟩ := by
          intro h
          cases h
          exact hx ⟨rfl, rfl⟩
        simp [only, hx, List.count_cons_of_ne, hne]
    · have hne (b : Bool) : (⟨n, t, x, undone⟩ : Posting) ≠ ⟨id, s, d, b⟩ := by
        intro h
        cases h
        exact ht rfl
      rw [postingsTo, List.filter_cons_of_neg (by simpa using ht), ← postingsTo, ih,
        List.count_cons_of_ne (hne _), List.count_cons_of_ne (hne _)]

theorem weight_only_of_ne {id s : Int} (d : Float) (h : e.id ≠ id) : l.weight (only id d) s e = 0 := by
  rw [Ledger.weight]
  refine List.sum_eq_zero fun q hq => ?_
  obtain ⟨x, -, rfl⟩ := List.mem_map.1 hq
  exact if_neg fun hid => h hid.1

/-- Of the active entries only that of the id weighs anything. -/
theorem activeWeight_only (ht : l.entries.Tidy) (he : e ∈ l.active) (s : Int) (d : Float) :
    l.activeWeight (only e.id d) s = l.weight (only e.id d) s e := by
  have hone : l.active.count e = 1 := List.count_eq_one_of_mem (ht.nodup.of_map.filter _) he
  rw [Ledger.activeWeight, List.sum_map_eq_nsmul_single e, hone, one_nsmul]
  intro y hne hy
  refine weight_only_of_ne d fun hid => hne ?_
  exact ht.eq_of_id (mem_active.1 hy).1 (mem_active.1 he).1 hid

/-- A delta that an active entry has for a source is the only one. -/
theorem deltas_eq_singleton (hi : Intact l) (he : e ∈ l.entries.rows) {shifts : List Shift}
    (hs : l.effects e = .ok shifts) {s : Int} {d : Float} (hd : ⟨some s, d⟩ ∈ shifts) :
    l.deltas s e = [d] := by
  have hmem : d ∈ l.deltas s e := by
    rw [deltas_of_effects hs]
    exact List.mem_map.2 ⟨_, List.mem_filter.2 ⟨hd, by simp⟩, rfl⟩
  rcases (hi.filed e he).deltas_eq (hi.entries.proper e he) s with h | ⟨d', h⟩
  · rw [h] at hmem
    cases hmem
  · rw [h] at hmem ⊢
    rw [List.mem_singleton.1 hmem]

namespace Reconciled

variable (hj : Reconciled j l) (hi : Intact l)

include hj hi

theorem count_active (he : e ∈ l.active) {shifts : List Shift} (hs : l.effects e = .ok shifts)
    {s : Int} (hsource : l.sources.Has s) {d : Float} (hd : ⟨some s, d⟩ ∈ shifts) :
    j.postings.count ⟨e.id, s, d, false⟩ = j.postings.count ⟨e.id, s, d, true⟩ + 1 := by
  have hweight : l.activeWeight (only e.id d) s = 1 := by
    rw [activeWeight_only hi.entries he, Ledger.weight,
      deltas_eq_singleton hi (mem_active.1 he).1 hs hd]
    simp [only]
  have hnet := hj.net (only e.id d) s hsource
  rw [hweight, netWeight_only] at hnet
  have hcast : (j.postings.count ⟨e.id, s, d, false⟩ : ℚ)
      = j.postings.count ⟨e.id, s, d, true⟩ + 1 := by linarith
  exact_mod_cast hcast

omit hi in
theorem count_inactive {id : Int} (hid : l.isActive id = false) {s : Int}
    (hsource : l.sources.Has s) (d : Float) :
    j.postings.count ⟨id, s, d, false⟩ = j.postings.count ⟨id, s, d, true⟩ := by
  have hweight : l.activeWeight (only id d) s = 0 := by
    refine List.sum_eq_zero fun q hq => ?_
    obtain ⟨e, he, rfl⟩ := List.mem_map.1 hq
    refine weight_only_of_ne d fun heid => ?_
    rw [isActive_iff.2 ⟨e, he, heid⟩] at hid
    cases hid
  have hnet := hj.net (only id d) s hsource
  rw [hweight, netWeight_only] at hnet
  exact_mod_cast sub_eq_zero.1 hnet.symm

theorem mem_shifts (he : e ∈ l.entries.rows) {shifts : List Shift}
    (hs : l.effects e = .ok shifts) {p : Posting} (hp : p ∈ j.postings) (hid : p.entry = e.id)
    (hsource : l.sources.Has p.source) : ⟨some p.source, p.delta⟩ ∈ shifts := by
  obtain ⟨r, hr, hrid, hd⟩ := hj.shown p hp hsource ⟨e, he, hid.symm⟩
  obtain rfl := hi.entries.eq_of_id hr he (hrid.trans hid)
  rw [deltas_of_effects hs] at hd
  obtain ⟨y, hy, hyd⟩ := List.mem_map.1 hd
  obtain ⟨hy, hys⟩ := List.mem_filter.1 hy
  rw [← beq_iff_eq.1 hys, ← hyd]
  exact hy

end Reconciled

/-- The journal after further calls that are made on a session. -/
def Journal.after (j : Journal) (s : Session) : List Call → Journal
  | [] => j
  | c :: rest =>
    (j.next s.database.ledger (c.run.exec s).2.database.ledger).after (c.run.exec s).2 rest

theorem Recorded.after {s : Session} (hd : Recorded j s.database) (ho : s.inBlock = false)
    {calls : List Call} (hc : ∀ c ∈ calls, c.Typed) :
    Recorded (j.after s calls) (s.after calls).database := by
  induction calls generalizing s j with
  | nil => exact hd
  | cons c rest ih =>
    exact ih (.call hd ho (hc c List.mem_cons_self)) (c.atomic s ho).1
      fun c hc' => hc c (List.mem_cons_of_mem _ hc')

/-- In every database that calls lead to, the journal of the calls explains the balances. -/
theorem Recorded.explains {db : Database} (h : Recorded j db) : j.Explains db.ledger := by
  obtain ⟨-, hi⟩ := h.reachable.intact
  have hj := h.reconciled
  refine ⟨hj.amounts, fun e he => ?_, fun id hid s hs d => ?_, hj.same, fun v x s hs => ?_⟩
  · have hmem := (mem_active.1 he).1
    obtain ⟨shifts, hshifts⟩ := (hi.filed e hmem).effects
    refine ⟨shifts, hshifts, fun s hs => ⟨fun d hd => ?_, fun p hp hid hsource => ?_⟩⟩
    · exact hj.count_active hi he hshifts ⟨s, hs, rfl⟩ hd
    · exact hsource ▸ hj.mem_shifts hi hmem hshifts hp hid ⟨s, hs, hsource.symm⟩
  · exact hj.count_inactive hid ⟨s, hs, rfl⟩ d
  · rw [postedExactly_eq, ← hj.net (fun _ => v) s.id ⟨s, hs, rfl⟩]
    rfl

/-- A first entry has its delta posted to the source, and undone once it is archived. -/
theorem explains_after_firstSpending :
    let archived := firstSpending ++ [.archiveEntry (.int 1) (.int 1)]
    let j := Journal.after {} newSession archived
    Recorded j (newSession.after archived).database ∧
      j.openings = [⟨1, 20⟩] ∧ j.postings = [⟨1, 1, -3, false⟩, ⟨1, 1, -3, true⟩] ∧
      j.Explains (newSession.after archived).database.ledger := by
  have hc : ∀ c ∈ firstSpending ++ [Call.archiveEntry (.int 1) (.int 1)], c.Typed := by
    simp [firstSpending, registration, Call.Typed, Call.ids, EntryRequest.ids, Value.isId,
      Value.isNull, Value.id?]
  have h := Recorded.after (s := newSession) .migrated rfl hc
  exact ⟨h, by decide +kernel, by decide +kernel, h.explains⟩

end Bookkeeping.Store
