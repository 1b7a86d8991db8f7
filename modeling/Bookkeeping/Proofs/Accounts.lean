import Bookkeeping.Proofs.Journal

/-! # What a call does to balances

A change of a ledger shifts balances by what it posts and by nothing else, and it leaves the deltas
of entries as they are: neither a delta nor a posting is stored, but a delta that is found anew from
the entry and its source is the same.
-/

namespace Bookkeeping.Store

open Service

/-! ## Balances -/

/-- A balance after deltas one by one. -/
def shifted (x : Float) (deltas : List Float) : Float :=
  deltas.foldl (fun y d => unsigned (y + d)) x

/-- A balance after postings one by one. -/
def posted (x : Float) (ps : List Posting) : Float := shifted x (ps.map Posting.applied)

variable {l m : Ledger} {e r : Row StoredEntry} {x : Row Source} {shifts : List Shift}

theorem posted_append (x : Float) (ps qs : List Posting) :
    posted x (ps ++ qs) = posted (posted x ps) qs := by
  rw [posted, posted, posted, shifted, List.map_append, List.foldl_append]
  rfl

/-- A source after shifts is one from before whose balance took the shifts meant for it. -/
theorem mem_shiftAll (hx : x ∈ (l.shiftAll shifts).sources.rows) :
    ∃ r ∈ l.sources.rows, r.id = x.id ∧
      (r.data.owner = x.data.owner ∧ r.data.currency = x.data.currency) ∧
      x.data.amount = shifted r.data.amount
        ((shifts.filter fun y => y.source == some x.id).map Shift.delta) := by
  induction shifts generalizing l with
  | nil => exact ⟨x, hx, rfl, ⟨rfl, rfl⟩, rfl⟩
  | cons y rest ih =>
    obtain ⟨z, hz, hid, hc, ha⟩ := ih (l := l.shift y) hx
    obtain ⟨r, hr, rfl⟩ := Table.mem_change.1 hz
    by_cases hy : (y.source == some r.id) = true
    · rw [if_pos hy] at hid hc ha
      change r.id = x.id at hid
      refine ⟨r, hr, hid, hc, ?_⟩
      rw [List.filter_cons_of_pos (by rw [← hid]; exact hy)]
      exact ha
    · rw [if_neg hy] at hid hc ha
      refine ⟨r, hr, hid, hc, ?_⟩
      rw [List.filter_cons_of_neg (by rw [← hid]; exact hy)]
      exact ha

@[simp] theorem lastId_sources_shiftAll (l : Ledger) (shifts : List Shift) :
    (l.shiftAll shifts).sources.lastId = l.sources.lastId := by
  induction shifts generalizing l with
  | nil => rfl
  | cons y rest ih => exact ih (l.shift y)

/-- The postings of an entry are its shifts, in the direction in which they are applied. -/
theorem applied_deltas (h : l.effects e = .ok shifts) (s : Int) (undone : Bool) :
    ((l.deltas s e).map fun d => Posting.applied ⟨e.id, s, d, undone⟩)
      = ((shifts.map (Shift.directed (if undone then -1 else 1))).filter
          fun x => x.source == some s).map Shift.delta := by
  rw [deltas_of_effects h, List.filter_map, List.map_map, List.map_map]
  cases undone <;> rfl

/-! ## Entries that keep their deltas -/

/-- What is stored for good from one ledger to a later one: of an entry everything but its flag, and of
a source its owner and its currency. What is new has an id that was never given. -/
structure Retains (l m : Ledger) : Prop where
  entryIds : l.entries.lastId ≤ m.entries.lastId
  sourceIds : l.sources.lastId ≤ m.sources.lastId
  entries : ∀ e ∈ m.entries.rows,
    (∃ r ∈ l.entries.rows, e = markedAs e.data.archived r) ∨ l.entries.lastId < e.id
  sources : ∀ x ∈ m.sources.rows, (∃ r ∈ l.sources.rows, r.id = x.id ∧
    r.data.owner = x.data.owner ∧ r.data.currency = x.data.currency) ∨ l.sources.lastId < x.id

theorem eq_markedAs (ho : e.odd = []) : e = markedAs e.data.archived e := by
  cases e
  cases ho
  rfl

namespace Retains

theorem refl (hl : Intact l) : Retains l l where
  entryIds := Int.le_refl _
  sourceIds := Int.le_refl _
  entries e he := .inl ⟨e, he, eq_markedAs (hl.entries.proper e he)⟩
  sources x hx := .inl ⟨x, hx, rfl, rfl, rfl⟩

theorem trans {n : Ledger} (h : Retains l m) (h' : Retains m n) : Retains l n where
  entryIds := Int.le_trans h.entryIds h'.entryIds
  sourceIds := Int.le_trans h.sourceIds h'.sourceIds
  entries e he := by
    rcases h'.entries e he with ⟨b, hb, heb⟩ | hnew
    · rcases h.entries b hb with ⟨a, ha, hba⟩ | hnew
      · refine .inl ⟨a, ha, ?_⟩
        rw [heb, hba]
        rfl
      · right
        rw [heb]
        exact hnew
    · exact .inr (Int.lt_of_le_of_lt h.entryIds hnew)
  sources x hx := by
    rcases h'.sources x hx with ⟨y, hy, hid, ho, hc⟩ | hnew
    · rcases h.sources y hy with ⟨r, hr, hid', ho', hc'⟩ | hnew
      · exact .inl ⟨r, hr, hid'.trans hid, ho'.trans ho, hc'.trans hc⟩
      · exact .inr (hid ▸ hnew)
    · exact .inr (Int.lt_of_le_of_lt h.sourceIds hnew)

theorem entry_eq (h : Retains l m) (hl : Intact l) (hr : r ∈ l.entries.rows)
    (he : e ∈ m.entries.rows) (hid : e.id = r.id) : e = markedAs e.data.archived r := by
  rcases h.entries e he with ⟨a, ha, hea⟩ | hnew
  · have har : a.id = r.id := by rw [← hid, hea]; rfl
    rwa [hl.entries.eq_of_id ha hr har] at hea
  · have hwithin := hl.entries.within r hr
    omega

theorem source_eq (h : Retains l m) (hl : Intact l) {y : Row Source} (hx : x ∈ l.sources.rows)
    (hy : y ∈ m.sources.rows) (hid : y.id = x.id) :
    y.data.owner = x.data.owner ∧ y.data.currency = x.data.currency := by
  rcases h.sources y hy with ⟨r, hr, hrid, ho, hc⟩ | hnew
  · obtain rfl := hl.sources.tidy.eq_of_id hr hx (hrid.trans hid)
    exact ⟨ho.symm, hc.symm⟩
  · have hwithin := hl.sources.tidy.within x hx
    omega

/-- What is found out about an entry stays the same for as long as there is the entry. -/
theorem effects_eq (h : Retains l m) (hl : Intact l) (hm : Intact m) (hr : r ∈ l.entries.rows)
    (he : e ∈ m.entries.rows) (hid : e.id = r.id) : m.effects e = l.effects r := by
  have her := h.entry_eq hl hr he hid
  have hsource : e.data.source = r.data.source := by
    rw [her]
    rfl
  obtain ⟨x, hx, hxid, -⟩ := (hl.filed r hr).source
  obtain ⟨y, hy, hyid, -⟩ := (hm.filed e he).source
  have hheld : m.currencyOf e.data.source = l.currencyOf e.data.source := by
    have hyx : y.id = x.id := by rw [hyid, hxid, hsource]
    rw [← hyid, currencyOf_of_mem hm.sources.tidy hy, hyx, currencyOf_of_mem hl.sources.tidy hx,
      (h.source_eq hl hx hy hyx).2]
  obtain ⟨shifts, hshifts⟩ := (hl.filed r hr).effects
  rw [Ledger.effects_congr (hm.entries.proper e he) hheld, her, hshifts]
  exact effects_markedAs (hl.entries.proper r hr) _ hshifts

end Retains

/-- What one call leaves to the next: entries and sources are as they were, but for the flags of
entries and for balances, or have ids that were never given; and a balance is the one from before
with what was posted to its source. -/
structure Continues (l m : Ledger) : Prop where
  entryIds : l.entries.lastId ≤ m.entries.lastId
  sourceIds : l.sources.lastId ≤ m.sources.lastId
  entries : ∀ e ∈ m.entries.rows,
    (∃ r ∈ l.entries.rows, e = markedAs e.data.archived r) ∨ l.entries.lastId < e.id
  sources : ∀ x ∈ m.sources.rows,
    (∃ r ∈ l.sources.rows, r.id = x.id ∧
      (r.data.owner = x.data.owner ∧ r.data.currency = x.data.currency) ∧
      x.data.amount = posted r.data.amount (postingsTo x.id (l.postings m))) ∨
    l.sources.lastId < x.id ∧ postingsTo x.id (l.postings m) = []

theorem Continues.retains (h : Continues l m) : Retains l m where
  entryIds := h.entryIds
  sourceIds := h.sourceIds
  entries := h.entries
  sources x hx := (h.sources x hx).imp (fun ⟨r, hr, hid, hkept, _⟩ => ⟨r, hr, hid, hkept⟩) And.left

/-- The deltas of an entry stay the same for as long as there is the entry. -/
theorem Continues.deltas_eq (h : Continues l m) (hl : Intact l) (hm : Intact m) (s : Int) :
    ∀ a ∈ l.entries.rows, ∀ b ∈ m.entries.rows, b.id = a.id → m.deltas s b = l.deltas s a := by
  intro a ha b hb hid
  rw [Ledger.deltas, h.retains.effects_eq hl hm ha hb hid, Ledger.deltas]

/-! ## One change -/

/-- Ledgers with the same entries have nothing posted between them. -/
theorem postings_of_entries (he : m.entries = l.entries) :
    l.postings m = [] := by
  have hact : m.active = l.active := by rw [Ledger.active, he, Ledger.active]
  have hm : l.stopped m = [] := stopped_eq_nil fun e he => isActive_iff.2 ⟨e, hact ▸ he, rfl⟩
  have hl : m.stopped l = [] := stopped_eq_nil fun e he => isActive_iff.2 ⟨e, hact ▸ he, rfl⟩
  rw [Ledger.postings, hm, hl]
  rfl

/-- Sources as settings leave them: entries and balances stay. -/
structure Untouched (l m : Ledger) : Prop where
  entries : m.entries = l.entries
  sourceIds : l.sources.lastId ≤ m.sources.lastId
  sources : ∀ x ∈ m.sources.rows, (∃ r ∈ l.sources.rows, r.id = x.id ∧
    (r.data.owner = x.data.owner ∧ r.data.currency = x.data.currency) ∧
    x.data.amount = r.data.amount) ∨ l.sources.lastId < x.id

theorem Untouched.of_sources (he : m.entries = l.entries) (hs : m.sources = l.sources) :
    Untouched l m where
  entries := he
  sourceIds := hs ▸ Int.le_refl _
  sources x hx := .inl ⟨x, hs ▸ hx, rfl, ⟨rfl, rfl⟩, rfl⟩

theorem Untouched.trans {n : Ledger} (h : Untouched l m) (h' : Untouched m n) : Untouched l n where
  entries := h'.entries.trans h.entries
  sourceIds := Int.le_trans h.sourceIds h'.sourceIds
  sources := by
    intro x hx
    rcases h'.sources x hx with ⟨y, hy, hid, hc, ha⟩ | hnew
    · rcases h.sources y hy with ⟨r, hr, hid', hc', ha'⟩ | hnew
      · exact .inl ⟨r, hr, hid'.trans hid, ⟨hc'.1.trans hc.1, hc'.2.trans hc.2⟩, ha.trans ha'⟩
      · exact .inr (hid ▸ hnew)
    · exact .inr (Int.lt_of_le_of_lt h.sourceIds hnew)

theorem Step.untouched (h : Step l m) (hl : l.sources.Tidy) : Untouched l m := by
  cases h with
  | addSource s new funded =>
    have hnext := hl.nextId_eq
    refine ⟨rfl, ?_, fun x hx => ?_⟩
    · rw [Table.lastId_insert]
      omega
    · rcases Table.mem_insert.1 hx with hx | rfl
      · exact .inl ⟨x, hx, rfl, ⟨rfl, rfl⟩, rfl⟩
      · right
        show l.sources.lastId < l.sources.nextId
        omega
  | reviseSource r s revised currency amount =>
    refine ⟨rfl, Int.le_refl _, fun x hx => .inl ?_⟩
    rcases (Table.mem_replace (r := ⟨r.id, s, []⟩)).1 hx with ⟨rfl, -⟩ | ⟨hx, -⟩
    · exact ⟨r, revised.mem, rfl, ⟨revised.owner.symm, currency.symm⟩, amount⟩
    · exact ⟨x, hx, rfl, ⟨rfl, rfl⟩, rfl⟩
  | dropSource p unused =>
    exact ⟨rfl, Int.le_refl _, fun x hx => .inl ⟨x, (Table.mem_erase.1 hx).1, rfl, ⟨rfl, rfl⟩, rfl⟩⟩
  | _ => exact .of_sources rfl rfl

theorem Untouched.continues (h : Untouched l m) (hl : Intact l) : Continues l m where
  entryIds := h.entries ▸ Int.le_refl _
  sourceIds := h.sourceIds
  entries e he := by
    rw [h.entries] at he
    exact .inl ⟨e, he, eq_markedAs (hl.entries.proper e he)⟩
  sources x hx := by
    rw [postings_of_entries h.entries]
    exact (h.sources x hx).imp_right fun hnew => ⟨hnew, rfl⟩

/-- A change that shifts balances continues a ledger if what it posts are the shifts. -/
theorem continues_of_shifts (hs : m.sources = (l.shiftAll shifts).sources)
    (hids : l.entries.lastId ≤ m.entries.lastId)
    (he : ∀ e ∈ m.entries.rows,
      (∃ r ∈ l.entries.rows, e = markedAs e.data.archived r) ∨ l.entries.lastId < e.id)
    (hp : ∀ s, m.sources.Has s → (postingsTo s (l.postings m)).map Posting.applied
      = (shifts.filter fun y => y.source == some s).map Shift.delta) : Continues l m where
  entryIds := hids
  sourceIds := by rw [hs, lastId_sources_shiftAll]
  entries := he
  sources x hx := by
    obtain ⟨r, hr, hid, hc, ha⟩ := mem_shiftAll (hs ▸ hx)
    exact .inl ⟨r, hr, hid, hc, by rw [posted, hp _ ⟨x, hx, rfl⟩, ha]⟩

/-- What is found out about an entry stays the same if balances are shifted. -/
theorem effects_shiftAll (hl : Intact l) (hs : m.sources = (l.shiftAll shifts).sources)
    (hb : l.Bears shifts) (ho : e.odd = []) (hid : l.sources.Has e.data.source) :
    m.effects e = l.effects e := by
  refine Ledger.effects_congr ho ?_
  rw [← (keeps_shiftAll hl hb).held _ hid, Ledger.currencyOf, hs, Ledger.currencyOf]

section

variable (hl : l.entries.Tidy) (hm : m.entries.Tidy)

include hl hm

theorem stopped_record {e : StoredEntry} (he : m.entries = l.entries.insert e)
    (ha : e.archived = false) :
    l.stopped m = [] ∧ m.stopped l = [⟨l.entries.nextId, e, []⟩] := by
  constructor
  · refine stopped_eq_nil fun x hx => ?_
    obtain ⟨hx, hxa⟩ := mem_active.1 hx
    rw [isActive_of_mem hm (he ▸ Table.mem_insert.2 (.inl hx)), hxa]
    rfl
  · refine stopped_eq_singleton hm
      (mem_active.2 ⟨he ▸ Table.mem_insert.2 (.inr rfl), ha⟩) (isActive_of_not_has ?_) ?_
    · rintro ⟨x, hx, hid⟩
      exact absurd hid (Int.ne_of_lt (Table.id_lt_nextId _ hx))
    · intro x hx hne
      obtain ⟨hx, hxa⟩ := mem_active.1 hx
      rcases Table.mem_insert.1 (he ▸ hx) with hx | rfl
      · rw [isActive_of_mem hl hx, hxa]
        rfl
      · exact absurd rfl hne

/-- An entry that is archived is the one that stops being active, and one that is restored the one
that starts. -/
theorem stopped_mark {archived : Bool} (hr : r ∈ l.entries.rows)
    (he : m.entries = l.entries.replace r.id (markedAs archived r))
    (ha : r.data.archived = !archived) :
    l.stopped m = (if archived then [r] else []) ∧
      m.stopped l = if archived then [] else [markedAs archived r] := by
  have hmem : markedAs archived r ∈ m.entries.rows :=
    he ▸ Table.mem_replace.2 (.inl ⟨rfl, r, hr, rfl⟩)
  have hmark : m.isActive r.id = !archived := isActive_of_mem hm hmem
  have hold : l.isActive r.id = archived := by rw [isActive_of_mem hl hr, ha, Bool.not_not]
  have hothers (x : Row StoredEntry) (hx : x ∈ l.active) (hne : x.id ≠ r.id) :
      m.isActive x.id = true := by
    obtain ⟨hx, hxa⟩ := mem_active.1 hx
    rw [isActive_of_mem hm (he ▸ Table.mem_replace.2 (.inr ⟨hx, hne⟩)), hxa]
    rfl
  have hothers' (x : Row StoredEntry) (hx : x ∈ m.active) (hne : x.id ≠ r.id) :
      l.isActive x.id = true := by
    obtain ⟨hx, hxa⟩ := mem_active.1 hx
    rcases Table.mem_replace.1 (he ▸ hx) with ⟨rfl, -⟩ | ⟨hx, -⟩
    · exact absurd rfl hne
    · rw [isActive_of_mem hl hx, hxa]
      rfl
  cases archived with
  | true =>
    refine ⟨stopped_eq_singleton hl (mem_active.2 ⟨hr, ha⟩) hmark hothers,
      stopped_eq_nil fun x hx => ?_⟩
    by_cases hid : x.id = r.id
    · rw [hid, hold]
    · exact hothers' x hx hid
  | false =>
    refine ⟨stopped_eq_nil fun x hx => ?_,
      stopped_eq_singleton hm (mem_active.2 ⟨hmem, rfl⟩) hold hothers'⟩
    by_cases hid : x.id = r.id
    · rw [hid, hmark]
      rfl
    · exact hothers x hx hid

theorem stopped_remove (hr : r ∈ l.entries.rows)
    (he : m.entries = l.entries.erase fun e => e.id == r.id) :
    l.stopped m = (if r.data.archived then [] else [r]) ∧ m.stopped l = [] := by
  have hgone : m.isActive r.id = false := by
    refine isActive_of_not_has ?_
    rintro ⟨x, hx, hid⟩
    have := (Table.mem_erase.1 (he ▸ hx)).2
    simp [hid] at this
  have hothers (x : Row StoredEntry) (hx : x ∈ l.active) (hne : x.id ≠ r.id) :
      m.isActive x.id = true := by
    obtain ⟨hx, hxa⟩ := mem_active.1 hx
    rw [isActive_of_mem hm (he ▸ Table.mem_erase.2 ⟨hx, by simpa using hne⟩), hxa]
    rfl
  constructor
  · cases ha : r.data.archived with
    | true =>
      refine stopped_eq_nil fun x hx => hothers x hx fun hid => ?_
      obtain ⟨hx, hxa⟩ := mem_active.1 hx
      rw [hl.eq_of_id hx hr hid, ha] at hxa
      cases hxa
    | false => exact stopped_eq_singleton hl (mem_active.2 ⟨hr, ha⟩) hgone hothers
  · refine stopped_eq_nil fun x hx => ?_
    obtain ⟨hx, hxa⟩ := mem_active.1 hx
    rw [isActive_of_mem hl (Table.mem_erase.1 (he ▸ hx)).1, hxa]
    rfl

end

/-- Without a user nothing is posted to the sources that are left: no entry of the user shifts the
sources of another one. -/
theorem postingsTo_without (hl : Intact l) {user s : Int} (hs : (l.without user).sources.Has s) :
    postingsTo s (l.postings (l.without user)) = [] := by
  have hm := hl.without user
  have hnone : (l.without user).stopped l = [] := by
    refine stopped_eq_nil fun x hx => ?_
    obtain ⟨hx, hxa⟩ := mem_active.1 hx
    rw [isActive_of_mem hl.entries (Table.mem_erase.1 hx).1, hxa]
    rfl
  rw [postingsTo_postings hs, hnone, List.flatMap_nil, List.append_nil, List.flatMap_eq_nil_iff]
  intro x hx
  obtain ⟨hx, hgone⟩ := mem_stopped.1 hx
  obtain ⟨hx, hxa⟩ := mem_active.1 hx
  rw [List.map_eq_nil_iff]
  by_contra hd
  obtain ⟨y, hy, hid, hown⟩ := (hl.filed x hx).owns_of_delta (hl.entries.proper x hx) hd
  obtain ⟨z, hz, hzid⟩ := hs
  obtain ⟨hz, hother⟩ := Table.mem_erase.1 hz
  obtain rfl := hl.sources.tidy.eq_of_id hy hz (hid.trans hzid.symm)
  -- the source is another user's, so the entry is still there
  have hstays : x ∈ (l.without user).entries.rows := by
    refine Table.mem_erase.2 ⟨hx, ?_⟩
    rw [← hown]
    exact hother
  rw [isActive_of_mem hm.entries hstays, hxa] at hgone
  cases hgone

/-- Where one entry stops being active, its shifts are undone. -/
theorem applied_stopped {s : Int} (hs : m.sources.Has s) (hold : l.stopped m = [e])
    (hnew : m.stopped l = []) (he : l.effects e = .ok shifts) :
    (postingsTo s (l.postings m)).map Posting.applied
      = ((shifts.map (Shift.directed (-1))).filter fun y => y.source == some s).map Shift.delta := by
  rw [postingsTo_postings hs, hold, hnew, List.flatMap_nil, List.append_nil, List.flatMap_singleton,
    List.map_map]
  exact applied_deltas he s true

/-- Where one entry starts being active, its shifts are applied. -/
theorem applied_started {s : Int} (hs : m.sources.Has s) (hold : l.stopped m = [])
    (hnew : m.stopped l = [e]) (he : m.effects e = .ok shifts) :
    (postingsTo s (l.postings m)).map Posting.applied
      = (shifts.filter fun y => y.source == some s).map Shift.delta := by
  rw [postingsTo_postings hs, hold, hnew, List.flatMap_nil, List.nil_append, List.flatMap_singleton,
    List.map_map]
  refine (applied_deltas he s false).trans ?_
  rw [if_neg Bool.false_ne_true, map_directed_one]

theorem untouched_of_steps (steps : Relation.ReflTransGen Step l m) (hl : Intact l) :
    Untouched l m := by
  induction steps with
  | refl => exact .of_sources rfl rfl
  | tail hsteps hs ih =>
    exact ih.trans (hs.untouched (intact_of_steps hsteps hl).sources.tidy)

theorem Change.continues {gone : Row StoredEntry → Prop} (h : Change gone l m) (hl : Intact l) :
    Continues l m := by
  have hm := h.intact hl
  cases h with
  | settings settling => exact (untouched_of_steps settling.steps hl).continues hl
  | record e shifts room active filed effects bears placed =>
    have hnext := hl.entries.nextId_eq
    refine continues_of_shifts rfl ?_ (fun x hx => ?_) fun s hs => ?_
    · rw [Table.lastId_insert]
      omega
    · rcases Table.mem_insert.1 hx with hx | rfl
      · exact .inl ⟨x, hx, eq_markedAs (hl.entries.proper x hx)⟩
      · right
        show l.entries.lastId < l.entries.nextId
        omega
    · obtain ⟨hold, hnew⟩ := stopped_record hl.entries hm.entries rfl active
      obtain ⟨r, hr, hid, -⟩ := filed.source
      have heffects := (effects_shiftAll hl rfl bears rfl ⟨r, hr, hid⟩).trans effects
      exact applied_started hs hold hnew heffects
  | mark r archived shifts mem other effects bears =>
    refine continues_of_shifts rfl (Int.le_refl _) (fun x hx => ?_) fun s hs => ?_
    · rcases Table.mem_replace.1 hx with ⟨rfl, -⟩ | ⟨hx, -⟩
      · exact .inl ⟨r, mem, rfl⟩
      · exact .inl ⟨x, hx, eq_markedAs (hl.entries.proper x hx)⟩
    · obtain ⟨hold, hnew⟩ := stopped_mark hl.entries hm.entries mem rfl other
      cases archived with
      | true => exact applied_stopped hs hold hnew effects
      | false =>
        have hmarked := effects_markedAs (hl.entries.proper r mem) false effects
        obtain ⟨y, hy, hid, -⟩ := (hl.filed r mem).source
        have heffects := (effects_shiftAll (e := markedAs false r) hl rfl bears rfl
          ⟨y, hy, hid⟩).trans hmarked
        refine (applied_started hs hold hnew heffects).trans ?_
        rw [if_neg Bool.false_ne_true, map_directed_one]
  | remove r shifts mem meant undone bears =>
    refine continues_of_shifts rfl (Int.le_refl _) (fun x hx => ?_) fun s hs => ?_
    · have hx := (Table.mem_erase.1 hx).1
      exact .inl ⟨x, hx, eq_markedAs (hl.entries.proper x hx)⟩
    · obtain ⟨hold, hnew⟩ := stopped_remove hl.entries hm.entries mem rfl
      by_cases ha : r.data.archived = true
      · rw [if_pos ha] at hold undone
        rw [postingsTo_postings hs, hold, hnew, undone]
        rfl
      · rw [if_neg ha] at hold undone
        obtain ⟨effects, he, rfl⟩ := undone
        exact applied_stopped hs hold hnew he
  | clear user meant =>
    refine ⟨Int.le_refl _, Int.le_refl _, fun x hx => .inl ?_, fun x hx => .inl ?_⟩
    · have hx := (Table.mem_erase.1 hx).1
      exact ⟨x, hx, eq_markedAs (hl.entries.proper x hx)⟩
    · refine ⟨x, (Table.mem_erase.1 hx).1, rfl, ⟨rfl, rfl⟩, ?_⟩
      rw [postingsTo_without hl ⟨x, hx, rfl⟩]
      rfl

end Bookkeeping.Store
