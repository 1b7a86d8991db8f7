import Bookkeeping.Proofs.Chronology
import Bookkeeping.Proofs.Refusals
import Bookkeeping.Proofs.Writings

/-! # What a listing of entries shows

Entries are listed by the texts that they are written down as. What a caller asks for is said of the
moments that those texts spell: `Selection.selects` compares instants, where the statement compares
texts. Both say the same as long as no clock misleads, and always for moments without an offset.
-/

namespace Bookkeeping.Store

open Service Calendar

/-! ## What is asked for -/

/-- What entries are selected by, with parts of the types that they are declared with. A part that
is none does not restrict the selection. -/
structure Selection where
  archivedToo : Bool := false
  start : Option Moment := none
  stop : Option Moment := none
  kind : Option EntryType := none
  source : Option Int := none
  target : Option String := none
  deriving DecidableEq

namespace Selection

/-- The bounds that are given. -/
def bounds (q : Selection) : List Moment := q.start.toList ++ q.stop.toList

/-- Whether an entry of a user is selected: it is at or after the start and before the end, and the
source may be either of the two that it has. -/
def selects (q : Selection) (user : Int) (e : Entry) : Bool :=
  e.owner == user
    && (q.archivedToo || !e.archived)
    && (q.start.all (fun a => a.instant ≤ e.date.instant)
      && q.stop.all fun b => e.date.instant < b.instant)
    && q.kind.all (· == e.kind)
    && q.source.all (fun id => id == e.source || some id == e.secondary)
    && q.target.all (fun t => some t == e.target)

/-- Whether a stored entry is picked: the same, but its date is compared as text. -/
def picks (q : Selection) (user : Int) (e : StoredEntry) : Bool :=
  e.owner == user
    && (q.archivedToo || !e.archived)
    && within (q.start.map Moment.toText) (q.stop.map Moment.toText) e.date
    && q.kind.all (· == e.kind)
    && q.source.all (fun id => id == e.source || some id == e.secondary)
    && q.target.all (fun t => some t == e.target)

/-- Whether the ids that a statement for a user compares with fit into 64 bits. -/
def fits (q : Selection) (user : Int) : Bool := fitsInteger user && q.source.all fitsInteger

end Selection

/-- A part of a filter as it is read, unless it is null. -/
def declared {α : Type} (read : Value → Option α) (v : Value) : Option (Option α) :=
  if v.isNull then some none else some <$> read v

/-- What a filter selects, if all of its parts are of their types and their texts can be read. -/
def EntryFilter.selection? (f : EntryFilter) : Option Selection := do
  let start ← declared (fun v => (Check.moment "start" v).toOption) f.start
  let stop ← declared (fun v => (Check.moment "end" v).toOption) f.stop
  let kind ← declared Part.kindOf? f.kind
  let source ← declared Value.id? f.source
  let target ← declared Value.text? f.target
  some { archivedToo := f.includeArchived.truthy, start, stop, kind, source, target }

theorem EntryFilter.parts_of_selection (f : EntryFilter) {q : Selection}
    (h : f.selection? = some q) :
    f.includeArchived.truthy = q.archivedToo
      ∧ declared (fun v => (Check.moment "start" v).toOption) f.start = some q.start
      ∧ declared (fun v => (Check.moment "end" v).toOption) f.stop = some q.stop
      ∧ declared Part.kindOf? f.kind = some q.kind
      ∧ declared Value.id? f.source = some q.source
      ∧ declared Value.text? f.target = some q.target := by
  simp only [selection?, Option.bind_eq_bind, Option.bind_eq_some_iff] at h
  obtain ⟨start, hstart, stop, hstop, kind, hkind, source, hsource, target, htarget, h⟩ := h
  cases h
  exact ⟨rfl, hstart, hstop, hkind, hsource, htarget⟩

/-! ### The parts of a filter in a statement -/

section

variable {v : Value}

theorem declared_eq_some {α : Type} {read : Value → Option α} {a : Option α} :
    declared read v = some a ↔
      (v.isNull = true ∧ a = none) ∨ (v.isNull = false ∧ ∃ x, read v = some x ∧ a = some x) := by
  cases hv : v.isNull <;> simp [declared, hv, eq_comm]

/-- A bound is checked, and the statement takes the text of its moment. -/
theorem bound_of_declared {field : String} {b : Option Moment}
    (h : declared (fun v => (Check.moment field v).toOption) v = some b) :
    (if v.isNull then .ok .null else (Check.moment field v).map .moment : Check.Checked Value)
      = .ok ((b.map Value.moment).getD .null) := by
  rcases declared_eq_some.1 h with ⟨hv, rfl⟩ | ⟨hv, m, hm, rfl⟩
  · rw [if_pos hv]
    rfl
  · rw [if_neg (by simp [hv])]
    cases hc : Check.moment field v with
    | error e => simp [hc, Except.toOption] at hm
    | ok a =>
      obtain rfl : a = m := by simpa [hc, Except.toOption] using hm
      rfl

theorem boundText_moment (b : Option Moment) :
    boundText ((b.map Value.moment).getD .null) = .ok (b.map Moment.toText) := by
  cases b <;> rfl

/-- An entry type is checked, and the statement takes it as it is. -/
theorem kind_of_declared {k : Option EntryType} (h : declared Part.kindOf? v = some k) :
    (if v.isNull then .ok .null else (Check.kind v).map .kind : Check.Checked Value)
      = .ok ((k.map Value.kind).getD .null) := by
  rcases declared_eq_some.1 h with ⟨hv, rfl⟩ | ⟨hv, x, hx, rfl⟩
  · rw [if_pos hv]
    rfl
  · have hc : Check.kind v = .ok x := by
      simp [Check.kind, Check.given, hv, hx, bind, Except.bind]
    rw [if_neg (by simp [hv]), hc]
    rfl

theorem filterKind_kind (k : Option EntryType) :
    filterKind ((k.map Value.kind).getD .null) = .ok k := by
  cases k with
  | none => rfl
  | some k => simp [filterKind, Value.isNull, Part.kindOf?, Value.text?]

theorem optionalParam_of_id {n : Option Int} (h : declared Value.id? v = some n) :
    optionalParam v
      = if n.all fitsInteger then .ok (n.map Cell.integer) else .error (.misuse .overflow) := by
  rcases declared_eq_some.1 h with ⟨hv, rfl⟩ | ⟨hv, n, hn, rfl⟩
  · rw [optionalParam, if_pos hv]
    rfl
  · rw [optionalParam, if_neg (by simp [hv]), param_of_id_or_overflow hn]
    cases hf : fitsInteger n <;> simp [hf]

theorem optionalParam_of_text {t : Option String} (h : declared Value.text? v = some t) :
    optionalParam v = .ok (t.map Cell.text) := by
  rcases declared_eq_some.1 h with ⟨hv, rfl⟩ | ⟨hv, s, hs, rfl⟩
  · rw [optionalParam, if_pos hv]
    rfl
  · have hp : param v = .ok (.text s) := by
      cases v <;> cases hs <;> rfl
    rw [optionalParam, if_neg (by simp [hv]), hp]
    rfl

end

/-! ## Picking rows by their texts -/

section

variable {s : Session} {user : Value} {n : Int} {filter : EntryFilter} {q : Selection}

/-- The rows that are listed, the ones with the larger text of a date first. -/
def Ledger.listed (l : Ledger) (n : Int) (q : Selection) : List (Row StoredEntry) :=
  (l.entries.rows.filter fun r => q.picks n r.data).mergeSort listedBefore

theorem isText_ofText? (t : String) (held : Option String) :
    (Cell.text t).isText (.ofText? held) = (some t == held) := by
  cases held with
  | none => rfl
  | some s => exact BEq.comm

/-- What the statement asks of a row without odd cells is what a selection picks by. -/
theorem picks_row {r : Row StoredEntry} (ho : r.odd = []) :
    ((Cell.integer n).isInteger (ownerCell r)
      && (q.archivedToo || !r.data.archived)
      && within (q.start.map Moment.toText) (q.stop.map Moment.toText) r.data.date
      && q.kind.all (· == r.data.kind)
      && optionally (q.source.map Cell.integer)
        (fun c => (StoredEntry.sourceCells r).any c.isInteger)
      && optionally (q.target.map Cell.text) fun c => c.isText (.ofText? r.data.target))
      = q.picks n r.data := by
  have hsource (id : Int) : (StoredEntry.sourceCells r).any (Cell.integer id).isInteger
      = (id == r.data.source || some id == r.data.secondary) := by
    cases hs : r.data.secondary <;>
      simp [StoredEntry.sourceCells, Row.cell_of_odd_nil r ho, hs, Cell.ofInt?, Cell.isInteger,
        Cell.asInteger, Cell.same, BEq.comm]
  simp only [Selection.picks, ownerCell, Row.cell_of_odd_nil r ho, Cell.isInteger_integer,
    optionally, Option.all_map, hsource, isText_ofText?]
  rfl

theorem answer_selectAll (ρ : Type) {α γ : Type} [Persistent ρ α] (hb : s.breaks = none)
    (hl : s.database.layout = .full) (params : Except Failure γ)
    (choose : γ → List (Row ρ) → List (Row ρ)) :
    ((selectAll ρ params choose).exec s).1 = (do
      let c ← params
      decodeAll .full (choose c (Relation.table (ρ := ρ) s.database.ledger).rows)) := by
  obtain ⟨u, hu, -⟩ := exec_selectAll_unbroken ρ hb (by rw [hl]; rfl) params choose
  rw [hu, hl]

theorem exec_listEntries (hb : s.breaks = none) (hl : s.database.layout = .full)
    (ht : s.database.ledger.entries.Tidy) (hu : user.id? = some n)
    (hq : filter.selection? = some q) :
    ((Service.listEntries user filter).exec s).1
      = if q.fits n then decodeAll .full (s.database.ledger.listed n q)
        else .error (.misuse .overflow) := by
  obtain ⟨harchived, hstart, hstop, hkind, hsource, htarget⟩ := filter.parts_of_selection hq
  simp only [Service.listEntries, harchived, bound_of_declared hstart, bound_of_declared hstop,
    kind_of_declared hkind, findFiltered, Op.exec_bind, Op.exec_lift, boundText_moment,
    filterKind_kind, Op.exec_get, hl, Layout.full_tables, Layout.full_target, Bool.not_true,
    Bool.and_false, Bool.false_and, Bool.false_eq_true, if_false]
  rw [answer_selectAll StoredEntry hb hl, param_of_id_or_overflow hu,
    optionalParam_of_id hsource, optionalParam_of_text htarget]
  cases hn : fitsInteger n with
  | false => simp [Selection.fits, hn, bind, Except.bind]
  | true =>
    cases hs : q.source.all fitsInteger with
    | false => simp [Selection.fits, hs, bind, Except.bind]
    | true =>
      simp only [Selection.fits, hn, hs, bind, Except.bind, if_true, Bool.and_self]
      refine congrArg (fun rows => decodeAll .full (List.mergeSort rows listedBefore)) ?_
      exact List.filter_congr fun r hr => picks_row (ht.proper r hr)

end

/-! ## Reading the rows that are picked -/

/-- The record of a stored entry, if it can be read. -/
def StoredEntry.read? (r : Row StoredEntry) : Option (Row Entry) := (toEntry .full r).toOption

theorem StoredEntry.read?_eq_some {r : Row StoredEntry} {e : Row Entry} :
    read? r = some e ↔ toEntry .full r = .ok e := by
  cases h : toEntry .full r <;> simp [read?, h, Except.toOption]

/-- The entries of a ledger as records. -/
def Ledger.readEntries (l : Ledger) : List (Row Entry) := l.entries.rows.filterMap StoredEntry.read?

/-- The dates of the entries of a user, as they are read. -/
def Ledger.datesOf (l : Ledger) (user : Int) : List Moment :=
  (l.readEntries.filter fun e => e.data.owner == user).map fun e => e.data.date

theorem Ledger.mem_datesOf {l : Ledger} {user : Int} {e : Row Entry} (he : e ∈ l.readEntries)
    (ho : e.data.owner = user) : e.data.date ∈ l.datesOf user :=
  List.mem_map.2 ⟨e, List.mem_filter.2 ⟨he, beq_iff_eq.2 ho⟩, rfl⟩

/-- A record that was read from a row: it has the parts of the row, and the date that the text in
the row spells. -/
structure Shows (r : Row StoredEntry) (e : Row Entry) : Prop where
  id : e.id = r.id
  owner : e.data.owner = r.data.owner
  archived : e.data.archived = r.data.archived
  kind : e.data.kind = r.data.kind
  source : e.data.source = r.data.source
  secondary : e.data.secondary = r.data.secondary
  target : e.data.target = r.data.target
  date : ∃ m : Moment, r.data.date = m.toText ∧ e.data.date = m.kept

theorem Written.shows {r : Row StoredEntry} {e : Row Entry} (h : Written r.data) (ho : r.odd = [])
    (he : StoredEntry.toEntry .full r = .ok e) : Shows r e := by
  obtain ⟨m, hm⟩ := h.dated
  obtain ⟨date, createdAt, hdate, -, -, -, -, rfl⟩ := (StoredEntry.toEntry_ok ho).1 he
  have hkept : date = m.kept := by
    rw [StoredEntry.moment, hm, Moment.ofIso_toText] at hdate
    exact (Except.ok.inj hdate).symm
  exact ⟨rfl, rfl, rfl, rfl, rfl, rfl, h.trimmed, m, hm, hkept⟩

/-- Every entry of a ledger that calls lead to can be read. -/
theorem Reachable.shows {db : Database} (h : Reachable db) {r : Row StoredEntry}
    (hr : r ∈ db.ledger.entries.rows) : ∃ e, StoredEntry.toEntry .full r = .ok e ∧ Shows r e := by
  have hi := h.intact.2
  obtain ⟨e, he⟩ := (hi.filed r hr).readable
  exact ⟨e, he, (h.allWritten r hr).shows (hi.entries.proper r hr) he⟩

theorem decodeAll_entries {rows : List (Row StoredEntry)}
    (h : ∀ r ∈ rows, ∃ e, StoredEntry.toEntry .full r = .ok e) :
    decodeAll .full rows = .ok (rows.filterMap StoredEntry.read?) := by
  induction rows with
  | nil => rfl
  | cons r rows ih =>
    obtain ⟨e, he⟩ := h r List.mem_cons_self
    have hrest := ih fun x hx => h x (List.mem_cons_of_mem r hx)
    rw [decodeAll, hrest, List.filterMap_cons_some (StoredEntry.read?_eq_some.2 he)]
    show (do
      let a ← StoredEntry.toEntry .full r
      .ok (a :: rows.filterMap StoredEntry.read?)) = _
    rw [he]
    rfl

theorem Reachable.decodeAll_readEntries {db : Database} (h : Reachable db) :
    decodeAll .full db.ledger.entries.rows = .ok db.ledger.readEntries :=
  decodeAll_entries fun r hr => (h.intact.2.filed r hr).readable

/-! ### What is picked -/

/-- Whether texts of dates are compared with the bounds as the instants that are read from them. -/
def Selection.Compares (q : Selection) (dates : List Moment) : Prop :=
  ∀ m : Moment, m.kept ∈ dates → ∀ b ∈ q.bounds,
    (m.toText < b.toText ↔ m.kept.instant < b.instant)

theorem Selection.within_texts {q : Selection} {m : Moment}
    (h : ∀ b ∈ q.bounds, (m.toText < b.toText ↔ m.kept.instant < b.instant)) :
    within (q.start.map Moment.toText) (q.stop.map Moment.toText) m.toText
      = (q.start.all (fun a => a.instant ≤ m.kept.instant)
        && q.stop.all fun b => m.kept.instant < b.instant) := by
  have hstart : (q.start.map Moment.toText).all (fun a => !decide (m.toText < a))
      = q.start.all fun a => a.instant ≤ m.kept.instant := by
    cases hq : q.start with
    | none => rfl
    | some a =>
      have ha := h a (by simp [bounds, hq])
      simp only [Option.map_some, Option.all_some, ha]
      rw [← decide_not]
      exact decide_eq_decide.2 Int.not_lt
  have hstop : (q.stop.map Moment.toText).all (fun b => decide (m.toText < b))
      = q.stop.all fun b => m.kept.instant < b.instant := by
    cases hq : q.stop with
    | none => rfl
    | some b =>
      have hb := h b (by simp [bounds, hq])
      simp only [Option.map_some, Option.all_some, hb]
  rw [within, hstart, hstop]

theorem Selection.owner_of_selects {q : Selection} {n : Int} {e : Entry}
    (h : q.selects n e = true) : e.owner = n := by
  simp only [selects, Bool.and_eq_true, beq_iff_eq] at h
  obtain ⟨⟨⟨⟨⟨howner, -⟩, -⟩, -⟩, -⟩, -⟩ := h
  exact howner

/-- The date of an entry that is selected is one of the user's dates. -/
theorem Ledger.date_of_selected {l : Ledger} {n : Int} {q : Selection} {e : Row Entry}
    (h : e ∈ l.readEntries.filter fun e => q.selects n e.data) : e.data.date ∈ l.datesOf n := by
  obtain ⟨he, hselected⟩ := List.mem_filter.1 h
  exact mem_datesOf he (Selection.owner_of_selects hselected)

/-- A row is picked if and only if its record is selected. -/
theorem Shows.picks_eq_selects {r : Row StoredEntry} {e : Row Entry} (h : Shows r e) {q : Selection}
    {n : Int} (hdate : e.data.owner = n → ∀ m : Moment, e.data.date = m.kept →
      ∀ b ∈ q.bounds, (m.toText < b.toText ↔ m.kept.instant < b.instant)) :
    q.picks n r.data = q.selects n e.data := by
  by_cases ho : e.data.owner = n
  · obtain ⟨m, hm, he⟩ := h.date
    have hwithin := Selection.within_texts (hdate ho m he)
    rw [Selection.picks, Selection.selects, hm, hwithin, h.owner, h.archived, h.kind, h.source,
      h.secondary, h.target, he]
  · have hr : r.data.owner ≠ n := fun hr => ho (h.owner.trans hr)
    rw [Selection.picks, Selection.selects, beq_eq_false_iff_ne.2 hr, beq_eq_false_iff_ne.2 ho]
    simp only [Bool.false_and]

/-! ### The order of what is picked -/

theorem listedBefore_trans (a b c : Row StoredEntry) (hab : listedBefore a b = true)
    (hbc : listedBefore b c = true) : listedBefore a c = true := by
  simp only [listedBefore, Bool.or_eq_true, Bool.and_eq_true, decide_eq_true_eq, beq_iff_eq] at *
  rcases hab with hab | ⟨hab, hid⟩
  · rcases hbc with hbc | ⟨hbc, -⟩
    · exact .inl (String.lt_trans hbc hab)
    · exact .inl (hbc ▸ hab)
  · rcases hbc with hbc | ⟨hbc, hid'⟩
    · exact .inl (hab ▸ hbc)
    · exact .inr ⟨hab.trans hbc, Int.le_trans hid' hid⟩

theorem listedBefore_total (a b : Row StoredEntry) :
    (listedBefore a b || listedBefore b a) = true := by
  simp only [listedBefore, Bool.or_eq_true, Bool.and_eq_true, decide_eq_true_eq, beq_iff_eq]
  by_cases hba : b.data.date < a.data.date
  · exact .inl (.inl hba)
  by_cases hab : a.data.date < b.data.date
  · exact .inr (.inl hab)
  have heq := String.le_antisymm (String.not_lt.1 hba) (String.not_lt.1 hab)
  rcases Int.le_total b.id a.id with hid | hid
  · exact .inl (.inr ⟨heq, hid⟩)
  · exact .inr (.inr ⟨heq.symm, hid⟩)

/-- An entry above another in a listing: its date has the larger text, or the same text and the
larger id. -/
def ListedAbove (a b : Row Entry) : Prop :=
  ∃ m k : Moment, a.data.date = m.kept ∧ b.data.date = k.kept ∧
    (k.toText < m.toText ∨ (k.toText = m.toText ∧ b.id < a.id))

/-- Of two entries without offsets the one above is the later one, or has the larger id. -/
theorem ListedAbove.by_clock {a b : Row Entry} (h : ListedAbove a b)
    (ha : a.data.date.offset = none) (hb : b.data.date.offset = none) :
    b.data.date.instant < a.data.date.instant ∨ (b.data.date = a.data.date ∧ b.id < a.id) := by
  obtain ⟨m, k, ham, hbk, h⟩ := h
  rw [ham] at ha
  rw [hbk] at hb
  rw [ham, hbk]
  rcases h with hlt | ⟨heq, hid⟩
  · have hm := Moment.kept_of_offset_none ha
    rw [hm] at ha ⊢
    exact .inl ((Moment.toText_lt_iff_of_offset_none hb ha).1 hlt)
  · have hkept : k.kept = m.kept := by
      have hread := Moment.ofIso_toText k
      rw [heq, Moment.ofIso_toText] at hread
      exact (Except.ok.inj hread).symm
    exact .inr ⟨hkept, hid⟩

/-- Of two entries whose clocks agree the one above is not the earlier one. -/
theorem ListedAbove.by_instant {a b : Row Entry} (h : ListedAbove a b)
    (hagree : a.data.date.ClocksAgree b.data.date) :
    b.data.date.instant ≤ a.data.date.instant := by
  obtain ⟨m, k, ham, hbk, h⟩ := h
  rw [ham, hbk] at hagree ⊢
  by_contra hlt
  have hlocal := hagree.1.2 (by omega)
  rw [Moment.localMicros_kept, Moment.localMicros_kept] at hlocal
  have htext := Moment.toText_lt hlocal
  rcases h with h | ⟨h, -⟩
  · exact String.lt_asymm h htext
  · rw [h] at htext
    exact String.lt_irrefl _ htext

section

variable {db : Database} {n : Int} {q : Selection}

theorem mem_of_listed {l : Ledger} {r : Row StoredEntry} (h : r ∈ l.listed n q) :
    r ∈ l.entries.rows :=
  (List.mem_filter.1 ((List.mergeSort_perm _ _).mem_iff.1 h)).1

/-- The rows of a listing are in the order of their texts, and no two of them have one id. -/
theorem pairwise_listed {l : Ledger} (ht : l.entries.Tidy) :
    (l.listed n q).Pairwise fun a b => listedBefore a b = true ∧ a.id ≠ b.id := by
  have hsorted := List.pairwise_mergeSort listedBefore_trans listedBefore_total
    (l.entries.rows.filter fun r => q.picks n r.data)
  have hids : (l.listed n q).Pairwise fun a b => a.id ≠ b.id := by
    refine ((List.mergeSort_perm _ _).pairwise_iff fun h => h.symm).2 ?_
    exact (List.pairwise_map.1 ht.nodup).filter _
  exact hsorted.and hids

/-- What is read from the rows that are picked is what is selected from all that can be read. -/
theorem Reachable.perm_listed (h : Reachable db) (hq : q.Compares (db.ledger.datesOf n)) :
    ((db.ledger.listed n q).filterMap StoredEntry.read?).Perm
      (db.ledger.readEntries.filter fun e => q.selects n e.data) := by
  refine ((List.mergeSort_perm _ _).filterMap _).trans (.of_eq ?_)
  rw [Ledger.readEntries, List.filter_filterMap, List.filterMap_filter]
  -- row by row: to pick a row by its texts is to select its record
  apply List.filterMap_congr
  intro r hr
  obtain ⟨e, he, hshows⟩ := h.shows hr
  have hread := StoredEntry.read?_eq_some.2 he
  have hpicks : q.picks n r.data = q.selects n e.data := hshows.picks_eq_selects fun ho m hm => by
    have hmem := Ledger.mem_datesOf (List.mem_filterMap.2 ⟨r, hr, hread⟩) ho
    exact hq m (hm ▸ hmem)
  rw [hread, hpicks]
  rfl

/-- The entries of a listing stand above each other. -/
theorem Reachable.pairwise_listedAbove (h : Reachable db) :
    ((db.ledger.listed n q).filterMap StoredEntry.read?).Pairwise ListedAbove := by
  rw [List.pairwise_filterMap]
  refine (pairwise_listed h.intact.2.entries).imp_of_mem ?_
  intro r x hr hx hbefore a ha b hb
  obtain ⟨e, he, hr⟩ := h.shows (mem_of_listed hr)
  obtain ⟨f, hf, hx⟩ := h.shows (mem_of_listed hx)
  cases (StoredEntry.read?_eq_some.2 he).symm.trans ha
  cases (StoredEntry.read?_eq_some.2 hf).symm.trans hb
  obtain ⟨m, hm, ham⟩ := hr.date
  obtain ⟨k, hk, hbk⟩ := hx.date
  obtain ⟨hbefore, hne⟩ := hbefore
  simp only [listedBefore, hm, hk, Bool.or_eq_true, Bool.and_eq_true, decide_eq_true_eq,
    beq_iff_eq] at hbefore
  refine ⟨m, k, ham, hbk, ?_⟩
  rw [hr.id, hx.id]
  rcases hbefore with hlt | ⟨heq, hid⟩
  · exact .inl hlt
  · exact .inr ⟨heq.symm, by omega⟩

/-! ## The listing -/

variable {s : Session} {user : Value} {filter : EntryFilter}

/-- The answer to a call that lists entries: the records of the rows that are picked. -/
theorem answer_listEntries (hd : Reachable s.database) (hb : s.breaks = none)
    (hu : user.id? = some n) (hq : filter.selection? = some q) :
    ((Call.listEntries user filter).run.exec s).1
      = if q.fits n then
          .ok (.entries ((s.database.ledger.listed n q).filterMap StoredEntry.read?))
        else .error (.misuse .overflow) := by
  obtain ⟨hlayout, hi⟩ := hd.intact
  have hlist := exec_listEntries hb hlayout hi.entries hu hq
  rw [decodeAll_entries fun r hr => (hi.filed r (mem_of_listed hr)).readable] at hlist
  rw [Call.run, Op.exec_map]
  cases hx : (Service.listEntries user filter).exec s with
  | mk r t =>
    rw [hx] at hlist
    cases hf : q.fits n with
    | true =>
      rw [hf, if_pos rfl] at hlist
      cases hlist
      rfl
    | false =>
      rw [hf, if_neg Bool.false_ne_true] at hlist
      cases hlist
      rfl

/-- A listing shows what is selected, in the order of the texts. -/
theorem listEntries_selects (hd : Reachable s.database) (hb : s.breaks = none)
    (hu : user.id? = some n) (hq : filter.selection? = some q)
    (hcompares : q.Compares (s.database.ledger.datesOf n)) (hfits : q.fits n = true) :
    ∃ es, ((Call.listEntries user filter).run.exec s).1 = .ok (.entries es) ∧
      es.Perm (s.database.ledger.readEntries.filter fun e => q.selects n e.data) ∧
      es.Pairwise ListedAbove :=
  ⟨_, (answer_listEntries hd hb hu hq).trans (if_pos hfits), hd.perm_listed hcompares,
    hd.pairwise_listedAbove⟩

/-- A listing that has to compare with an id beyond 64 bits fails. -/
theorem listEntries_overflows (hd : Reachable s.database) (hb : s.breaks = none)
    (hu : user.id? = some n) (hq : filter.selection? = some q) (hfits : q.fits n = false) :
    ((Call.listEntries user filter).run.exec s).1 = .error (.misuse .overflow) := by
  rw [answer_listEntries hd hb hu hq, hfits, if_neg Bool.false_ne_true]

/-- A listing that is restricted to something else than an entry type is refused. -/
theorem answer_listEntries_otherKind (hq : filter.selection? = some q) {v : Value}
    (hnull : v.isNull = false) (hkind : Part.kindOf? v = none) :
    ((Call.listEntries user { filter with kind := v }).run.exec s).1
      = .error (.rejected (.outside "entry_type" Check.kindReason v)) := by
  obtain ⟨-, hstart, hstop, -⟩ := filter.parts_of_selection hq
  have hcheck : (if v.isNull then .ok .null else (Check.kind v).map .kind : Check.Checked Value)
      = .error (.rejected (.outside "entry_type" Check.kindReason v)) := by
    simp [Check.kind, Check.given, Check.reject, hnull, hkind, bind, Except.bind, Except.map]
  simp only [Call.run, Op.exec_map, Service.listEntries, bound_of_declared hstart,
    bound_of_declared hstop, hcheck, Op.exec_bind, Op.exec_lift]

end

/-- The calls that make an account and one entry at each of some times. -/
def entriesAt (dates : List String) : List Call :=
  firstSpending.take 3 ++ dates.map fun date =>
    .createEntry (.int 1)
      (some { description := .text "Bread", category := .int 1, amount := .float 3,
              date := .text date, currency := .int 1, kind := .text "spend",
              source := .int 1 }) []

theorem reachable_entriesAt (dates : List String) :
    Reachable (newSession.after (entriesAt dates)).database := by
  refine Reachable.after (s := newSession) .migrated rfl fun c hc => ?_
  rcases List.mem_append.1 hc with hc | hc
  · exact typed_firstSpending c (List.mem_of_mem_take hc)
  · obtain ⟨date, -, rfl⟩ := List.mem_map.1 hc
    simp [Call.Typed, Call.ids, EntryRequest.ids, Value.isId, Value.isNull, Value.id?]

end Bookkeeping.Store

namespace Bookkeeping.Service

open Store Calendar

variable {s : Session} {user : Value} {n : Int} {filter : EntryFilter} {q : Selection}

/-! ## Clocks without offsets -/

/-- Entries without offsets are listed by the clock: a listing shows exactly the entries that are
selected, the later ones first, and of those at one time the one with the larger id first. It fails
only for ids beyond 64 bits, and is refused for what is no entry type. -/
theorem Call.listEntries_by_clock (hd : Reachable s.database) (hb : s.breaks = none)
    (hu : user.id? = some n) (hq : filter.selection? = some q)
    (hclock : ∀ m ∈ s.database.ledger.datesOf n ++ q.bounds, m.offset = none) :
    decodeAll .full s.database.ledger.entries.rows = .ok s.database.ledger.readEntries ∧
      (q.fits n = true →
        ∃ es, ((Call.listEntries user filter).run.exec s).1 = .ok (.entries es) ∧
          es.Perm (s.database.ledger.readEntries.filter fun e => q.selects n e.data) ∧
          es.Pairwise fun a b => b.data.date.instant < a.data.date.instant ∨
            b.data.date = a.data.date ∧ b.id < a.id) ∧
      (q.fits n = false →
        ((Call.listEntries user filter).run.exec s).1 = .error (.misuse .overflow)) ∧
      ∀ v : Value, v.isNull = false → Part.kindOf? v = none →
        ((Call.listEntries user { filter with kind := v }).run.exec s).1
          = .error (.rejected (.outside "entry_type" Check.kindReason v)) := by
  have hdates : ∀ m ∈ s.database.ledger.datesOf n, m.offset = none :=
    fun m hm => hclock m (List.mem_append_left _ hm)
  have hcompares : q.Compares (s.database.ledger.datesOf n) := by
    intro m hm b hb
    exact Moment.toText_lt_iff_of_offset_none (hdates _ hm) (hclock b (List.mem_append_right _ hb))
  refine ⟨hd.decodeAll_readEntries, ?_, listEntries_overflows hd hb hu hq, ?_⟩
  · intro hfits
    obtain ⟨es, hanswer, hperm, horder⟩ := listEntries_selects hd hb hu hq hcompares hfits
    have hdate {e : Row Entry} (he : e ∈ es) : e.data.date.offset = none :=
      hdates _ (Ledger.date_of_selected (hperm.mem_iff.1 he))
    exact ⟨es, hanswer, hperm,
      horder.imp_of_mem fun ha hb habove => habove.by_clock (hdate ha) (hdate hb)⟩
  · intro v hnull hkind
    exact answer_listEntries_otherKind hq hnull hkind

/-- Of three entries those are listed that are not before half a second past noon, the one that was
recorded last first. -/
theorem listed_from_noon :
    let s := newSession.after
      (entriesAt ["2024-01-25", "2024-01-25 12:00:00.5", "2024-01-25T12:00:00.500000"])
    let filter : EntryFilter := { start := .text "20240125T120000.5", kind := .text "spend" }
    ∃ es, ((Call.listEntries (.int 1) filter).run.exec s).1 = .ok (.entries es) ∧
      (es.map Row.id).Perm [2, 3] ∧
      es.Pairwise fun a b => b.data.date.instant < a.data.date.instant ∨
        b.data.date = a.data.date ∧ b.id < a.id := by
  intro s filter
  let noon : Moment :=
    ⟨⟨2024, 1, 25, by decide⟩, { hour := 12, minute := 0, second := 0, micro := 500000 }, none⟩
  have hq : filter.selection? = some { start := some noon, kind := some .spend } := by
    decide +kernel
  have hd : Reachable s.database := reachable_entriesAt _
  obtain ⟨hb, hclock, hselected⟩ : s.breaks = none ∧
      (∀ m ∈ s.database.ledger.datesOf 1 ++ [noon], m.offset = none) ∧
      (s.database.ledger.readEntries.filter fun e =>
        Selection.selects { start := some noon, kind := some .spend } 1 e.data).map Row.id
          = [2, 3] := by decide +kernel
  clear_value s
  have hu : (Value.int 1).id? = some 1 := rfl
  obtain ⟨-, hlist, -, -⟩ := Call.listEntries_by_clock hd hb hu hq hclock
  obtain ⟨es, hanswer, hperm, horder⟩ := hlist (by decide)
  exact ⟨es, hanswer, hselected ▸ hperm.map Row.id, horder⟩

/-- No entry has a source whose id takes more than 64 bits, but a listing by such an id fails. -/
theorem listing_by_large_id_fails :
    let s := newSession.after firstSpending
    let filter : EntryFilter := { source := .int 0x8000000000000000 }
    let q : Selection := { source := some 0x8000000000000000 }
    Reachable s.database ∧ s.breaks = none ∧ filter.selection? = some q ∧
      (∀ m ∈ s.database.ledger.datesOf 1 ++ q.bounds, m.offset = none) ∧
      (s.database.ledger.readEntries.filter fun e => q.selects 1 e.data) = [] ∧
      ((Call.listEntries (.int 1) filter).run.exec s).1 = .error (.misuse .overflow) := by
  intro s filter q
  have hd : Reachable s.database := reachable_firstSpending 4
  have hq : filter.selection? = some q := by decide +kernel
  obtain ⟨hb, hclock, hnone⟩ : s.breaks = none ∧
      (∀ m ∈ s.database.ledger.datesOf 1 ++ q.bounds, m.offset = none) ∧
      (s.database.ledger.readEntries.filter fun e => q.selects 1 e.data) = [] := by decide +kernel
  clear_value s
  have hu : (Value.int 1).id? = some 1 := rfl
  refine ⟨hd, hb, hq, hclock, hnone, ?_⟩
  rw [answer_listEntries hd hb hu hq, if_neg (by decide)]

/-! ## Clocks with offsets -/

/-- Entries with offsets are listed by their instants, as long as no clock of an entry misleads with
respect to another one or to a bound. -/
theorem Call.listEntries_by_instant (hd : Reachable s.database) (hb : s.breaks = none)
    (hu : user.id? = some n) (hq : filter.selection? = some q)
    (hoffset : ∀ m ∈ s.database.ledger.datesOf n ++ q.bounds, m.offset.isSome = true)
    (hagree : ∀ a ∈ s.database.ledger.datesOf n,
      ∀ b ∈ s.database.ledger.datesOf n ++ q.bounds, a.ClocksAgree b) :
    decodeAll .full s.database.ledger.entries.rows = .ok s.database.ledger.readEntries ∧
      (q.fits n = true →
        ∃ es, ((Call.listEntries user filter).run.exec s).1 = .ok (.entries es) ∧
          es.Perm (s.database.ledger.readEntries.filter fun e => q.selects n e.data) ∧
          es.Pairwise fun a b => b.data.date.instant ≤ a.data.date.instant) ∧
      (q.fits n = false →
        ((Call.listEntries user filter).run.exec s).1 = .error (.misuse .overflow)) := by
  have hcompares : q.Compares (s.database.ledger.datesOf n) := by
    intro m hm b hb
    have hbound := hoffset b (List.mem_append_right _ hb)
    have hkept : m.offset.isSome = true := by
      have h := hoffset _ (List.mem_append_left _ hm)
      rwa [Moment.kept, Option.isSome_map] at h
    exact Moment.toText_lt_iff (hkept.trans hbound.symm)
      (hagree _ hm b (List.mem_append_right _ hb))
  refine ⟨hd.decodeAll_readEntries, ?_, listEntries_overflows hd hb hu hq⟩
  intro hfits
  obtain ⟨es, hanswer, hperm, horder⟩ := listEntries_selects hd hb hu hq hcompares hfits
  have hdate {e : Row Entry} (he : e ∈ es) : e.data.date ∈ s.database.ledger.datesOf n :=
    Ledger.date_of_selected (hperm.mem_iff.1 he)
  have hpair {a b : Row Entry} (ha : a ∈ es) (hb : b ∈ es) :
      a.data.date.ClocksAgree b.data.date :=
    hagree _ (hdate ha) _ (List.mem_append_left _ (hdate hb))
  exact ⟨es, hanswer, hperm,
    horder.imp_of_mem fun ha hb habove => habove.by_instant (hpair ha hb)⟩

/-- Of two entries on clocks of different offsets the one is listed that is at or after a start on a
third clock. -/
theorem listed_from_noon_elsewhere :
    let s := newSession.after
      (entriesAt ["2024-01-25T10:00:00+02:00", "2024-01-25T13:00:00+01:00"])
    let filter : EntryFilter := { start := .text "2024-01-25T11:30:00Z" }
    ∃ es, ((Call.listEntries (.int 1) filter).run.exec s).1 = .ok (.entries es) ∧
      (es.map Row.id).Perm [2] := by
  intro s filter
  let start : Moment := ⟨⟨2024, 1, 25, by decide⟩,
    { hour := 11, minute := 30, second := 0, micro := 0 }, some .utc⟩
  have hq : filter.selection? = some { start := some start } := by decide +kernel
  have hd : Reachable s.database := reachable_entriesAt _
  obtain ⟨hb, hoffset, hagree, hselected⟩ : s.breaks = none ∧
      (∀ m ∈ s.database.ledger.datesOf 1 ++ [start], m.offset.isSome = true) ∧
      (∀ a ∈ s.database.ledger.datesOf 1,
        ∀ b ∈ s.database.ledger.datesOf 1 ++ [start], a.ClocksAgree b) ∧
      (s.database.ledger.readEntries.filter fun e =>
        Selection.selects { start := some start } 1 e.data).map Row.id = [2] := by decide +kernel
  clear_value s
  have hu : (Value.int 1).id? = some 1 := rfl
  obtain ⟨-, hlist, -⟩ := Call.listEntries_by_instant hd hb hu hq hoffset hagree
  obtain ⟨es, hanswer, hperm, -⟩ := hlist (by decide)
  exact ⟨es, hanswer, hselected ▸ hperm.map Row.id⟩

/-- An entry on a clock ahead of universal time is listed from a start that it is before. -/
theorem listed_before_its_start :
    let s := newSession.after (entriesAt ["2024-01-25T00:30:00+02:00"])
    let filter : EntryFilter := { start := .text "2024-01-25T00:00:00+00:00" }
    let start : Moment := ⟨⟨2024, 1, 25, by decide⟩, .midnight, some .utc⟩
    Reachable s.database ∧ s.breaks = none ∧ filter.selection? = some { start := some start } ∧
      (∀ m ∈ s.database.ledger.datesOf 1 ++ [start], m.offset.isSome = true) ∧
      (s.database.ledger.readEntries.filter fun e =>
        Selection.selects { start := some start } 1 e.data) = [] ∧
      ∃ es, ((Call.listEntries (.int 1) filter).run.exec s).1 = .ok (.entries es) ∧
        es.map Row.id = [1] := by
  intro s filter start
  have hd : Reachable s.database := reachable_entriesAt _
  have hq : filter.selection? = some { start := some start } := by decide +kernel
  obtain ⟨hb, hoffset, hnone, hlisted⟩ : s.breaks = none ∧
      (∀ m ∈ s.database.ledger.datesOf 1 ++ [start], m.offset.isSome = true) ∧
      (s.database.ledger.readEntries.filter fun e =>
        Selection.selects { start := some start } 1 e.data) = [] ∧
      ((s.database.ledger.listed 1 { start := some start }).filterMap
        StoredEntry.read?).map Row.id = [1] := by decide +kernel
  clear_value s
  have hu : (Value.int 1).id? = some 1 := rfl
  exact ⟨hd, hb, hq, hoffset, hnone, _, (answer_listEntries hd hb hu hq).trans (if_pos (by decide)),
    hlisted⟩

end Bookkeeping.Service
