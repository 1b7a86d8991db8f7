import Bookkeeping.Proofs.Listings
import Bookkeeping.Proofs.Overrides
import Bookkeeping.Proofs.Stamps

/-! # The date of an entry as a bound

A text that is given as the date of a new entry is read as a time stamp, and one that bounds a listing
in any form of ISO 8601. An entry is listed from its own date on, and not before it, for every text
that is no count.
-/

namespace Bookkeeping.Calendar

/-- An offset that is read is of no length, or of at least a second. -/
theorem timeNumbers?_offset {bs : List Nat} {c : ClockNumbers} {n : Int}
    (h : timeNumbers? bs = some (c, some n)) : n = 0 ∨ 1000000 ≤ n.natAbs := by
  unfold timeNumbers? at h
  dsimp only at h
  split at h
  · obtain ⟨c', -, h⟩ := Option.bind_eq_some_iff.1 h
    split at h <;> cases h
  · rename_i mark rest _
    obtain ⟨c', -, h⟩ := Option.bind_eq_some_iff.1 h
    by_cases hz : (mark == 90) = true
    · rw [if_pos hz] at h
      split at h
      · cases h
        exact .inl rfl
      · cases h
    · rw [if_neg hz] at h
      obtain ⟨o, -, h⟩ := Option.bind_eq_some_iff.1 h
      by_cases hleft : o.leftOver = true
      · rw [if_pos hleft] at h
        cases h
      · rw [if_neg hleft] at h
        cases h
        by_cases hzero : (o.hour * 60 + o.minute) * 60 + o.second = 0
        · left
          simp [hzero]
        · right
          simp only [beq_iff_eq, hzero, if_false]
          split <;> omega

theorem momentNumbers?_offset {s : String} {date : Nat × Nat × Nat} {c : ClockNumbers} {n : Int}
    (h : momentNumbers? s = some (date, c, some n)) : n = 0 ∨ 1000000 ≤ n.natAbs := by
  unfold momentNumbers? at h
  dsimp only at h
  split at h
  · cases h
  · obtain ⟨size, -, h⟩ := Option.bind_eq_some_iff.1 h
    obtain ⟨date', -, h⟩ := Option.bind_eq_some_iff.1 h
    split at h
    · cases h
    · obtain ⟨⟨c', offset⟩, htime, h⟩ := Option.bind_eq_some_iff.1 h
      cases h
      exact timeNumbers?_offset htime

/-- A moment that is read has lost no part of its offset. -/
theorem Moment.kept_of_ofIso {s : String} {m : Moment} (h : Moment.ofIso s = .ok m) :
    m.kept = m := by
  obtain ⟨year, month, day, c, hnumbers, -⟩ := Moment.ofIso_eq_ok h
  cases ho : m.offset with
  | none => rw [Moment.kept, ho, Option.map_none, ← ho]
  | some o =>
    rw [ho] at hnumbers
    have hkept : o.kept = o := by
      rw [Offset.kept]
      split
      · rename_i hlt
        have hmicros : o.micros = 0 := by
          rcases momentNumbers?_offset hnumbers with h | h
          · exact h
          · omega
        obtain ⟨n, hn⟩ := o
        cases hmicros
        rfl
      · rfl
    rw [Moment.kept, ho, Option.map_some, hkept, ← ho]

end Bookkeeping.Calendar

namespace Bookkeeping.Service

open Store Calendar

/-- The ways to give a text for the date of a new entry: among the fields of the call, in a request that
was read from fields, or as a field put over a request. -/
inductive Dated (text : String) : Option EntryRequest → List (String × Value) → Prop where
  | fields {fields : List (String × Value)} (h : fields.lookup "date" = some (.text text)) :
      Dated text none fields
  | request {given fields : List (String × Value)} {item : Item EntryRequest}
      (hread : EntryRequest.read given = .ok item) (h : given.lookup "date" = some (.text text))
      (hfields : fields.lookup "date" = none) : Dated text (some item.data) fields
  | override {r : EntryRequest} {fields : List (String × Value)}
      (h : fields.lookup "date" = some (.text text)) : Dated text (some r) fields

section

variable {text : String} {s t : Session}

theorem momentOrDate_of_readsAs {given : List (String × Value)} {w : Value}
    (h : Part.ReadsAs Part.momentOrDate (fun v => v) (Value.field given "date") w)
    (hdate : given.lookup "date" = some (.text text)) : Part.momentOrDate (.text text) = .ok w := by
  rw [Value.field, hdate] at h
  rcases h with ⟨hnull, -⟩ | ⟨a, ha, rfl⟩
  · cases hnull
  · exact ha

/-- A field that is put over a request takes the place of its date. -/
theorem override_date (r : EntryRequest) (fields : List (String × Value)) :
    (r.override fields).date = (fields.lookup "date").getD r.date := by
  show (((fields ++ r.parts).lookup "date").getD .null) = _
  rw [List.lookup_append]
  cases fields.lookup "date" <;> rfl

/-- The date of the request is the text, or what it is read as. -/
theorem Dated.date {data : Option EntryRequest} {fields : List (String × Value)}
    (h : Dated text data fields) {r : EntryRequest} (hr : (requestOf data fields).exec s = (.ok r, t)) :
    r.date = .text text ∨ Part.momentOrDate (.text text) = .ok r.date := by
  cases h with
  | fields hdate =>
    right
    obtain ⟨item, hread, rfl⟩ := read_of_requestOf hr
    exact momentOrDate_of_readsAs (readsAs_of_read hread).date hdate
  | @request given fields item hread hdate hfields =>
    right
    rw [requestOf_some] at hr
    obtain ⟨rfl, rfl⟩ := Op.pure_ok hr
    rw [override_date, hfields]
    exact momentOrDate_of_readsAs (readsAs_of_read hread).date hdate
  | @override r fields hdate =>
    left
    rw [requestOf_some] at hr
    obtain ⟨rfl, rfl⟩ := Op.pure_ok hr
    rw [override_date, hdate, Option.getD_some]

/-- A text that is checked is read in any form of ISO 8601. -/
theorem moment_text {field : String} {m : Moment} :
    Check.moment field (.text text) = .ok m ↔ Moment.ofIso (Text.strip text) = .ok m := by
  cases h : Moment.ofIso (Text.strip text) <;>
    simp [Check.moment, Check.given, Check.reject, Value.isNull, Value.text?, h, bind, Except.bind]

/-- A text that is read for a new entry is read as a time stamp. -/
theorem momentOrDate_text {v : Value} :
    Part.momentOrDate (.text text) = .ok v ↔
      ∃ m, Stamp.ofText? text = some (.moment m) ∧ v = .moment m := by
  unfold Part.momentOrDate Part.stamp
  dsimp only
  cases Stamp.ofText? text with
  | none => exact iff_of_false Reading.flaws_ne_ok (by simp)
  | some stamp => cases stamp with
    | moment m =>
      show Reading.ok (.moment m) = Reading.ok v ↔ _
      simp [eq_comm]
    | yearZero => exact iff_of_false Reading.flaws_ne_ok (by simp)

/-- Where both take a text that is no count, they take it for the same moment. -/
theorem moment_agrees (hcount : Stamp.ofCountText? text = none) {v : Value} {m m' : Moment}
    {field bound : String} (hv : v = .text text ∨ Part.momentOrDate (.text text) = .ok v)
    (hm : Check.moment field v = .ok m) (hm' : Check.moment bound (.text text) = .ok m') : m' = m := by
  have hread := moment_text.1 hm'
  rcases hv with rfl | hv
  · exact Except.ok.inj (hread.symm.trans (moment_text.1 hm))
  · obtain ⟨k, hk, rfl⟩ := momentOrDate_text.1 hv
    cases hm
    exact Stamp.ofText?_agrees hcount hk hread

/-! ## Listings -/

/-- A text is within the bounds that start at it. -/
theorem within_from_self (date : String) : within (some date) none date = true := by
  simp only [within, Option.all_some, Option.all_none, decide_eq_false (String.lt_irrefl date),
    Bool.not_false, Bool.and_true]

/-- No text is within bounds that stop at it. -/
theorem within_to_self (start : Option String) (date : String) :
    within start (some date) date = false := by
  simp only [within, Option.all_some, decide_eq_false (String.lt_irrefl date), Bool.and_false]

/-- A row whose date has the text of a bound is picked from there on, and by no bound before it. -/
theorem picks_own_date {r : Row StoredEntry} {m : Moment} (hdate : r.data.date = m.toText) :
    (r.data.archived = false → Selection.picks { start := some m } r.data.owner r.data = true) ∧
      ∀ (q : Selection) n, q.stop = some m → q.picks n r.data = false := by
  constructor
  · intro harchived
    simp [Selection.picks, within_from_self, hdate, harchived]
  · intro q n hstop
    simp [Selection.picks, within_to_self, hdate, hstop]

theorem mem_listed {l : Ledger} {q : Selection} {n : Int} {r : Row StoredEntry} :
    r ∈ l.listed n q ↔ r ∈ l.entries.rows ∧ q.picks n r.data = true :=
  (List.mergeSort_perm _ _).mem_iff.trans List.mem_filter

/-- A bound that is put in a filter, and what is selected then. -/
theorem selection_stop {filter : EntryFilter} {q : Selection} {v : Value} {b : Option Moment}
    (hq : filter.selection? = some q)
    (hv : declared (fun v => (Check.moment "end" v).toOption) v = some b) :
    EntryFilter.selection? { filter with stop := v } = some { q with stop := b } := by
  obtain ⟨harchived, hstart, -, hkind, hsource, htarget⟩ := filter.parts_of_selection hq
  simp only [EntryFilter.selection?, harchived, hstart, hv, hkind, hsource, htarget,
    Option.bind_eq_bind, Option.bind_some]

theorem declared_moment {bound : String} {m : Moment} (h : Check.moment bound (.text text) = .ok m) :
    declared (fun v => (Check.moment bound v).toOption) (.text text) = some (some m) :=
  declared_eq_some.2 (.inr ⟨rfl, m, by rw [h]; rfl, rfl⟩)

section

variable {data : Option EntryRequest} {fields : List (String × Value)} {user : Value} {n : Int}
  {a : Row Entry} {m : Moment} {field : String}

/-- A call that records an entry under a text that is no count leaves a row with the text of the moment
that the text is read as. -/
theorem row_of_dated (hcount : Stamp.ofCountText? text = none) (hdated : Dated text data fields)
    (hs : s.Idle) (hi : Intact s.database.ledger) (huser : user.id? = some n)
    (htyped : (Call.createEntry user data fields).Typed)
    (hx : (Call.createEntry user data fields).run.exec s = (.ok (.entry (some a)), t))
    (hm : Check.moment field (.text text) = .ok m) :
    ∃ r, t.database.ledger.entries.find? a.id = some r ∧ r.id = a.id ∧ r.data.owner = n ∧
      fitsInteger n = true ∧ r.data.date = m.toText ∧ r.data.archived = false ∧
      StoredEntry.toEntry .full r = .ok a ∧ a.data.date = m := by
  obtain ⟨r, c, category, currency, source, fixed, description, party, hreq, hc, -, hfits, x, hfind,
    rfl, hread⟩ := createEntry_row hs hi huser htyped hx
  have hkept := Moment.kept_of_ofIso (moment_text.1 hm)
  have hm : m = c.date := moment_agrees hcount (hdated.date hreq) hc.date hm
  obtain ⟨date, createdAt, hmoment, -, -, -, -, hrow⟩ := (StoredEntry.toEntry_ok rfl).1 hread
  have hsame : a.data.date = c.date.kept := by
    rw [StoredEntry.moment, StoredEntry.ofEntry, entryOf, Moment.ofIso_toText] at hmoment
    rw [hrow]
    exact (Except.ok.inj hmoment).symm
  refine ⟨_, hfind, rfl, rfl, hfits, congrArg Moment.toText hm.symm, rfl, hread, ?_⟩
  rw [hsame, ← hm, hkept]

end

end

/-- An entry whose date is given as a text that is no count has the moment for its date that the text
names as a bound. As long as its row is left as it was made, it is listed from that text on, and no
listing before that text shows it. -/
theorem Call.listed_from_own_date {text : String} (hcount : Stamp.ofCountText? text = none)
    {data : Option EntryRequest} {fields : List (String × Value)} (hdated : Dated text data fields)
    {s t : Session} (hd : Reachable s.database) (ho : s.inTransaction = false)
    (hfuse : s.fuse = none) (hbreaks : s.breaks = none) {user : Value} {n : Int}
    (huser : user.id? = some n) (htyped : (Call.createEntry user data fields).Typed) {a : Row Entry}
    (hx : (Call.createEntry user data fields).run.exec s = (.ok (.entry (some a)), t)) {m : Moment}
    {field : String} (hm : Check.moment field (.text text) = .ok m) :
    a.data.date = m ∧
      ∀ v : Session, Reachable v.database → v.breaks = none →
        v.database.ledger.entries.find? a.id = t.database.ledger.entries.find? a.id →
        (∃ es, ((Call.listEntries user { start := .text text }).run.exec v).1 = .ok (.entries es) ∧
          a ∈ es) ∧
        ∀ (filter : EntryFilter) q, filter.selection? = some q → ∀ es,
          ((Call.listEntries user { filter with stop := .text text }).run.exec v).1
            = .ok (.entries es) → ∀ e ∈ es, e.id ≠ a.id := by
  obtain ⟨hlayout, hi⟩ := hd.intact
  obtain ⟨r, hfind, hid, rfl, hfits, hdate, harchived, hread, hmoment⟩ :=
    row_of_dated hcount hdated ⟨ho, hlayout, hfuse, hbreaks⟩ hi huser htyped hx hm
  refine ⟨hmoment, fun v hv hb hsame => ?_⟩
  have hbound (bound : String) : Check.moment bound (.text text) = .ok m :=
    moment_text.2 (moment_text.1 hm)
  have hmem : r ∈ v.database.ledger.entries.rows := List.mem_of_find?_eq_some (hsame.trans hfind)
  obtain ⟨hpicked, hnever⟩ := picks_own_date hdate
  constructor
  · have hq : EntryFilter.selection? { start := .text text } = some { start := some m } := by
      rw [EntryFilter.selection?, declared_moment (hbound "start")]
      rfl
    refine ⟨_, (answer_listEntries hv hb huser hq).trans (if_pos ?_), List.mem_filterMap.2 ⟨r, ?_, ?_⟩⟩
    · simpa [Selection.fits] using hfits
    · exact mem_listed.2 ⟨hmem, hpicked harchived⟩
    · exact StoredEntry.read?_eq_some.2 hread
  · intro filter q hq es hlist e he hsameid
    have hq' : EntryFilter.selection? { filter with stop := .text text }
        = some { q with stop := some m } := selection_stop hq (declared_moment (hbound "end"))
    rw [answer_listEntries hv hb huser hq'] at hlist
    split at hlist
    · cases hlist
      obtain ⟨x, hx, hxe⟩ := List.mem_filterMap.1 he
      obtain ⟨hxmem, hpicks⟩ := mem_listed.1 hx
      obtain ⟨e', he', hshows⟩ := hv.shows hxmem
      cases (StoredEntry.read?_eq_some.2 he').symm.trans hxe
      have hxr : x = r :=
        hv.intact.2.entries.eq_of_id hxmem hmem (hshows.id.symm.trans (hsameid.trans hid.symm))
      rw [hxr, hnever _ _ rfl] at hpicks
      cases hpicks
    · cases hlist

/-- The fields of a request to record what was spent on tea. -/
def teaAt (date : String) : List (String × Value) :=
  [("description", .text "Tea"), ("category_id", .int 1), ("amount", .text "2.50"),
    ("date", .text date), ("currency_id", .int 1), ("entry_type", .text "spend"),
    ("source_id", .int 1)]

/-- A recorded entry, if a call was made to record one and succeeded. -/
def Answer.recorded? : Except Failure Answer → Option (Row Entry)
  | .ok (.entry e) => e
  | _ => none

theorem Answer.recorded?_eq_some {answer : Except Failure Answer} {a : Row Entry} :
    recorded? answer = some a ↔ answer = .ok (.entry (some a)) := by
  unfold recorded?
  split <;> simp_all

/-- Tea at half past noon on a clock ahead of universal time is listed from then on, and not before. -/
theorem tea_listed_from_half_past_noon :
    let s := newSession.after (firstSpending.take 3)
    let date := "2024-01-25 12:30:00,5+01:00"
    ∃ a t, (Call.createEntry (.int 1) none (teaAt date)).run.exec s = (.ok (.entry (some a)), t) ∧
      (∃ es, ((Call.listEntries (.int 1) { start := .text date }).run.exec t).1
        = .ok (.entries es) ∧ a ∈ es) ∧
      ∀ es, ((Call.listEntries (.int 1) { stop := .text date }).run.exec t).1
        = .ok (.entries es) → ∀ e ∈ es, e.id ≠ a.id := by
  intro s date
  have hd : Reachable s.database := Reachable.after (s := newSession) .migrated rfl fun c hc =>
    typed_firstSpending c (List.mem_of_mem_take hc)
  have htyped : (Call.createEntry (.int 1) none (teaAt date)).Typed := by
    simp [Call.Typed, Call.ids, Value.isId, Value.isNull, Value.id?]
  have hread : ∃ m, Check.moment "start" (.text date) = .ok m := by
    have hok : (Check.moment "start" (.text date)).isOk = true := by decide +kernel
    cases h : Check.moment "start" (.text date) with
    | ok m => exact ⟨m, rfl⟩
    | error e =>
      rw [h] at hok
      cases hok
  obtain ⟨ho, hfuse, hbreaks, hsome, hb⟩ : s.inTransaction = false ∧ s.fuse = none ∧
      s.breaks = none ∧
      (Answer.recorded? ((Call.createEntry (.int 1) none (teaAt date)).run.exec s).1).isSome = true ∧
      ((Call.createEntry (.int 1) none (teaAt date)).run.exec s).2.breaks = none := by decide +kernel
  have hcount : Stamp.ofCountText? date = none := by decide +kernel
  have hdated : Dated date none (teaAt date) := .fields rfl
  clear_value s
  obtain ⟨m, hm⟩ := hread
  obtain ⟨a, ha⟩ := Option.isSome_iff_exists.1 hsome
  have hx : (Call.createEntry (.int 1) none (teaAt date)).run.exec s
      = (.ok (.entry (some a)), ((Call.createEntry (.int 1) none (teaAt date)).run.exec s).2) := by
    rw [← Answer.recorded?_eq_some.1 ha]
  obtain ⟨-, hlist⟩ := Call.listed_from_own_date hcount hdated hd ho hfuse hbreaks rfl htyped hx hm
  obtain ⟨hstart, hstop⟩ := hlist _ (.call hd (Session.not_inBlock ho) htyped) hb rfl
  exact ⟨a, _, hx, hstart, hstop {} {} rfl⟩

/-- Eight digits are a count of seconds for the date of an entry and a day of the calendar for a bound:
tea at such a date is not listed from there on. -/
theorem digits_not_listed_from_own_date :
    let s := newSession.after (firstSpending.take 3)
    ∃ a t, (Call.createEntry (.int 1) none (teaAt "20240125")).run.exec s
        = (.ok (.entry (some a)), t) ∧
      a.data.date.date.toText = "1970-08-23" ∧
      Check.moment "start" (.text "20240125") = .ok (.ofDate ⟨2024, 1, 25, by decide⟩) ∧
      ((Call.listEntries (.int 1) { start := .text "20240125" }).run.exec t).1 = .ok (.entries []) := by
  intro s
  let start : Moment := .ofDate ⟨2024, 1, 25, by decide⟩
  have hd : Reachable s.database := Reachable.after (s := newSession) .migrated rfl fun c hc =>
    typed_firstSpending c (List.mem_of_mem_take hc)
  have htyped : (Call.createEntry (.int 1) none (teaAt "20240125")).Typed := by
    simp [Call.Typed, Call.ids, Value.isId, Value.isNull, Value.id?]
  have hq : EntryFilter.selection? { start := .text "20240125" } = some { start := some start } := by
    decide +kernel
  obtain ⟨ho, hx⟩ : s.inTransaction = false ∧
      ((Answer.recorded? ((Call.createEntry (.int 1) none (teaAt "20240125")).run.exec s).1).any
        fun a => a.data.date.date.toText == "1970-08-23") = true := by decide +kernel
  obtain ⟨hb, hlist⟩ :
      ((Call.createEntry (.int 1) none (teaAt "20240125")).run.exec s).2.breaks = none ∧
      ((((Call.createEntry (.int 1) none (teaAt "20240125")).run.exec s).2.database.ledger.listed 1
        { start := some start }).filterMap StoredEntry.read?).isEmpty = true := by decide +kernel
  clear_value s
  obtain ⟨a, ha, hdate⟩ := (Option.any_eq_true _ _).1 hx
  refine ⟨a, ((Call.createEntry (.int 1) none (teaAt "20240125")).run.exec s).2, ?_,
    by simpa using hdate, rfl, ?_⟩
  · rw [← Answer.recorded?_eq_some.1 ha]
  · rw [answer_listEntries (.call hd (Session.not_inBlock ho) htyped) hb rfl hq, if_pos (by decide),
      List.isEmpty_iff.1 hlist]

end Bookkeeping.Service
