import Bookkeeping.Proofs.EntryCalls
import Bookkeeping.Proofs.Requests

/-! # Recording an entry

An entry is recorded for rows of its user that are active. Its row is stored, its shifts are found
and applied, all in one transaction; if any of this fails nothing is left of it. Here is what must
hold for that to succeed, and what it leaves.
-/

namespace Bookkeeping.Service

open Store Number

variable {s t : Session}

/-! ## What it takes -/

/-- The rows that an entry is recorded for. They are active and the user's own, and an amount in
another currency than that of the source can be converted. -/
structure Placed (l : Ledger) (user : Value) (r : EntryRequest) (c : Checked)
    (category : Row Category) (currency : Row Currency) (source : Row Source) : Prop where
  held : currency.id = source.data.currency ∨ c.kind.isTransfer = false ∧ c.rate.isSome = true
  category : l.categories.Offers user r.category category
  currency : l.currencies.Offers user r.currency currency
  source : l.sources.Offers user r.source source
  secondary : r.secondary.isNull = false → ∃ x, l.sources.Offers user r.secondary x

/-- The factor to the fixed currency: a given one, or that of the entry's currency. -/
def Fixes (r : EntryRequest) (currency : Row Currency) (x : Float) : Prop :=
  if r.rateToFixed.isNull then x = currency.data.rate
  else Check.rate "conversion_rate_to_fixed" r.rateToFixed = .ok x

theorem exec_fixed_ok {r : EntryRequest} {currency : Row Currency} {x : Float} :
    (if r.rateToFixed.isNull = true then pure currency.data.rate
      else Op.lift (Check.rate "conversion_rate_to_fixed" r.rateToFixed) : Op Float).exec s
        = (.ok x, t) ↔ s = t ∧ Fixes r currency x := by
  unfold Fixes
  split
  · simp [and_comm, eq_comm]
  · rw [Op.exec_lift, Prod.mk.injEq, and_comm]

/-- The fields of the entry of a request. -/
def entryFields (user : Value) (r : EntryRequest) (c : Checked) (category currency source : Int)
    (fixed : Float) : List (String × Value) :=
  [("user_id", user), ("description", r.description),
    ("target", if r.target.truthy then r.target else .null), ("category_id", .int category),
    ("amount", .float c.amount), ("date", .moment c.date), ("currency_id", .int currency),
    ("entry_type", .kind c.kind), ("source_id", .int source),
    ("secondary_source_id", r.secondary), ("conversion_rate", Value.ofFloat? c.rate),
    ("conversion_rate_to_fixed", .float fixed)]

/-- The entry of a request, with its texts as they are read. -/
def entryOf (owner : Int) (r : EntryRequest) (c : Checked) (category currency source : Int)
    (fixed : Float) (text : String) (party : Option String) : Entry where
  owner := owner
  description := text
  target := party
  category := category
  amount := c.amount
  date := c.date
  currency := currency
  kind := c.kind
  source := source
  secondary := r.secondary.id?
  rate := c.rate
  rateToFixed := fixed

theorem read_entryFields {user : Value} {owner : Int} {r : EntryRequest} {c : Checked}
    {category currency source : Int} {fixed : Float} {item : Item Entry}
    (howner : user.id? = some owner) (hsecond : r.secondary.isId = true) :
    Entry.read (entryFields user r c category currency source fixed) = .ok item ↔
      ∃ text party, Part.text r.description = .ok text ∧
        Part.optional Part.text (if r.target.truthy then r.target else .null) = .ok party ∧
        isFinite c.amount = true ∧ (∀ x ∈ c.rate, isFinite x = true) ∧ isFinite fixed = true ∧
        item = { data := entryOf owner r c category currency source fixed text party } := by
  rw [entryFields, Entry.read_ok, Part.int_eq howner, Part.optional_int_eq hsecond]
  simp [entryOf]

/-- What must hold for an entry to be recorded, with the entry and its shifts. -/
structure Recordable (s : Session) (user : Value) (r : EntryRequest) (c : Checked) (e : Entry)
    (a : Row Entry) (shifts : List Shift) : Prop where
  read : ∃ category currency source fixed,
    Placed s.database.ledger user r c category currency source ∧ Fixes r currency fixed ∧
    Entry.read (entryFields user r c category.id currency.id source.id fixed) = .ok { data := e } ∧
    (a.data.shifts (some source.data)).mapError Failure.misuse = .ok shifts
  stored : Insertable s.enforce s.database.ledger (StoredEntry.ofEntry s.now e)
  readable : StoredEntry.toEntry .full
    ⟨s.database.ledger.entries.nextId, StoredEntry.ofEntry s.now e, []⟩ = .ok a
  bears : s.database.ledger.Bears shifts

theorem checkCurrency_ok {c : Checked} {currency : Row Currency} {primary : Row Source} {u : Unit} :
    (checkCurrency c currency primary).exec s = (.ok u, t) ↔ s = t ∧
      (currency.id = primary.data.currency ∨ c.kind.isTransfer = false ∧ c.rate.isSome = true) := by
  unfold checkCurrency
  by_cases hc : currency.id = primary.data.currency
  · simp [hc]
  · cases hk : c.kind.isTransfer <;> cases hr : c.rate <;> simp [hc]

theorem recordOf_ok {α : Type} [Record α] {fields : List (String × Value)} {a : α} :
    (recordOf α fields).exec s = (.ok a, t) ↔
      s = t ∧ ∃ item, Record.read (α := α) fields = .ok item ∧ item.data = a := by
  constructor
  · intro hx
    obtain ⟨hr, rfl⟩ := Op.lift_ok hx
    exact ⟨rfl, read_of_recordOf hr⟩
  · rintro ⟨rfl, item, hr, rfl⟩
    have hf : (Record.read (α := α) fields).orFail (Record.title α) = .ok item :=
      Reading.orFail_eq_ok.2 hr
    rw [recordOf, Op.exec_lift, hf]
    rfl

/-- Recording an entry takes what is asked for, and leaves the entry and its shifts. -/
theorem recordEntry_ok (hs : s.Idle) (hi : Intact s.database.ledger) {user : Value}
    {r : EntryRequest} {c : Checked} {a : Row Entry} {shifts : List Shift} (hu : user.isId = true)
    (hids : ∀ v ∈ r.ids, v.isId = true)
    (hx : (recordEntry user r c).exec s = (.ok (a, shifts), t)) :
    ∃ e, Recordable s user r c e a shifts ∧ t = (s.start.put
      { s.database.ledger.shiftAll shifts with
        entries := s.database.ledger.entries.insert (StoredEntry.ofEntry s.now e) }).commit := by
  obtain ⟨v, hv, rfl⟩ := transaction_ok hs.not_inBlock hx
  have hr := hs.ready
  obtain ⟨category, x₁, hgot₁, h₁⟩ := Op.bind_ok hv
  obtain ⟨rfl, cat, hcat, hcatr⟩ :=
    (loadActive_ok hr hi hi.categories _ hu (hids _ (by simp [EntryRequest.ids]))).1 hgot₁
  obtain ⟨currency, x₂, hgot₂, h₂⟩ := Op.bind_ok h₁
  obtain ⟨rfl, cur, hcur, hcurr⟩ :=
    (loadActive_ok hr hi hi.currencies _ hu (hids _ (by simp [EntryRequest.ids]))).1 hgot₂
  obtain ⟨primary, x₃, hgot₃, h₃⟩ := Op.bind_ok h₂
  obtain ⟨rfl, src, hsrc, hsrcr⟩ :=
    (loadActive_ok hr hi hi.sources _ hu (hids _ (by simp [EntryRequest.ids]))).1 hgot₃
  dsimp only at h₃
  obtain ⟨x₄, hskip, hload, h₄⟩ := Op.whether_ok h₃
  have hsecond : x₄ = s.start ∧ (r.secondary.isNull = false →
      ∃ x, s.database.ledger.sources.Offers user r.secondary x) := by
    cases hn : r.secondary.isNull with
    | true => exact ⟨hskip (by simp [hn]), fun h => by cases h⟩
    | false =>
      obtain ⟨y, hy⟩ := hload (by simp [hn])
      obtain ⟨hx₄, x, hx, -⟩ :=
        (loadActive_ok hr hi hi.sources _ hu (hids _ (by simp [EntryRequest.ids]))).1 hy
      exact ⟨hx₄, fun _ => ⟨x, hx⟩⟩
  obtain ⟨rfl, hsecond⟩ := hsecond
  obtain ⟨_, x₅, hcheck, h₅⟩ := Op.bind_ok h₄
  obtain ⟨rfl, hheld⟩ := checkCurrency_ok.1 hcheck
  obtain ⟨n, -, -, -, rfl⟩ := (reread_currency (hi.currencies.tidy.proper cur hcur.mem)).1 hcurr
  obtain ⟨k, -, -, rfl⟩ := (reread_source (hi.sources.tidy.proper src hsrc.mem)).1 hsrcr
  obtain ⟨hcatid, -⟩ := LawfulNamed.read_eq cat category (hi.categories.tidy.proper cat hcat.mem) hcatr
  rw [hcatid] at h₅
  obtain ⟨fixed, x₆, hfixed, h₆⟩ := Op.either_ok h₅
  obtain ⟨rfl, hfixes⟩ := exec_fixed_ok.1 hfixed
  obtain ⟨e, x₇, hrec, h₇⟩ := Op.bind_ok h₆
  obtain ⟨rfl, item, hread, rfl⟩ := recordOf_ok.1 hrec
  obtain ⟨row, x₈, hins, h₈⟩ := Op.bind_ok h₇
  obtain ⟨hstored, hreadable, rfl⟩ := (insert_ok hr hi.entries).1 hins
  obtain ⟨shifts', x₉, hfound, h₉⟩ := Op.bind_ok h₈
  obtain ⟨hshifts, rfl⟩ := Op.lift_ok hfound
  obtain ⟨_, x₁₀, happly, hp⟩ := Op.bind_ok h₉
  obtain ⟨hout, rfl⟩ := Op.pure_ok hp
  obtain ⟨rfl, rfl⟩ := Prod.mk.inj hout
  obtain ⟨hbears, rfl⟩ := applyShifts_ok (hr.put _) (by exact hi.sources.tidy) happly
  rw [map_directed_one] at hbears ⊢
  refine ⟨item.data, ⟨⟨cat, cur, src, fixed, ⟨hheld, hcat, hcur, hsrc, hsecond⟩, hfixes, ?_, ?_⟩,
    hstored, hreadable, (bears_withEntries _).1 hbears⟩, ?_⟩
  · have hitem : item = { data := item.data } := by
      obtain ⟨owner, text, party, second, -, -, -, -, -, -, -, rfl⟩ := Entry.read_ok.1 hread
      rfl
    exact hread.trans (congrArg Reading.ok hitem)
  · exact (congrArg (Except.mapError Failure.misuse) (shifts_congr _ rfl)).trans hshifts
  · rw [Session.ledger_put, ← shiftAll_withEntries]
    rfl

/-- An entry shifts its own source, and the second one only if it moves money there. -/
theorem shifts_cases {e : Entry} {p : Option Source} {shifts : List Shift}
    (h : (e.shifts p).mapError Failure.misuse = .ok shifts) :
    (∃ d, shifts = [⟨some e.source, d⟩]) ∨
      e.kind.isTransfer = true ∧ ∃ d d', shifts = [⟨some e.source, d⟩, ⟨e.secondary, d'⟩] := by
  unfold Entry.shifts at h
  cases hk : e.kind.isTransfer with
  | true =>
    cases hg : Entry.converted e.amount e.rate with
    | error f => simp [hk, hg, bind, Except.bind, Except.mapError] at h
    | ok gained =>
      obtain rfl : [⟨some e.source, -e.amount⟩, ⟨e.secondary, gained⟩] = shifts := by
        simpa [hk, hg, bind, Except.bind, Except.mapError] using h
      exact .inr ⟨rfl, _, _, rfl⟩
  | false =>
    cases p with
    | none => simp [hk, Except.mapError] at h
    | some p =>
      left
      by_cases hc : e.currency = p.currency
      · obtain rfl : [⟨some e.source, Shift.signed e.kind.sign e.amount⟩] = shifts := by
          simpa [hk, hc, bind, Except.bind, Except.mapError] using h
        exact ⟨_, rfl⟩
      · cases hv : Entry.converted e.amount e.rate with
        | error f => simp [hk, hc, hv, bind, Except.bind, Except.mapError] at h
        | ok value =>
          obtain rfl : [⟨some e.source, Shift.signed e.kind.sign value⟩] = shifts := by
            simpa [hk, hc, hv, bind, Except.bind, Except.mapError] using h
          exact ⟨_, rfl⟩

/-- What is recorded shifts sources that there are. -/
theorem Recordable.shifted {user : Value} {r : EntryRequest} {c : Checked} {e : Entry}
    {a : Row Entry} {shifts : List Shift} (h : Recordable s user r c e a shifts)
    (hids : ∀ v ∈ r.ids, v.isId = true)
    (hsecond : c.kind.isTransfer = true → r.secondary.isNull = false) :
    ∀ x ∈ shifts, ∃ id, x.source = some id ∧ s.database.ledger.sources.Has id := by
  obtain ⟨⟨cat, cur, src, fixed, hplaced, -, hread, hshifts⟩, -, hreadable, -⟩ := h
  obtain ⟨date, createdAt, -, -, -, -, -, rfl⟩ := (StoredEntry.toEntry_ok rfl).1 hreadable
  obtain ⟨text, party, -, -, -, -, -, hitem⟩ := (read_entryFields hplaced.category.owner
    (hids _ (by simp [EntryRequest.ids]))).1 hread
  obtain rfl : e = _ := congrArg Item.data hitem
  intro x hx
  rcases shifts_cases hshifts with ⟨d, rfl⟩ | ⟨hk, d, d', rfl⟩
  · obtain rfl := List.mem_singleton.1 hx
    exact ⟨src.id, rfl, src, hplaced.source.mem, rfl⟩
  · rcases List.mem_pair.1 hx with rfl | rfl
    · exact ⟨src.id, rfl, src, hplaced.source.mem, rfl⟩
    · obtain ⟨y, hy⟩ := hplaced.secondary (hsecond hk)
      exact ⟨y.id, hy.id, y, hy.mem, rfl⟩

theorem exec_recordEntry (hs : s.Idle) (hi : Intact s.database.ledger) {user : Value}
    {r : EntryRequest} {c : Checked} {e : Entry} {a : Row Entry} {shifts : List Shift}
    (hu : user.isId = true) (hids : ∀ v ∈ r.ids, v.isId = true)
    (hsecond : c.kind.isTransfer = true → r.secondary.isNull = false)
    (hrec : Recordable s user r c e a shifts) :
    (recordEntry user r c).exec s = (.ok (a, shifts), (s.start.put
      { s.database.ledger.shiftAll shifts with
        entries := s.database.ledger.entries.insert (StoredEntry.ofEntry s.now e) }).commit) := by
  have hr := hs.ready
  have hshifted := hrec.shifted hids hsecond
  obtain ⟨⟨cat, cur, src, fixed, hplaced, hfixes, hread, hshifts⟩, hstored, hreadable, hbears⟩ := hrec
  obtain ⟨category, hcat, hcategory⟩ := exec_loadActive (s := s.start) hr hi hi.categories
    "category_id" hu (hids _ (by simp [EntryRequest.ids])) hplaced.category
  obtain ⟨currency, hcur, hcurrency⟩ := exec_loadActive (s := s.start) hr hi hi.currencies
    "currency_id" hu (hids _ (by simp [EntryRequest.ids])) hplaced.currency
  obtain ⟨primary, hsrc, hsource⟩ := exec_loadActive (s := s.start) hr hi hi.sources
    "source_id" hu (hids _ (by simp [EntryRequest.ids])) hplaced.source
  obtain ⟨n, -, -, -, rfl⟩ :=
    (reread_currency (hi.currencies.tidy.proper cur hplaced.currency.mem)).1 hcur
  obtain ⟨k, -, -, rfl⟩ :=
    (reread_source (hi.sources.tidy.proper src hplaced.source.mem)).1 hsrc
  obtain ⟨hcatid, -⟩ := LawfulNamed.read_eq cat category
    (hi.categories.tidy.proper cat hplaced.category.mem) hcat
  refine hs.exec_transaction ?_
  refine Op.bind_ok_iff.2 ⟨_, _, hcategory, Op.bind_ok_iff.2 ⟨_, _, hcurrency,
    Op.bind_ok_iff.2 ⟨_, _, hsource, ?_⟩⟩⟩
  have hsecondary (hn : (!r.secondary.isNull) = true) :
      ∃ b, (loadOwned Source user r.secondary "secondary_source_id" true).exec s.start
        = (.ok b, s.start) := by
    obtain ⟨x, hx⟩ := hplaced.secondary (by simpa using hn)
    obtain ⟨b, -, hload⟩ := exec_loadActive (s := s.start) hr hi hi.sources "secondary_source_id"
      hu (hids _ (by simp [EntryRequest.ids])) hx
    exact ⟨b, hload⟩
  -- the row that was stored has the shifts that were found for the request
  have hfound (u : Session) (p : Source) (hp : p.currency = src.data.currency) :
      (shiftsWith a.data (some p)).exec u = (.ok shifts, u) := by
    rw [shiftsWith, Op.exec_lift, shifts_congr (q := some src.data) _ (by simp [hp]), hshifts]
  dsimp only
  rw [Op.exec_whether _ hsecondary]
  refine Op.bind_ok_iff.2 ⟨(), _, checkCurrency_ok.2 ⟨rfl, hplaced.held⟩, ?_⟩
  rw [Op.exec_either (exec_fixed_ok.2 ⟨rfl, hfixes⟩), hcatid]
  refine Op.bind_ok_iff.2 ⟨_, _, recordOf_ok.2 ⟨rfl, _, hread, rfl⟩, ?_⟩
  refine Op.bind_ok_iff.2 ⟨_, _, (insert_ok hr hi.entries).2 ⟨hstored, hreadable, rfl⟩, ?_⟩
  refine Op.bind_ok_iff.2 ⟨_, _, hfound _ _ rfl, ?_⟩
  refine Op.bind_ok_iff.2
    ⟨(), _, exec_applyShifts (hr.put _) (by exact hi.sources.tidy) hshifted ?_, ?_⟩
  · rw [map_directed_one]
    exact (bears_withEntries _).2 hbears
  · rw [Op.exec_pure, map_directed_one, Session.ledger_put, ← shiftAll_withEntries]
    rfl

theorem find?_of_mem {α : Type} {t : Table α} {r : Row α} (ht : t.Tidy) (hr : r ∈ t.rows) :
    t.find? r.id = some r :=
  ht.find?_eq hr fun x _ => by simp

section

variable {l : Ledger} {user : Value} {r : EntryRequest} {c : Checked} {category : Row Category}
  {currency : Row Currency} {source : Row Source}

/-- The shifts of an entry are known if it is recorded for such rows. -/
theorem Placed.shifts (h : Placed l user r c category currency source) (hc : InOrder r c) {e : Entry}
    (hkind : e.kind = c.kind) (hcurrency : e.currency = currency.id)
    (hrate : e.rate.isSome = c.rate.isSome) :
    ∃ shifts, (e.shifts (some source.data)).mapError Failure.misuse = .ok shifts := by
  have hconverted (h : c.rate.isSome = true) :
      ∃ x, Entry.converted e.amount e.rate = .ok x := by
    obtain ⟨x, hx⟩ := Option.isSome_iff_exists.1 (hrate.trans h)
    exact ⟨e.amount * x, by rw [hx]; rfl⟩
  unfold Entry.shifts
  rw [hkind, hcurrency]
  cases hk : c.kind.isTransfer with
  | true =>
    obtain ⟨gained, hg⟩ := hconverted (hc.transfer hk).2.1
    rw [hg]
    exact ⟨_, rfl⟩
  | false =>
    dsimp only
    cases hheld : currency.id == source.data.currency with
    | true => exact ⟨_, rfl⟩
    | false =>
      obtain ⟨value, hv⟩ := hconverted (h.held.resolve_left (beq_eq_false_iff_ne.1 hheld)).2
      rw [hv]
      exact ⟨_, rfl⟩

/-- The shifts of an entry recorded for such rows go by its source. -/
theorem Placed.effects (h : Placed l user r c category currency source) (hi : Intact l)
    {e : Row StoredEntry} {a : Row Entry} (he : e.data.source = source.id) (ho : e.odd = [])
    (ha : StoredEntry.toEntry .full e = .ok a) :
    l.effects e = (a.data.shifts (some source.data)).mapError .misuse := by
  have hsource : a.data.source = source.id := by
    obtain ⟨date, createdAt, -, -, -, -, -, rfl⟩ := (StoredEntry.toEntry_ok ho).1 ha
    exact he
  rw [effects_of_toEntry ha, hsource, find?_of_mem hi.sources.tidy h.source.mem]
  rfl

/-- A second source is one of the user's active ones. -/
theorem Placed.offers_secondary (h : Placed l user r c category currency source) {id : Int}
    (hid : r.secondary.id? = some id) :
    ∃ x, l.sources.Offers user r.secondary x ∧ x.id = id := by
  have hnull : r.secondary.isNull = false := by
    cases hs : r.secondary <;> first | rfl | simp [hs, Value.id?] at hid
  obtain ⟨x, hx⟩ := h.secondary hnull
  exact ⟨x, hx, Option.some.inj (hx.id.symm.trans hid)⟩

/-- An entry recorded for such rows refers to active rows of its own user only. -/
theorem Placed.offers (h : Placed l user r c category currency source) {now text : String}
    {party : Option String} {fixed : Float} (k : Reference) (id : Int)
    (hid : (StoredEntry.ofEntry now
      (entryOf category.data.owner r c category.id currency.id source.id fixed text party)).refersTo k
        = some id) : l.Offers k category.data.owner id := by
  have howned {ρ : Type} [Owned ρ] {t : Table ρ} {v : Value} {x : Row ρ} (hx : t.Offers user v x)
      (hxid : x.id = id) : t.OwnsActive category.data.owner id :=
    ⟨x, hx.mem, hxid, Option.some.inj (hx.owner.symm.trans h.category.owner), hx.active⟩
  cases k with
  | reporting | held => cases hid
  | category => exact howned h.category (Option.some.inj hid)
  | currency => exact howned h.currency (Option.some.inj hid)
  | source => exact howned h.source (Option.some.inj hid)
  | secondary =>
    obtain ⟨x, hx, hxid⟩ := h.offers_secondary hid
    exact howned hx hxid

/-- An entry recorded for such rows is filed with rows of its own user. -/
theorem Placed.filed (h : Placed l user r c category currency source) (hc : InOrder r c)
    (hi : Intact l) {id : Int} {now text : String} {party : Option String} {fixed : Float}
    (heffects : ∃ shifts, l.effects ⟨id, .ofEntry now
      (entryOf category.data.owner r c category.id currency.id source.id fixed text party), []⟩
        = .ok shifts) :
    Filed l ⟨id, .ofEntry now
      (entryOf category.data.owner r c category.id currency.id source.id fixed text party), []⟩ := by
  refine
    { owner := hi.categories.owned category h.category.mem
      category := ⟨category, h.category.mem, rfl, rfl⟩
      currency := ⟨currency, h.currency.mem, rfl, ?_⟩
      source := ⟨source, h.source.mem, rfl, ?_⟩
      secondary := fun id hid => ?_
      apart := fun hk => ?_
      held := fun hk => ?_
      effects := heffects }
  · exact Option.some.inj (h.currency.owner.symm.trans h.category.owner)
  · exact Option.some.inj (h.source.owner.symm.trans h.category.owner)
  · obtain ⟨x, hx, hxid⟩ := h.offers_secondary hid
    exact ⟨x, hx.mem, hxid, Option.some.inj (hx.owner.symm.trans h.category.owner)⟩
  · obtain ⟨hnull, -, hother⟩ := hc.transfer hk
    obtain ⟨x, hx⟩ := h.secondary hnull
    refine ⟨x.id, hx.id, ?_⟩
    rw [Value.same_of_id? hx.id h.source.id] at hother
    exact of_decide_eq_false hother
  · -- only an entry that moves no money may be in another currency
    have hcurrency : currency.id = source.data.currency :=
      h.held.resolve_right fun hother => Bool.false_ne_true (hother.1.symm.trans hk)
    rw [hcurrency]
    exact currencyOf_of_mem hi.sources.tidy h.source.mem

end

/-- Recording an entry changes the ledger by the entry and its shifts. -/
theorem Recordable.change {user : Value} {r : EntryRequest} {c : Checked} {e : Entry} {a : Row Entry}
    {shifts : List Shift} (h : Recordable s user r c e a shifts) (hc : InOrder r c)
    (hi : Intact s.database.ledger) (hids : ∀ v ∈ r.ids, v.isId = true)
    {gone : Row StoredEntry → Prop} :
    Change gone s.database.ledger { s.database.ledger.shiftAll shifts with
      entries := s.database.ledger.entries.insert (StoredEntry.ofEntry s.now e) } := by
  obtain ⟨⟨cat, cur, src, fixed, hplaced, -, hread, hshifts⟩, hstored, hreadable, hbears⟩ := h
  obtain ⟨text, party, -, -, -, -, -, hitem⟩ := (read_entryFields hplaced.category.owner
    (hids _ (by simp [EntryRequest.ids]))).1 hread
  obtain rfl : e = entryOf cat.data.owner r c cat.id cur.id src.id fixed text party :=
    congrArg Item.data hitem
  have heffects := (hplaced.effects hi rfl rfl hreadable).trans hshifts
  exact .record _ shifts hstored.room rfl (hplaced.filed hc hi ⟨shifts, heffects⟩) heffects hbears
    hplaced.offers

/-! ## The call -/

theorem requestOf_ok {data : Option EntryRequest} {fields : List (String × Value)} {user : Value}
    {r : EntryRequest} (hids : (Call.createEntry user data fields).Typed)
    (hx : (requestOf data fields).exec s = (.ok r, t)) : t = s ∧ ∀ v ∈ r.ids, v.isId = true := by
  cases data with
  | some r₀ =>
    obtain ⟨rfl, rfl⟩ := Op.pure_ok hx
    exact ⟨rfl, fun v hv => hids v (List.mem_cons_of_mem user hv)⟩
  | none =>
    unfold requestOf at hx
    dsimp only at hx
    split at hx
    · rename_i item hread
      obtain ⟨rfl, rfl⟩ := Op.pure_ok hx
      exact ⟨rfl, (readsAs_of_read hread).typed.isId⟩
    · cases hx

/-- A call that records an entry has a request in order, and what it takes to record it. -/
theorem createEntry_ok (hs : s.Idle) (hi : Intact s.database.ledger) {user : Value}
    {data : Option EntryRequest} {fields : List (String × Value)} {a : Row Entry}
    (htyped : (Call.createEntry user data fields).Typed)
    (hx : (createEntry user data fields).exec s = (.ok a, t)) :
    ∃ r c e shifts, (requestOf data fields).exec s = (.ok r, s) ∧ InOrder r c ∧
      Recordable s user r c e a shifts ∧
      t.database = s.database.withLedger { s.database.ledger.shiftAll shifts with
        entries := s.database.ledger.entries.insert (StoredEntry.ofEntry s.now e) } := by
  have hu : user.isId = true := by
    cases data <;> exact htyped user List.mem_cons_self
  obtain ⟨r, u, hreq, h₁⟩ := Op.bind_ok (logged_ok hx)
  obtain ⟨rfl, hids⟩ := requestOf_ok htyped hreq
  obtain ⟨c, hc, h₂⟩ := Op.lift_bind_ok h₁
  obtain ⟨⟨a, shifts⟩, w, hrec, h₃⟩ := Op.bind_ok h₂
  obtain ⟨_, z, he, hp⟩ := Op.bind_ok h₃
  obtain ⟨rfl, rfl⟩ := Op.pure_ok hp
  obtain ⟨e, hrecordable, rfl⟩ := recordEntry_ok hs hi hu hids hrec
  exact ⟨r, c, e, shifts, hreq, checkRequest_ok.1 hc, hrecordable, (emit_ok he).1⟩

/-- A call that records an entry leaves its row, and answers with what is read from it. -/
theorem createEntry_row (hs : s.Idle) (hi : Intact s.database.ledger) {user : Value} {n : Int}
    (huser : user.id? = some n) {data : Option EntryRequest} {fields : List (String × Value)}
    (htyped : (Call.createEntry user data fields).Typed) {a : Row Entry}
    (hx : (Call.createEntry user data fields).run.exec s = (.ok (.entry (some a)), t)) :
    ∃ r c category currency source fixed text party,
      (requestOf data fields).exec s = (.ok r, s) ∧ InOrder r c ∧
      Part.optional Part.text (if r.target.truthy then r.target else .null) = .ok party ∧
      fitsInteger n = true ∧
      ∃ x : Row StoredEntry, t.database.ledger.entries.find? a.id = some x ∧
        x = ⟨a.id, .ofEntry s.now
          (entryOf n r c category currency source fixed text party), []⟩ ∧
        StoredEntry.toEntry .full x = .ok a := by
  obtain ⟨a', ha, heq⟩ := Op.map_ok hx
  cases heq
  obtain ⟨r, c, e, shifts, hreq, hc, hrec, ht⟩ := createEntry_ok hs hi htyped ha
  obtain ⟨category, currency, source, fixed, -, -, hread, -⟩ := hrec.read
  have hsecond := (requestOf_ok htyped hreq).2 r.secondary (by simp [EntryRequest.ids])
  obtain ⟨text, party, -, hparty, -, -, -, hitem⟩ := (read_entryFields huser hsecond).1 hread
  obtain rfl : e = entryOf n r c category.id currency.id source.id fixed text party :=
    congrArg Item.data hitem
  obtain ⟨date, createdAt, -, -, -, -, -, hrow⟩ := (StoredEntry.toEntry_ok rfl).1 hrec.readable
  have hid : a.id = s.database.ledger.entries.nextId := by rw [hrow]
  have hfits : fitsInteger n = true :=
    List.all_eq_true.1 hrec.stored.references n List.mem_cons_self
  have hfind : t.database.ledger.entries.find? s.database.ledger.entries.nextId
      = some ⟨s.database.ledger.entries.nextId, .ofEntry s.now
          (entryOf n r c category.id currency.id source.id fixed text party), []⟩ := by
    rw [ht]
    exact (hi.entries.insert hrec.stored.room _).find?_eq (Table.mem_insert.2 (.inr rfl))
      fun x _ => beq_iff_eq
  refine ⟨r, c, category.id, currency.id, source.id, fixed, text, party, hreq, hc, hparty, hfits,
    _, ?_, rfl, ?_⟩
  · rw [hid]
    exact hfind
  · rw [hid]
    exact hrec.readable

/-- Recording an entry is a change. -/
theorem changes_createEntry (hs : s.Idle) (hi : Intact s.database.ledger)
    {gone : Row StoredEntry → Prop} {user : Value} {data : Option EntryRequest}
    {fields : List (String × Value)} {a : Row Entry}
    (htyped : (Call.createEntry user data fields).Typed)
    (hx : (createEntry user data fields).exec s = (.ok a, t)) : s.Changes gone t := by
  obtain ⟨r, c, e, shifts, hreq, hc, hrecordable, ht⟩ := createEntry_ok hs hi htyped hx
  exact ⟨_, ht, hrecordable.change hc hi (requestOf_ok htyped hreq).2⟩

end Bookkeeping.Service
