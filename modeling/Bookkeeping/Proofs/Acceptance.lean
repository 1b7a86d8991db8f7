import Bookkeeping.Proofs.IsoTexts
import Bookkeeping.Proofs.Ownership

/-! # Requests that are accepted

A request is accepted if its parts make sense together, the rows that it refers to are active and
the user's own, and no balance overflows. Then it leaves one entry and shifts one or two balances,
and otherwise nothing happens at all.
-/

namespace Bookkeeping.Service

open Store Calendar Number

/-! ## Orders -/

/-- What a request comes to: its numbers, its date and the rows that it refers to. -/
structure Order where
  kind : EntryType
  amount : Float
  rate : Option Float
  rateToFixed : Float
  date : Moment
  category : Row Category
  currency : Row Currency
  source : Row Source

/-- The description of a request, without white space around it. -/
def wording (r : EntryRequest) : String := Text.trim (r.description.text?.getD "")

/-- The other party of a request, if one is named. -/
def party (r : EntryRequest) : Option String :=
  if r.target.truthy then r.target.text?.map Text.trim else none

namespace Order

/-- The amount in the currency of the source. -/
def value (o : Order) : Float :=
  if o.currency.id = o.source.data.currency then o.amount else o.amount * o.rate.getD 1

/-- What an order does to the balances of its source and of the second one. -/
def shifts (o : Order) (second : Option Int) : List Shift :=
  match o.kind with
  | .spend | .lend => [⟨some o.source.id, -o.value⟩]
  | .income | .borrow => [⟨some o.source.id, o.value⟩]
  | .convert => [⟨some o.source.id, -o.amount⟩, ⟨second, o.amount * o.rate.getD 1⟩]

/-- The row that an order leaves. -/
def row (o : Order) (user : Int) (r : EntryRequest) (now : String) : StoredEntry where
  owner := user
  description := wording r
  category := o.category.id
  amount := o.amount
  date := o.date.toText
  createdAt := now
  currency := o.currency.id
  kind := o.kind
  source := o.source.id
  secondary := r.secondary.id?
  rate := o.rate
  rateToFixed := o.rateToFixed
  archived := false
  target := party r

/-- The own parts of an order. -/
def checked (o : Order) : Checked := ⟨o.kind, o.amount, o.date, o.rate⟩

end Order

/-- What must hold for a request of a user to be accepted as an order. -/
structure Accepts (l : Ledger) (user : Int) (r : EntryRequest) (o : Order) : Prop where
  kind : r.kind = .text o.kind.text
  description : r.description ≠ .null
  date : r.date.moment? = some o.date
  amount : r.amount.number? = some o.amount ∧ IsPositive o.amount
  /-- A rate is positive, if it is given. -/
  rate : r.rate = .null ∧ o.rate = none ∨
    ∃ x, r.rate.number? = some x ∧ IsPositive x ∧ o.rate = some x
  rateToFixed : r.rateToFixed = .null ∧ o.rateToFixed = o.currency.data.rate ∨
    r.rateToFixed.number? = some o.rateToFixed ∧ IsPositive o.rateToFixed
  category : l.categories.Offers (.int user) r.category o.category
  currency : l.currencies.Offers (.int user) r.currency o.currency
  source : l.sources.Offers (.int user) r.source o.source
  secondary : r.secondary ≠ .null → ∃ x, l.sources.Offers (.int user) r.secondary x
  /-- A conversion has a second source and a rate. -/
  transfer : o.kind = .convert → r.secondary ≠ .null ∧ o.rate ≠ none ∧ r.secondary ≠ r.source
  /-- In another currency than that of the source there is no conversion, and a rate is needed. -/
  held : o.currency.id ≠ o.source.data.currency → o.kind ≠ .convert ∧ o.rate ≠ none
  finite : ∀ x ∈ o.shifts r.secondary.id?, ∀ s ∈ l.sources.rows, x.source = some s.id →
    isFinite (s.data.amount + x.delta) = true
  /-- An id is left, as it is until there have been 2 ^ 63 - 1 calls. -/
  room : l.entries.isFull = false

variable {l : Ledger} {user : Int} {r : EntryRequest} {o : Order}

theorem isNull_iff {v : Value} : v.isNull = true ↔ v = .null := by
  cases v <;> simp [Value.isNull]

theorem isNull_eq_false {v : Value} : v.isNull = false ↔ v ≠ .null := by
  rw [Ne, ← isNull_iff, Bool.not_eq_true]

theorem isTransfer_iff {k : EntryType} : k.isTransfer = true ↔ k = .convert := by
  cases k <;> simp [EntryType.isTransfer]

/-- Ids of different rows are different. -/
theorem same_iff {v w : Value} (hv : v = .null ∨ ∃ n, v = .int n) (hw : w = .null ∨ ∃ n, w = .int n)
    (h : v ≠ .null) (h' : w ≠ .null) : v.same w = false ↔ v ≠ w := by
  obtain ⟨m, rfl⟩ := hv.resolve_left h
  obtain ⟨n, rfl⟩ := hw.resolve_left h'
  rw [Value.same_of_id? (m := m) (n := n) rfl rfl, decide_eq_false_iff_not, Ne, Value.int.injEq]

/-! ## Orders and checks -/

/-- The own parts of a request are in order as far as they are those of an order. -/
theorem inOrder_iff (hr : r.Typed) (hcategory : r.category ≠ .null) (hcurrency : r.currency ≠ .null)
    (hsource : r.source ≠ .null) : InOrder r o.checked ↔
      r.kind = .text o.kind.text ∧ r.description ≠ .null ∧ r.date.moment? = some o.date ∧
      (r.amount.number? = some o.amount ∧ IsPositive o.amount) ∧
      (r.rate = .null ∧ o.rate = none ∨
        ∃ x, r.rate.number? = some x ∧ IsPositive x ∧ o.rate = some x) ∧
      (o.kind = .convert → r.secondary ≠ .null ∧ o.rate ≠ none ∧ r.secondary ≠ r.source) := by
  have hkind := kind_ok (k := o.kind) (hr.texts r.kind (by simp))
  have hdate := moment_ok "date" (m := o.date) hr.date
  have hamount := amount_ok "amount" (x := o.amount) (hr.numbers r.amount (by simp))
  have hrate (x : Float) := amount_ok "conversion_rate" (x := x)
    (hr.numbers r.rate (by simp))
  have hrates : (if r.rate.isNull then o.rate = none
        else ∃ x, Check.rate "conversion_rate" r.rate = .ok x ∧ o.rate = some x) ↔
      (r.rate = .null ∧ o.rate = none ∨
        ∃ x, r.rate.number? = some x ∧ IsPositive x ∧ o.rate = some x) := by
    by_cases hn : r.rate = .null
    · simp [hn, Value.isNull, Value.number?]
    · rw [if_neg (by rwa [isNull_iff])]
      simp [hn, Check.rate, hrate, and_assoc]
  have htransfer : (o.kind.isTransfer = true →
        r.secondary.isNull = false ∧ o.rate.isSome = true ∧ r.secondary.same r.source = false) ↔
      (o.kind = .convert → r.secondary ≠ .null ∧ o.rate ≠ none ∧ r.secondary ≠ r.source) := by
    rw [isTransfer_iff]
    refine imp_congr_right fun _ => ?_
    rw [isNull_eq_false, Option.isSome_iff_ne_none]
    refine and_congr_right fun hn => and_congr_right fun _ => ?_
    exact same_iff (hr.ids _ (by simp [EntryRequest.ids])) (hr.ids _ (by simp [EntryRequest.ids]))
      hn hsource
  constructor
  · intro h
    exact ⟨hkind.1 h.kind, isNull_eq_false.1 h.description, hdate.1 h.date, hamount.1 h.amount,
      hrates.1 h.rate, htransfer.1 h.transfer⟩
  · rintro ⟨hk, hd, hm, ha, hx, ht⟩
    exact
      { kind := hkind.2 hk
        description := isNull_eq_false.2 hd
        category := isNull_eq_false.2 hcategory
        source := isNull_eq_false.2 hsource
        currency := isNull_eq_false.2 hcurrency
        amount := hamount.2 ha
        date := hdate.2 hm
        rate := hrates.2 hx
        transfer := htransfer.2 ht }

theorem fixes_iff (hr : r.Typed) {currency : Row Currency} {x : Float} : Fixes r currency x ↔
    r.rateToFixed = .null ∧ x = currency.data.rate ∨
      r.rateToFixed.number? = some x ∧ IsPositive x := by
  unfold Fixes
  by_cases hn : r.rateToFixed = .null
  · simp [hn, Value.isNull, Value.number?]
  · rw [if_neg (by rwa [isNull_iff]), Check.rate, amount_ok _ (hr.numbers r.rateToFixed (by simp))]
    simp [hn]

/-- An order is accepted if the checks of the request's own parts, those of the rows and those of the
balances agree. -/
theorem accepts_iff (hr : r.Typed) : Accepts l user r o ↔
    InOrder r o.checked ∧ Placed l (.int user) r o.checked o.category o.currency o.source ∧
      Fixes r o.currency o.rateToFixed ∧
      (∀ x ∈ o.shifts r.secondary.id?, ∀ s ∈ l.sources.rows, x.source = some s.id →
        isFinite (s.data.amount + x.delta) = true) ∧ l.entries.isFull = false := by
  have hheld : (o.currency.id = o.source.data.currency ∨
        o.checked.kind.isTransfer = false ∧ o.checked.rate.isSome = true) ↔
      (o.currency.id ≠ o.source.data.currency → o.kind ≠ .convert ∧ o.rate ≠ none) := by
    rw [or_iff_not_imp_left, ← Bool.not_eq_true, isTransfer_iff, Option.isSome_iff_ne_none]
    rfl
  constructor
  · intro h
    refine ⟨(inOrder_iff hr h.category.ne_null h.currency.ne_null h.source.ne_null).2
      ⟨h.kind, h.description, h.date, h.amount, h.rate, h.transfer⟩, ?_,
      (fixes_iff hr).2 h.rateToFixed, h.finite, h.room⟩
    exact
      { held := hheld.2 h.held
        category := h.category
        currency := h.currency
        source := h.source
        secondary := fun hn => h.secondary (isNull_eq_false.1 hn) }
  · rintro ⟨hc, hp, hfixed, hfinite, hroom⟩
    obtain ⟨hkind, hdescription, hdate, hamount, hrate, htransfer⟩ :=
      (inOrder_iff hr hp.category.ne_null hp.currency.ne_null hp.source.ne_null).1 hc
    exact
      { kind := hkind
        description := hdescription
        date := hdate
        amount := hamount
        rate := hrate
        rateToFixed := (fixes_iff hr).1 hfixed
        category := hp.category
        currency := hp.currency
        source := hp.source
        secondary := fun hn => hp.secondary (isNull_eq_false.2 hn)
        transfer := htransfer
        held := hheld.1 hp.held
        finite := hfinite
        room := hroom }

/-! ## Orders and shifts -/

/-- Shifts of different sources are borne if each is on its own. -/
theorem bears_iff {shifts : List Shift} (hn : (shifts.map Shift.source).Nodup) : l.Bears shifts ↔
    ∀ x ∈ shifts, ∀ s ∈ l.sources.rows, x.source = some s.id →
      isFinite (s.data.amount + x.delta) = true := by
  induction shifts generalizing l with
  | nil => simp [Ledger.Bears]
  | cons x rest ih =>
    obtain ⟨hx, hrest⟩ := List.nodup_cons.1 hn
    rw [Ledger.Bears, ih hrest, List.forall_mem_cons]
    refine ⟨fun ⟨hone, hall⟩ => ⟨fun s hs hid => hone s hs hid, fun y hy s hs hid => ?_⟩,
      fun ⟨hone, hall⟩ => ⟨fun s hs hid => hone s hs hid, fun y hy s hs hid => ?_⟩⟩
    · -- the balance of another source is not changed by the first shift
      have hother : ¬ (x.source == some s.id) = true := fun h =>
        hx (List.mem_map.2 ⟨y, hy, by rw [hid, beq_iff_eq.1 h]⟩)
      exact hall y hy s (Table.mem_change.2 ⟨s, hs, (if_neg hother).symm⟩) hid
    · obtain ⟨z, hz, rfl⟩ := Table.mem_change.1 hs
      have hzid : (if (x.source == some z.id) = true then shiftedBy x.delta z else z).id = z.id := by
        split <;> rfl
      rw [hzid] at hid
      have hother : ¬ (x.source == some z.id) = true := fun h =>
        hx (List.mem_map.2 ⟨y, hy, by rw [hid, beq_iff_eq.1 h]⟩)
      rw [if_neg hother]
      exact hall y hy z hz hid

/-- The shifts of an entry are those of the order that it is made from. -/
theorem Order.shifts_eq {e : Entry} (hk : e.kind = o.kind) (ha : e.amount = o.amount)
    (hx : e.rate = o.rate) (hc : e.currency = o.currency.id) (hs : e.source = o.source.id)
    (htransfer : o.kind = .convert → o.rate ≠ none)
    (hheld : o.currency.id ≠ o.source.data.currency → o.rate ≠ none) :
    (e.shifts (some o.source.data)).mapError Failure.misuse = .ok (o.shifts e.secondary) := by
  unfold Entry.shifts
  rw [hk]
  cases hkind : o.kind with
  | convert =>
    obtain ⟨x, hx'⟩ := Option.ne_none_iff_exists'.1 (htransfer hkind)
    rw [hs, ha, hx, Order.shifts, hkind, hx']
    rfl
  | spend | lend | income | borrow =>
    simp only [EntryType.isTransfer, Bool.false_eq_true, if_false]
    rw [hc, hs, ha, hx, Order.shifts, hkind]
    by_cases h : o.currency.id = o.source.data.currency
    · rw [if_pos (by simpa using h)]
      simp only [Order.value, if_pos h]
      rfl
    · obtain ⟨x, hx'⟩ := Option.ne_none_iff_exists'.1 (hheld h)
      rw [if_neg (by simpa using h)]
      simp only [Order.value, if_neg h, hx']
      rfl

/-! ## Orders and rows -/

/-- The texts of a typed request are read as they are, without the white space around them. -/
theorem read_iff (hr : r.Typed) (hd : r.description ≠ .null) {c : Checked}
    {category currency source : Int} {fixed : Float} {item : Item Entry} :
    Entry.read (entryFields (.int user) r c category currency source fixed) = .ok item ↔
      isFinite c.amount = true ∧ (∀ x ∈ c.rate, isFinite x = true) ∧ isFinite fixed = true ∧
        item = { data := entryOf user r c category currency source fixed (wording r) (party r) } := by
  have htext : Part.text r.description = .ok (wording r) := by
    obtain ⟨s, hs⟩ := (hr.texts r.description (by simp)).resolve_left hd
    rw [wording, hs]
    rfl
  have hparty : Part.optional Part.text (if r.target.truthy then r.target else .null)
      = .ok (party r) := by
    rw [party]
    rcases hr.texts r.target (by simp) with ht | ⟨s, ht⟩ <;> rw [ht]
    · rfl
    · by_cases hs : (Value.text s).truthy = true
      · rw [if_pos hs, if_pos hs]
        rfl
      · rw [if_neg hs, if_neg hs]
        rfl
  have huser : (Value.int user).id? = some user := rfl
  rw [read_entryFields huser (hr.isId _ (by simp [EntryRequest.ids])), htext, hparty]
  simp

/-- The entry of an order. -/
def Order.made (o : Order) (user : Int) (r : EntryRequest) : Entry :=
  entryOf user r o.checked o.category.id o.currency.id o.source.id o.rateToFixed (wording r)
    (party r)

/-- Positive numbers are stored as they are. -/
theorem Order.row_eq (user : Int) (r : EntryRequest) (now : String) (ha : IsPositive o.amount)
    (hx : ∀ x ∈ o.rate, IsPositive x) (hf : IsPositive o.rateToFixed) :
    StoredEntry.ofEntry now (o.made user r) = o.row user r now := by
  have hrate : o.rate.map unsigned = o.rate := by
    cases h : o.rate with
    | none => rfl
    | some x => exact congrArg some (hx x h).unsigned_eq
  simp only [StoredEntry.ofEntry, Order.made, entryOf, Order.checked, ha.unsigned_eq, hrate,
    hf.unsigned_eq]
  rfl

/-- The row of an order is read as an entry with the shifts of the order. -/
theorem Order.shifts_of_row {n : Int} {now : String} {a : Row Entry}
    (h : StoredEntry.toEntry .full ⟨n, o.row user r now, []⟩ = .ok a)
    (htransfer : o.kind = .convert → o.rate ≠ none)
    (hheld : o.currency.id ≠ o.source.data.currency → o.rate ≠ none) :
    (a.data.shifts (some o.source.data)).mapError Failure.misuse
      = .ok (o.shifts r.secondary.id?) := by
  obtain ⟨date, createdAt, -, -, -, -, -, rfl⟩ := (StoredEntry.toEntry_ok rfl).1 h
  exact Order.shifts_eq rfl rfl rfl rfl rfl htransfer hheld

theorem pos_of_rate {v : Value} {rate : Option Float} (h : v = .null ∧ rate = none ∨
    ∃ x, v.number? = some x ∧ IsPositive x ∧ rate = some x) : ∀ x ∈ rate, IsPositive x := by
  intro x hx
  rcases h with ⟨-, hnone⟩ | ⟨y, -, hy, hsome⟩
  · rw [hnone] at hx
    cases hx
  · rw [hsome] at hx
    cases hx
    exact hy

/-- The rates of currencies are positive, too. -/
theorem pos_of_fixed (hi : Intact l) {currency : Row Currency} {v : Value} {x : Float}
    (hc : currency ∈ l.currencies.rows)
    (h : v = .null ∧ x = currency.data.rate ∨ v.number? = some x ∧ IsPositive x) : IsPositive x := by
  rcases h with ⟨-, hrate⟩ | ⟨-, hpos⟩
  · obtain ⟨a, ha⟩ := hi.currencies.readable _ hc
    obtain ⟨n, -, hfinite, hpos, -⟩ := (reread_currency (hi.currencies.tidy.proper _ hc)).1 ha
    rw [hrate]
    exact ⟨hfinite, hpos⟩
  · exact hpos

/-- A conversion is between two sources. -/
theorem Order.nodup_shifts (hr : r.Typed) (hsource : r.source.id? = some o.source.id)
    (htransfer : o.kind = .convert → r.secondary ≠ .null ∧ o.rate ≠ none ∧ r.secondary ≠ r.source) :
    ((o.shifts r.secondary.id?).map Shift.source).Nodup := by
  cases hk : o.kind with
  | convert =>
    obtain ⟨hnull, -, hother⟩ := htransfer hk
    obtain ⟨n, hn⟩ := (hr.ids r.secondary (by simp [EntryRequest.ids])).resolve_left hnull
    have hne : o.source.id ≠ n := by
      rintro rfl
      rcases hr.ids r.source (by simp [EntryRequest.ids]) with hm | ⟨m, hm⟩
      · rw [hm] at hsource
        cases hsource
      · rw [hm] at hsource
        exact hother (by rw [hn, hm, ← Option.some.inj hsource])
    rw [hn, Order.shifts, hk]
    simp [Value.id?, hne]
  | spend | lend | income | borrow => simp [Order.shifts, hk]

namespace Accepts

variable (h : Accepts l user r o)

include h

theorem rate_pos : ∀ x ∈ o.rate, IsPositive x := pos_of_rate h.rate

theorem secondary_mem {n : Int} (hn : r.secondary.id? = some n) : l.sources.Has n := by
  have hnull : r.secondary ≠ .null := by
    intro hs
    rw [hs] at hn
    cases hn
  obtain ⟨x, hx⟩ := h.secondary hnull
  exact ⟨x, hx.mem, Option.some.inj (hx.id.symm.trans hn)⟩

theorem user_eq : o.category.data.owner = user := (Option.some.inj h.category.owner).symm

variable (hi : Intact l)

include hi

theorem user_mem : l.users.Has user := h.user_eq ▸ hi.categories.owned _ h.category.mem

theorem insertable (enforce : Bool) (now : String) :
    Insertable enforce l (o.row user r now) where
  references := by
    have hsecond : ∀ n ∈ r.secondary.id?, fitsInteger n = true := fun n hn => by
      obtain ⟨x, hx, rfl⟩ := h.secondary_mem hn
      exact hi.sources.tidy.fits x hx
    have hall : ∀ n ∈ [user, o.category.id, o.currency.id, o.source.id] ++ r.secondary.id?.toList,
        fitsInteger n = true := by
      simp only [List.mem_append, List.mem_cons, List.not_mem_nil, or_false, Option.mem_toList]
      rintro n ((rfl | rfl | rfl | rfl) | hn)
      · exact (h.user_mem hi).fits hi.users
      · exact hi.categories.tidy.fits _ h.category.mem
      · exact hi.currencies.tidy.fits _ h.currency.mem
      · exact hi.sources.tidy.fits _ h.source.mem
      · exact hsecond n hn
    exact List.all_eq_true.2 hall
  room := h.room
  fresh _ _ := rfl
  resolves _ := by
    have hsecond : r.secondary.id?.all l.sources.contains = true := by
      cases hn : r.secondary.id? with
      | none => rfl
      | some n =>
        obtain ⟨x, hx, hid⟩ := h.secondary_mem hn
        exact List.any_eq_true.2 ⟨x, hx, by simp [hid]⟩
    obtain ⟨x, hx, hid⟩ := h.user_mem hi
    have huser : l.users.contains user = true := List.any_eq_true.2 ⟨x, hx, by simp [hid]⟩
    show (l.users.contains user && l.categories.contains o.category.id
      && l.currencies.contains o.currency.id && l.sources.contains o.source.id
      && r.secondary.id?.all l.sources.contains) = true
    rw [huser, h.category.contains, h.currency.contains, h.source.contains, hsecond]
    rfl

theorem fixed_pos : IsPositive o.rateToFixed := pos_of_fixed hi h.currency.mem h.rateToFixed

/-- The row of an accepted order can be read. -/
theorem readable {now : String} (hnow : ∃ m : Moment, now = m.toText) (n : Int) :
    ∃ a, StoredEntry.toEntry .full ⟨n, o.row user r now, []⟩ = .ok a := by
  obtain ⟨m, rfl⟩ := hnow
  have hmoment (m : Moment) : StoredEntry.moment m.toText
      = .ok { m with offset := m.offset.map Offset.kept } := by
    rw [StoredEntry.moment, Moment.ofIso_toText]
    rfl
  have hcreated : ∃ c, StoredEntry.created m.toText = .ok c := by
    unfold StoredEntry.created
    split
    · exact ⟨_, rfl⟩
    · rw [hmoment]
      exact ⟨_, rfl⟩
  obtain ⟨c, hc⟩ := hcreated
  exact ⟨_, (StoredEntry.toEntry_ok rfl).2 ⟨_, c, hmoment o.date, hc, h.amount.2.finite,
    fun x hx => (h.rate_pos x hx).finite, (h.fixed_pos hi).finite, rfl⟩⟩

end Accepts

/-! ## Acceptance and recording -/

variable {s t : Session}

/-- An accepted order can be recorded. -/
theorem Accepts.recordable (h : Accepts s.database.ledger user r o) (hr : r.Typed)
    (hi : Intact s.database.ledger) (hnow : ∃ m : Moment, s.now = m.toText) :
    ∃ a, Recordable s (.int user) r o.checked (o.made user r) a (o.shifts r.secondary.id?) := by
  obtain ⟨-, hplaced, hfixes, hfinite, -⟩ := (accepts_iff hr).1 h
  obtain ⟨a, ha⟩ := h.readable hi hnow s.database.ledger.entries.nextId
  have hrow := o.row_eq user r s.now h.amount.2 h.rate_pos (h.fixed_pos hi)
  have hshifts := Order.shifts_of_row ha (fun hk => (h.transfer hk).2.1) fun hc => (h.held hc).2
  refine ⟨a, ⟨⟨_, _, _, o.rateToFixed, hplaced, hfixes, ?_, hshifts⟩, ?_, ?_, ?_⟩⟩
  · exact (read_iff hr h.description).2 ⟨h.amount.2.finite, fun x hx => (h.rate_pos x hx).finite,
      (h.fixed_pos hi).finite, rfl⟩
  · rw [hrow]
    exact h.insertable hi s.enforce s.now
  · rw [hrow]
    exact ha
  · exact (bears_iff (Order.nodup_shifts hr h.source.id h.transfer)).2 hfinite

/-- What can be recorded is an accepted order. -/
theorem accepts_of_recordable {c : Checked} {e : Entry} {a : Row Entry} {shifts : List Shift}
    (hr : r.Typed) (hi : Intact s.database.ledger) (hc : InOrder r c)
    (h : Recordable s (.int user) r c e a shifts) : ∃ o, Accepts s.database.ledger user r o := by
  obtain ⟨⟨category, currency, source, fixed, hplaced, hfixes, hread, hshifts⟩, hstored, hreadable,
    hbears⟩ := h
  let o : Order := ⟨c.kind, c.amount, c.rate, fixed, c.date, category, currency, source⟩
  obtain ⟨-, hdescription, -, hamount, hrate, htransfer⟩ :=
    (inOrder_iff (o := o) hr hplaced.category.ne_null hplaced.currency.ne_null
      hplaced.source.ne_null).1 hc
  obtain ⟨-, -, -, hitem⟩ := (read_iff hr hdescription).1 hread
  obtain rfl : e = o.made user r := congrArg Item.data hitem
  have hrow := o.row_eq user r s.now hamount.2 (pos_of_rate hrate)
    (pos_of_fixed hi hplaced.currency.mem ((fixes_iff hr).1 hfixes))
  rw [hrow] at hreadable
  have hheld : o.currency.id ≠ o.source.data.currency → o.rate ≠ none := fun hne =>
    Option.isSome_iff_ne_none.1 (hplaced.held.resolve_left hne).2
  have horder := Order.shifts_of_row hreadable (fun hk => (htransfer hk).2.1) hheld
  obtain rfl : shifts = o.shifts r.secondary.id? := Except.ok.inj (hshifts.symm.trans horder)
  exact ⟨o, (accepts_iff hr).2 ⟨hc, hplaced, hfixes,
    (bears_iff (Order.nodup_shifts hr hplaced.source.id htransfer)).1 hbears, hstored.room⟩⟩

/-- A ledger with the entry of an order, and with its balances shifted. -/
def Order.applied (o : Order) (l : Ledger) (user : Int) (r : EntryRequest) (now : String) : Ledger :=
  { l.shiftAll (o.shifts r.secondary.id?) with entries := l.entries.insert (o.row user r now) }

/-- A request that is accepted leaves its entry and the shifts, and nothing else. -/
theorem Accepts.exec_createEntry (h : Accepts s.database.ledger user r o) (hr : r.Typed)
    (hs : s.Idle) (hi : Intact s.database.ledger) (hnow : ∃ m : Moment, s.now = m.toText) :
    ∃ a t, (createEntry (.int user) (some r) []).exec s = (.ok a, t) ∧
      a.id = s.database.ledger.entries.nextId ∧
      t.database = s.database.withLedger (o.applied s.database.ledger user r s.now) := by
  obtain ⟨hc, -⟩ := (accepts_iff hr).1 h
  obtain ⟨a, hrec⟩ := h.recordable hr hi hnow
  have hrow := o.row_eq user r s.now h.amount.2 h.rate_pos (h.fixed_pos hi)
  have hsecond : o.checked.kind.isTransfer = true → r.secondary.isNull = false := fun hk =>
    isNull_eq_false.2 (h.transfer (isTransfer_iff.1 hk)).1
  have hx := exec_recordEntry hs hi rfl hr.isId hsecond hrec
  rw [hrow] at hx
  have hbody : ∃ t, (createEntry (.int user) (some r) []).exec s = (.ok a, t) ∧
      t.database = s.database.withLedger (o.applied s.database.ledger user r s.now) := by
    have hrequest : (requestOf (some r) []).exec s = (.ok r, s) := rfl
    have hcheck : (Op.lift (checkRequest r)).exec s = (.ok o.checked, s) := by
      rw [Op.exec_lift, checkRequest_ok.2 hc]
    rw [createEntry, exec_logged, Op.exec_bind_ok hrequest, Op.exec_bind_ok hcheck,
      Op.exec_bind_ok hx]
    exact ⟨_, rfl, rfl⟩
  obtain ⟨t, ht, hdb⟩ := hbody
  obtain ⟨date, createdAt, -, -, -, -, -, rfl⟩ := (StoredEntry.toEntry_ok rfl).1 hrec.readable
  exact ⟨_, t, ht, rfl, hdb⟩

/-- After any calls, a request to record an entry succeeds if and only if it is accepted as an order,
and then the entry and the shifts of the order are all that becomes of the database. The clock must
show a time, and no statement may be broken off from outside. -/
theorem Call.createEntry_iff (hd : Reachable s.database) (ho : s.inTransaction = false)
    (hfuse : s.fuse = none) (hbreaks : s.breaks = none) (hnow : ∃ m : Moment, s.now = m.toText)
    (hr : r.Typed) :
    (((Call.createEntry (.int user) (some r) []).run.exec s).1.isOk = true ↔
        ∃ o, Accepts s.database.ledger user r o) ∧
      ∀ o, Accepts s.database.ledger user r o →
        ∃ a t, (Call.createEntry (.int user) (some r) []).run.exec s = (.ok (.entry (some a)), t) ∧
          a.id = s.database.ledger.entries.nextId ∧
          t.database = s.database.withLedger (o.applied s.database.ledger user r s.now) := by
  obtain ⟨hlayout, hi⟩ := hd.intact
  have hs : s.Idle := ⟨ho, hlayout, hfuse, hbreaks⟩
  have htyped : (Call.createEntry (.int user) (some r) []).Typed := by
    intro v hv
    rcases List.mem_cons.1 hv with rfl | hv
    · rfl
    · exact hr.isId v hv
  have heffect (o : Order) (h : Accepts s.database.ledger user r o) :
      ∃ a t, (Call.createEntry (.int user) (some r) []).run.exec s = (.ok (.entry (some a)), t) ∧
        a.id = s.database.ledger.entries.nextId ∧
        t.database = s.database.withLedger (o.applied s.database.ledger user r s.now) := by
    obtain ⟨a, t, hx, hid, hdb⟩ := h.exec_createEntry hr hs hi hnow
    refine ⟨a, t, ?_, hid, hdb⟩
    rw [Call.run, Op.exec_map, hx]
  refine ⟨⟨fun hok => ?_, fun ⟨o, h⟩ => ?_⟩, heffect⟩
  · cases hx : (Call.createEntry (.int user) (some r) []).run.exec s with
    | mk result t =>
      rw [hx] at hok
      cases result with
      | error e => cases hok
      | ok answer =>
        obtain ⟨a, ha, -⟩ := Op.map_ok hx
        obtain ⟨r', c, e, shifts, hreq, hc, hrec, -⟩ := createEntry_ok hs hi htyped ha
        obtain ⟨rfl, -⟩ := Op.pure_ok hreq
        exact accepts_of_recordable hr hi hc hrec
  · obtain ⟨a, t, hx, -⟩ := heffect o h
    rw [hx]
    rfl

/-- A request to record what was spent on bread. -/
def bread : EntryRequest where
  description := .text "Bread"
  category := .int 1
  amount := .text "1,003.50"
  date := .date ⟨2024, 1, 25, by decide⟩
  currency := .int 1
  kind := .text "spend"
  source := .int 1

theorem typed_bread : (Call.createEntry (.int 1) (some bread) []).Typed := by
  simp [bread, Call.Typed, Call.ids, EntryRequest.ids, Value.isId, Value.isNull, Value.id?]

/-- With a category and a source to refer to bread is accepted, but not for nothing. -/
theorem bread_accepted :
    let s := newSession.after (firstSpending.take 3)
    (∃ o, Accepts s.database.ledger 1 bread o ∧
      ∃ a t, (Call.createEntry (.int 1) (some bread) []).run.exec s = (.ok (.entry (some a)), t) ∧
        a.id = 1 ∧ t.database = s.database.withLedger (o.applied s.database.ledger 1 bread s.now)) ∧
      ¬ ∃ o, Accepts s.database.ledger 1 { bread with amount := .float 0 } o := by
  have hd : Reachable (newSession.after (firstSpending.take 3)).database :=
    Reachable.after (s := newSession) .migrated rfl fun c hc =>
      typed_firstSpending c (List.mem_of_mem_take hc)
  have hnow : ∃ m : Moment, (newSession.after (firstSpending.take 3)).now = m.toText :=
    ⟨⟨⟨2024, 1, 25, by decide⟩, { hour := 9, minute := 30, second := 0, micro := 0 }, none⟩,
      by decide +kernel⟩
  have hbread : bread.Typed :=
    ⟨by simp [bread], by simp [bread, EntryRequest.ids], by simp [bread], by simp [bread]⟩
  have hnothing : ({ bread with amount := .float 0 } : EntryRequest).Typed :=
    ⟨by simp [bread], by simp [bread, EntryRequest.ids], by simp [bread], by simp [bread]⟩
  obtain ⟨haccepted, heffect⟩ := @Call.createEntry_iff 1 _ _ hd (by decide +kernel)
    (by decide +kernel) (by decide +kernel) hnow hbread
  obtain ⟨o, h⟩ := haccepted.1 (by decide +kernel)
  obtain ⟨a, t, hx, hid, hdb⟩ := heffect o h
  refine ⟨⟨o, h, a, t, hx, hid.trans (by decide +kernel), hdb⟩, fun hzero => ?_⟩
  have hok := (@Call.createEntry_iff 1 _ _ hd (by decide +kernel) (by decide +kernel)
    (by decide +kernel) hnow hnothing).1.2 hzero
  exact absurd hok (by decide +kernel)

end Bookkeeping.Service
