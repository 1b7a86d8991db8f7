import Bookkeeping.Proofs.Numbers
import Bookkeeping.Proofs.Readings
import Bookkeeping.Proofs.Reachable

/-! # Requests

A request has its parts of certain types, and any of them may be missing. Before anything is looked
up the parts are checked on their own; here is what must hold for them to pass.
-/

namespace Bookkeeping

open Calendar Store

/-! ## Requests of typed parts -/

/-- A request with texts, ids, numbers and a date in their places. Numbers may be spelled out, and
any part may be missing. -/
structure EntryRequest.Typed (r : EntryRequest) : Prop where
  texts : ∀ v ∈ [r.description, r.target, r.kind], v = .null ∨ ∃ s, v = .text s
  ids : ∀ v ∈ r.ids, v = .null ∨ ∃ n, v = .int n
  numbers : ∀ v ∈ [r.amount, r.rate, r.rateToFixed],
    v = .null ∨ (∃ x, v = .float x) ∨ ∃ s, v = .text s
  date : r.date = .null ∨ (∃ m, r.date = .moment m) ∨ ∃ d, r.date = .date d

theorem EntryRequest.Typed.isId {r : EntryRequest} (h : r.Typed) : ∀ v ∈ r.ids, v.isId = true := by
  intro v hv
  rcases h.ids v hv with rfl | ⟨n, rfl⟩ <;> rfl

/-- What a part is read as: nothing if it is missing, and what the reader makes of it otherwise. -/
def Part.ReadsAs {α : Type} (read : Value → Reading α) (toValue : α → Value) (v w : Value) : Prop :=
  v = .null ∧ w = .null ∨ ∃ a, read v = .ok a ∧ w = toValue a

theorem readPart_ok {α : Type} {fields : List (String × Value)} {field : String}
    {read : Value → Reading α} {toValue : α → Value} {w : Value}
    (h : EntryRequest.readPart fields field read toValue = .ok w) :
    Part.ReadsAs read toValue (Value.field fields field) w := by
  obtain ⟨o, ho, rfl⟩ := Reading.map_eq_ok.1 h
  unfold Value.field
  unfold Part.withDefault at ho
  split at ho
  · rename_i v hv
    rw [hv]
    rw [Reading.within_eq_ok] at ho
    unfold Part.optional at ho
    split at ho
    · cases ho
      exact .inl ⟨rfl, rfl⟩
    · obtain ⟨a, ha, rfl⟩ := Reading.map_eq_ok.1 ho
      exact .inr ⟨a, ha, rfl⟩
  · rename_i hnone
    cases ho
    rw [hnone]
    exact .inl ⟨rfl, rfl⟩

theorem floatOrText_ok {v w : Value} (h : Part.floatOrText v = .ok w) :
    (∃ x, w = .float x) ∨ ∃ s, w = .text s := by
  unfold Part.floatOrText at h
  split at h
  · cases h
    exact .inr ⟨_, rfl⟩
  · split at h
    · cases h
      exact .inl ⟨_, rfl⟩
    · cases h

theorem momentOrDate_ok {v w : Value} (h : Part.momentOrDate v = .ok w) :
    (∃ m, w = .moment m) ∨ ∃ d, w = .date d := by
  unfold Part.momentOrDate at h
  split at h
  · cases h
    exact .inr ⟨_, rfl⟩
  · split at h
    · cases h
      exact .inl ⟨_, rfl⟩
    · cases h
    · cases h

/-- A request whose parts are read as those of another one. -/
structure EntryRequest.ReadsAs (r r' : EntryRequest) : Prop where
  description : Part.ReadsAs Part.text .text r.description r'.description
  target : Part.ReadsAs Part.text .text r.target r'.target
  category : Part.ReadsAs Part.int .int r.category r'.category
  amount : Part.ReadsAs Part.floatOrText (fun v => v) r.amount r'.amount
  date : Part.ReadsAs Part.momentOrDate (fun v => v) r.date r'.date
  currency : Part.ReadsAs Part.int .int r.currency r'.currency
  kind : Part.ReadsAs Part.text .text r.kind r'.kind
  source : Part.ReadsAs Part.int .int r.source r'.source
  secondary : Part.ReadsAs Part.int .int r.secondary r'.secondary
  rate : Part.ReadsAs Part.floatOrText (fun v => v) r.rate r'.rate
  rateToFixed : Part.ReadsAs Part.floatOrText (fun v => v) r.rateToFixed r'.rateToFixed

/-- A request is read from fields part by part. -/
theorem readsAs_of_read {fields : List (String × Value)} {item : Item EntryRequest}
    (h : EntryRequest.read fields = .ok item) :
    (EntryRequest.ofParts fields).ReadsAs item.data := by
  obtain ⟨g₁, fixed, h₁, hfixed, rfl⟩ := Reading.seq_eq_ok.1 h
  obtain ⟨g₂, rate, h₂, hrate, rfl⟩ := Reading.seq_eq_ok.1 h₁
  obtain ⟨g₃, secondary, h₃, hsecondary, rfl⟩ := Reading.seq_eq_ok.1 h₂
  obtain ⟨g₄, source, h₄, hsource, rfl⟩ := Reading.seq_eq_ok.1 h₃
  obtain ⟨g₅, kind, h₅, hkind, rfl⟩ := Reading.seq_eq_ok.1 h₄
  obtain ⟨g₆, currency, h₆, hcurrency, rfl⟩ := Reading.seq_eq_ok.1 h₅
  obtain ⟨g₇, date, h₇, hdate, rfl⟩ := Reading.seq_eq_ok.1 h₆
  obtain ⟨g₈, amount, h₈, hamount, rfl⟩ := Reading.seq_eq_ok.1 h₇
  obtain ⟨g₉, category, h₉, hcategory, rfl⟩ := Reading.seq_eq_ok.1 h₈
  obtain ⟨g₁₀, target, h₁₀, htarget, rfl⟩ := Reading.seq_eq_ok.1 h₉
  obtain ⟨g₁₁, description, h₁₁, hdescription, rfl⟩ := Reading.seq_eq_ok.1 h₁₀
  obtain ⟨n, -, rfl⟩ := Reading.map_eq_ok.1 h₁₁
  exact
    { description := readPart_ok hdescription
      target := readPart_ok htarget
      category := readPart_ok hcategory
      amount := readPart_ok hamount
      date := readPart_ok hdate
      currency := readPart_ok hcurrency
      kind := readPart_ok hkind
      source := readPart_ok hsource
      secondary := readPart_ok hsecondary
      rate := readPart_ok hrate
      rateToFixed := readPart_ok hfixed }

/-- A request that others are read as has its parts of their types. -/
theorem EntryRequest.ReadsAs.typed {r r' : EntryRequest} (h : r.ReadsAs r') : r'.Typed := by
  have text {v w : Value} (h : Part.ReadsAs Part.text .text v w) : w = .null ∨ ∃ s, w = .text s :=
    h.imp And.right fun ⟨s, _, hw⟩ => ⟨s, hw⟩
  have number {v w : Value} (h : Part.ReadsAs Part.floatOrText (fun v => v) v w) :
      w = .null ∨ (∃ x, w = .float x) ∨ ∃ s, w = .text s :=
    h.imp And.right fun ⟨_, ha, hw⟩ => hw ▸ floatOrText_ok ha
  have int {v w : Value} (h : Part.ReadsAs Part.int .int v w) : w = .null ∨ ∃ n, w = .int n :=
    h.imp And.right fun ⟨n, _, hw⟩ => ⟨n, hw⟩
  exact
    { texts := by simpa using ⟨text h.description, text h.target, text h.kind⟩
      ids := by
        simpa [EntryRequest.ids] using
          ⟨int h.category, int h.currency, int h.source, int h.secondary⟩
      numbers := by simpa using ⟨number h.amount, number h.rate, number h.rateToFixed⟩
      date := h.date.imp And.right fun ⟨_, ha, hw⟩ => hw ▸ momentOrDate_ok ha }

/-! ## Checks of typed parts -/

/-- The double that an amount or a rate stands for: itself, or what its text spells once the commas
are taken out. -/
def Value.number? : Value → Option Float
  | .float x => some x
  | .text s => Check.floatOfText? s
  | _ => none

/-- The moment that a date stands for, which is its midnight. -/
def Value.moment? : Value → Option Moment
  | .moment m => some m
  | .date d => some (.ofDate d)
  | _ => none

/-- A finite double above zero. -/
structure IsPositive (x : Float) : Prop where
  finite : Number.isFinite x = true
  pos : 0 < x

theorem IsPositive.unsigned_eq {x : Float} (h : IsPositive x) : unsigned x = x := by
  rw [unsigned, Number.ne_zero_of_pos h.pos]
  rfl

theorem amount_of_anyFloat (field : String) {v : Value} {x y : Float}
    (hy : Check.anyFloat field v = .ok y) :
    Check.amount field true v = .ok x ↔ y = x ∧ IsPositive x := by
  have hfloat : Check.float field v = if Number.isFinite y then .ok y
      else Check.reject (.outside field "must be a finite number" v) := by
    rw [Check.float, hy]
    rfl
  unfold Check.amount
  by_cases hf : Number.isFinite y = true
  · rw [hfloat, if_pos hf]
    show (if (true && decide (y ≤ 0)) = true then Check.reject _ else .ok y) = .ok x ↔ _
    have hpos := Number.zero_lt_iff hf
    by_cases hle : y ≤ 0
    · rw [if_pos (by simpa using hle)]
      constructor
      · intro h
        cases h
      · rintro ⟨rfl, h⟩
        exact absurd hle (hpos.1 h.pos)
    · rw [if_neg (by simpa using hle)]
      constructor
      · intro h
        cases h
        exact ⟨rfl, hf, hpos.2 hle⟩
      · rintro ⟨rfl, -⟩
        rfl
  · rw [hfloat, if_neg hf]
    constructor
    · intro h
      cases h
    · rintro ⟨rfl, h⟩
      exact absurd h.finite hf

theorem amount_ok (field : String) {v : Value} {x : Float}
    (hv : v = .null ∨ (∃ x, v = .float x) ∨ ∃ s, v = .text s) :
    Check.amount field true v = .ok x ↔ v.number? = some x ∧ IsPositive x := by
  rcases hv with rfl | ⟨y, rfl⟩ | ⟨s, rfl⟩
  · constructor
    · intro h
      cases h
    · rintro ⟨h, -⟩
      cases h
  · rw [amount_of_anyFloat field (y := y) rfl, Value.number?, Option.some.injEq]
  · rw [Value.number?]
    cases hs : Check.floatOfText? s with
    | none =>
      have hany : Check.anyFloat field (.text s) = Check.reject (.malformed field (.text s)) := by
        rw [Check.anyFloat, hs]
      constructor
      · intro h
        rw [Check.amount, Check.float, hany] at h
        cases h
      · rintro ⟨h, -⟩
        cases h
    | some y =>
      have hany : Check.anyFloat field (.text s) = .ok y := by rw [Check.anyFloat, hs]
      rw [amount_of_anyFloat field hany, Option.some.injEq]

theorem EntryType.ofText?_eq_some {s : String} {k : EntryType} :
    EntryType.ofText? s = some k ↔ s = k.text := by
  constructor
  · intro h
    have hk := List.find?_some (p := fun k => EntryType.text k == s) h
    exact (beq_iff_eq.1 hk).symm
  · rintro rfl
    exact EntryType.ofText?_text k

theorem kind_ok {v : Value} {k : EntryType} (hv : v = .null ∨ ∃ s, v = .text s) :
    Check.kind v = .ok k ↔ v = .text k.text := by
  rcases hv with rfl | ⟨s, rfl⟩
  · constructor <;> intro h <;> cases h
  · rw [Value.text.injEq, ← EntryType.ofText?_eq_some]
    cases h : EntryType.ofText? s <;>
      simp [Check.kind, Check.given, Part.kindOf?, Check.reject, Value.isNull, Value.text?, h, bind,
        Except.bind]

theorem moment_ok (field : String) {v : Value} {m : Moment}
    (hv : v = .null ∨ (∃ m, v = .moment m) ∨ ∃ d, v = .date d) :
    Check.moment field v = .ok m ↔ v.moment? = some m := by
  rcases hv with rfl | ⟨n, rfl⟩ | ⟨d, rfl⟩ <;>
    simp [Check.moment, Check.given, Check.reject, Value.isNull, Value.moment?, bind, Except.bind]

end Bookkeeping

namespace Bookkeeping.Service

open Store Number

/-! ## The own parts of a request -/

/-- What the own parts of a request must be like. -/
structure InOrder (r : EntryRequest) (c : Checked) : Prop where
  kind : Check.kind r.kind = .ok c.kind
  description : r.description.isNull = false
  category : r.category.isNull = false
  source : r.source.isNull = false
  currency : r.currency.isNull = false
  amount : Check.amount "amount" true r.amount = .ok c.amount
  date : Check.moment "date" r.date = .ok c.date
  rate : if r.rate.isNull then c.rate = none
    else ∃ x, Check.rate "conversion_rate" r.rate = .ok x ∧ c.rate = some x
  transfer : c.kind.isTransfer = true →
    r.secondary.isNull = false ∧ c.rate.isSome = true ∧ r.secondary.same r.source = false

theorem given_ok {field : String} {v w : Value} :
    Check.given field v = .ok w ↔ v.isNull = false ∧ w = v := by
  cases h : v.isNull <;> simp [Check.given, Check.reject, h, eq_comm]

theorem except_bind_ok_iff {ε α β : Type} {x : Except ε α} {f : α → Except ε β} {b : β} :
    (x >>= f) = .ok b ↔ ∃ a, x = .ok a ∧ f a = .ok b := by
  cases x with
  | error e => simp [bind, Except.bind]
  | ok a => simp [bind, Except.bind]

/-- Whether a result is a rejection. -/
def isRejection {α : Type} : Except Failure α → Bool
  | .error (.rejected _) => true
  | _ => false

theorem rejection_of_isRejection {α : Type} {x : Except Failure α} (h : isRejection x = true) :
    ∃ r, x = .error (.rejected r) := by
  cases x with
  | ok a => cases h
  | error e =>
    cases e with
    | rejected r => exact ⟨r, rfl⟩
    | _ => cases h

theorem transfer_ok {r : EntryRequest} {kind : EntryType} {rate : Option Float} {x c : Checked} :
    (if kind.isTransfer = true then do
      let _ ← Check.given "secondary_source_id" r.secondary
      if rate.isNone = true then Check.reject (.required "conversion_rate")
      else if r.secondary.same r.source = true then
        Check.reject (.outside "secondary_source_id" "must differ from source_id" r.secondary)
      else .ok x
    else .ok x : Check.Checked Checked) = .ok c ↔
      x = c ∧ (kind.isTransfer = true →
        r.secondary.isNull = false ∧ rate.isSome = true ∧ r.secondary.same r.source = false) := by
  cases kind.isTransfer with
  | false => simp
  | true =>
    simp only [if_true, except_bind_ok_iff, given_ok]
    cases rate with
    | none => simp [Check.reject]
    | some y => cases hs : r.secondary.same r.source <;> simp [Check.reject, and_comm]

theorem checkRequest_ok {r : EntryRequest} {c : Checked} :
    checkRequest r = .ok c ↔ InOrder r c := by
  unfold checkRequest
  simp only [except_bind_ok_iff, given_ok]
  constructor
  · rintro ⟨kind, hkind, _, ⟨hdescription, -⟩, _, ⟨hcategory, -⟩, _, ⟨hsource, -⟩, _,
      ⟨hcurrency, -⟩, amount, hamount, date, hdate, h⟩
    split at h
    · rename_i hn
      obtain ⟨rate, hrate, htail⟩ := except_bind_ok_iff.1 h
      obtain ⟨rfl, htransfer⟩ := transfer_ok.1 htail
      cases hrate
      exact ⟨hkind, hdescription, hcategory, hsource, hcurrency, hamount, hdate,
        by rw [if_pos hn], htransfer⟩
    · rename_i hn
      obtain ⟨rate, hrate, htail⟩ := except_bind_ok_iff.1 h
      obtain ⟨rfl, htransfer⟩ := transfer_ok.1 htail
      refine ⟨hkind, hdescription, hcategory, hsource, hcurrency, hamount, hdate, ?_, htransfer⟩
      rw [if_neg hn]
      cases hx : Check.rate "conversion_rate" r.rate with
      | error e => simp [hx, Functor.map, Except.map] at hrate
      | ok x =>
        rw [hx] at hrate
        cases hrate
        exact ⟨x, rfl, rfl⟩
  · intro h
    refine ⟨c.kind, h.kind, _, ⟨h.description, rfl⟩, _, ⟨h.category, rfl⟩, _, ⟨h.source, rfl⟩, _,
      ⟨h.currency, rfl⟩, c.amount, h.amount, c.date, h.date, ?_⟩
    have hrate := h.rate
    split
    · rename_i hn
      rw [if_pos hn] at hrate
      exact except_bind_ok_iff.2 ⟨c.rate, by rw [hrate], transfer_ok.2 ⟨rfl, h.transfer⟩⟩
    · rename_i hn
      rw [if_neg hn] at hrate
      obtain ⟨x, hx, hc⟩ := hrate
      refine except_bind_ok_iff.2 ⟨c.rate, ?_, transfer_ok.2 ⟨rfl, h.transfer⟩⟩
      rw [hx, hc]
      rfl

end Bookkeeping.Service
