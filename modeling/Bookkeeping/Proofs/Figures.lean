import Bookkeeping.Proofs.Absence
import Bookkeeping.Proofs.NameGiving

/-! # Numbers that are given

A number may be given as a value of any kind. Its check either finds the double that it stands for, or
rejects it in the field that it was given as; so the calls that take a rate or a balance are never
broken off by it. Integers beyond the largest double are the exception.
-/

namespace Bookkeeping

open Number

/-! ## Checks of numbers -/

/-- An integer beyond the largest double. -/
def Value.Oversized (v : Value) : Prop := ∃ n, v = .int n ∧ isFinite (ofInt n) = false

namespace Check

variable {field : String} {positive : Bool} {v : Value} {x : Float}

/-- What a check may say of a number: it is a finite double, above zero if that is asked for; or it is
rejected in its field, as missing if it is and as outside of its domain if it is not. Only an integer
beyond the largest double overflows. -/
def Judges (field : String) (positive : Bool) (v : Value) : Checked Float → Prop
  | .ok x => v.isNull = false ∧ isFinite x = true ∧ (positive = true → 0 < x) ∧ ¬ v.Oversized
  | .error (.rejected r) => r.field = some field ∧
      r.kind = (if v.isNull then .nullConstraint else .check) ∧ ¬ v.Oversized
  | .error (.misuse .overflow) => v.Oversized
  | .error _ => False

theorem not_oversized (h : ∀ n, v ≠ .int n) : ¬ v.Oversized := fun ⟨n, hv, _⟩ => h n hv

/-- A value gives some double, finite or not, or is judged at once. -/
theorem anyFloat_cases (field : String) (positive : Bool) (v : Value) :
    (∃ x, anyFloat field v = .ok x ∧ v.isNull = false ∧ ¬ v.Oversized) ∨
      ∃ e, anyFloat field v = .error e ∧ Judges field positive v (.error e) := by
  have hmaybe (o : Option Float) (hnull : v.isNull = false) (hint : ∀ n, v ≠ .int n)
      (hsome : ∀ x, o = some x → anyFloat field v = .ok x)
      (hnone : o = none → anyFloat field v = reject (.malformed field v)) :
      (∃ x, anyFloat field v = .ok x ∧ v.isNull = false ∧ ¬ v.Oversized) ∨
        ∃ e, anyFloat field v = .error e ∧ Judges field positive v (.error e) := by
    cases ho : o with
    | some x => exact .inl ⟨x, hsome x ho, hnull, not_oversized hint⟩
    | none => exact .inr ⟨_, hnone ho, rfl, by rw [hnull]; rfl, not_oversized hint⟩
  cases v with
  | null => exact .inr ⟨_, rfl, rfl, rfl, not_oversized (by simp)⟩
  | float x => exact .inl ⟨x, rfl, rfl, not_oversized (by simp)⟩
  | int n =>
    cases hn : isFinite (ofInt n) with
    | true =>
      refine .inl ⟨ofInt n, by simp [anyFloat, hn], rfl, ?_⟩
      rintro ⟨m, hm, hlarge⟩
      cases hm
      rw [hn] at hlarge
      cases hlarge
    | false => exact .inr ⟨.misuse .overflow, by simp [anyFloat, hn], n, rfl, hn⟩
  | decimal d =>
    exact hmaybe d.toFloat? rfl (by simp) (fun x hx => by simp [anyFloat, hx])
      fun hx => by simp [anyFloat, hx]
  | text s =>
    exact hmaybe (floatOfText? s) rfl (by simp) (fun x hx => by simp [anyFloat, hx])
      fun hx => by simp [anyFloat, hx]
  | kind k =>
    exact hmaybe (floatOfText? k.text) rfl (by simp) (fun x hx => by simp [anyFloat, hx])
      fun hx => by simp [anyFloat, hx]
  | bool _ | date _ | moment _ | list _ | dict _ =>
    exact hmaybe none rfl (by simp) (by simp) fun _ => by simp [anyFloat]

/-- What is left to check once the double of a value is known. -/
theorem amount_eq (h : anyFloat field v = .ok x) : amount field positive v =
    if isFinite x = false then reject (.outside field "must be a finite number" v)
    else if positive = true ∧ x ≤ 0 then reject (.outside field "must be greater than zero" v)
    else .ok x := by
  cases hx : isFinite x with
  | false => simp [amount, float, h, hx, bind, Except.bind, reject]
  | true => simp [amount, float, h, hx, bind, Except.bind]

theorem amount_judges (field : String) (positive : Bool) (v : Value) :
    Judges field positive v (amount field positive v) := by
  rcases anyFloat_cases field positive v with ⟨x, hx, hnull, hsize⟩ | ⟨e, he, hjudged⟩
  · have hkind : RejectionKind.check = (if v.isNull then .nullConstraint else .check) := by
      simp [hnull]
    rw [amount_eq hx]
    split
    · exact ⟨rfl, hkind, hsize⟩
    · rename_i hfinite
      rw [Bool.not_eq_false] at hfinite
      split
      · exact ⟨rfl, hkind, hsize⟩
      · rename_i hpos
        exact ⟨hnull, hfinite, fun hp => (zero_lt_iff hfinite).2 fun hle => hpos ⟨hp, hle⟩, hsize⟩
  · have herror : amount field positive v = .error e := by
      simp [amount, float, he, bind, Except.bind]
    rw [herror]
    exact hjudged

/-- A number that passed its check is a number that passes it. -/
theorem amount_again (h : amount field positive v = .ok x) :
    amount field positive (.float x) = .ok x := by
  have hjudged := amount_judges field positive v
  rw [h] at hjudged
  obtain ⟨-, hfinite, hpos, -⟩ := hjudged
  rw [amount_eq (x := x) rfl, if_neg (by simp [hfinite]),
    if_neg fun ⟨hp, hle⟩ => (zero_lt_iff hfinite).1 (hpos hp) hle]

theorem rejected_of_amount {e : Failure} (hsize : ¬ v.Oversized)
    (h : amount field positive v = .error e) : ∃ r, e = .rejected r := by
  have hjudged := amount_judges field positive v
  rw [h] at hjudged
  cases e with
  | rejected r => exact ⟨r, rfl⟩
  | misuse m =>
    cases m with
    | overflow => exact absurd hjudged hsize
    | _ => exact hjudged.elim
  | _ => exact hjudged.elim

theorem rejected_of_name {e : Failure} (h : name field v = .error e) : ∃ r, e = .rejected r := by
  unfold name given at h
  cases hnull : v.isNull with
  | true =>
    rw [hnull] at h
    cases h
    exact ⟨_, rfl⟩
  | false =>
    simp only [hnull, bind, Except.bind, Bool.false_eq_true, if_false] at h
    split at h
    · cases h
      exact ⟨_, rfl⟩
    · split at h
      · cases h
        exact ⟨_, rfl⟩
      · split at h <;> cases h
        exact ⟨_, rfl⟩

end Check

end Bookkeeping

namespace Bookkeeping.Store

open Op

variable {α β : Type} {s t : Session} {taken : Prop} {given : Ledger → Prop}

/-! ## Operations that are not broken off -/

/-- An operation succeeds or is rejected. -/
def Op.Answers (op : Op α) (s : Session) : Prop :=
  (∃ a t, op.exec s = (.ok a, t)) ∨ ∃ r t, op.exec s = (.error (.rejected r), t)

namespace Op.Answers

theorem ofFails {op : Op α} {e : Failure} (h : op.Fails s e) (he : ∃ r, e = .rejected r) :
    op.Answers s := by
  obtain ⟨t, hrun, -⟩ := h
  obtain ⟨r, rfl⟩ := he
  exact .inr ⟨r, t, hrun⟩

theorem ofClaims {op : Op α} (h : op.Claims s taken given) : op.Answers s := by
  rcases h with ⟨-, e, t, hrun, -⟩ | ⟨-, a, t, hrun, -⟩
  · exact .inr ⟨e, t, hrun⟩
  · exact .inl ⟨a, t, hrun⟩

theorem map {op : Op α} (h : op.Answers s) (f : α → β) : (f <$> op).Answers s := by
  rcases h with ⟨a, t, hrun⟩ | ⟨r, t, hrun⟩
  · exact .inl ⟨f a, t, by rw [exec_map, hrun]⟩
  · exact .inr ⟨r, t, by rw [exec_map, hrun]⟩

theorem logged {op : Op α} (h : op.Answers s) (operation : String) :
    (Service.logged operation op).Answers s := by
  rcases h with ⟨a, t, hrun⟩ | ⟨r, t, hrun⟩
  · exact .inl ⟨a, t, by rw [Service.exec_logged, hrun]⟩
  · exact .inr ⟨r, _, exec_logged_rejected hrun⟩

theorem transaction {body : Op α} (hs : s.Idle)
    (h : (∃ a t, body.exec s.start = (.ok a, t) ∧ t.Closes) ∨
      ∃ r t, body.exec s.start = (.error (.rejected r), t)) :
    (Store.transaction body).Answers s := by
  rcases h with ⟨a, t, hrun, ht⟩ | ⟨r, t, hrun⟩
  · exact .inl ⟨a, _, exec_transaction_ok hs.not_inBlock hs.breaks hrun ht⟩
  · exact .inr ⟨r, _, exec_transaction_error hs.not_inBlock hs.breaks hrun⟩

theorem bind {x : Op β} {f : β → Op α} (hx : x.Answers s)
    (hf : ∀ b t, x.exec s = (.ok b, t) → (f b).Answers t) : (x >>= f).Answers s := by
  rcases hx with ⟨b, t, hrun⟩ | ⟨r, t, hrun⟩
  · rw [Op.Answers, exec_bind_ok hrun]
    exact hf b t hrun
  · exact .inr ⟨r, t, exec_bind_error hrun⟩

theorem optionally {c : Bool} {x : Except Failure β} {k : Option β → Op α}
    (hx : c = false → ∀ e, x = .error e → ∃ r, e = .rejected r)
    (hk : ∀ o, (∀ b ∈ o, x = .ok b) → (k o).Answers s) :
    (if c = true then do let b ← pure none; k b
      else do let b ← some <$> lift x; k b).Answers s := by
  cases c with
  | true => exact hk none (by simp)
  | false =>
    refine .bind (.map ?_ some) fun o t ho => ?_
    · cases h : x with
      | ok b => exact .inl ⟨b, s, rfl⟩
      | error e => exact .ofFails (.lift rfl) (hx rfl e h)
    · obtain ⟨b, hb, rfl⟩ := Op.map_ok ho
      obtain ⟨hb, rfl⟩ := Op.lift_ok hb
      exact hk (some b) (by simpa using hb)

end Op.Answers

end Bookkeeping.Store

namespace Bookkeeping.Service

open Store Op Number

variable {s : Session} {user id : Value} {u n : Int}

/-! ## The calls that take a number -/

/-- A call that takes a rate or a balance, by what else it is given. -/
inductive Pricing where
  | currency (name : Value)
  | update (id name : Value)
  | source (name held : Value)

namespace Pricing

/-- The call. -/
def call (user number : Value) : Pricing → Call
  | currency name => .createCurrency user name number
  | update id name => .updateCurrency user id name number
  | source name held => .createSource user name held number

/-- The field that the number is given as. -/
def field : Pricing → String
  | currency _ | update _ _ => "rate_to_fixed"
  | source _ _ => "amount"

/-- Whether the number has to be above zero. -/
def positive : Pricing → Bool
  | currency _ | update _ _ => true
  | source _ _ => false

/-- Whether the store can hold what a call brings besides the number: there is room for a new row, and
an id is none that is too large. -/
def Fits (l : Ledger) : Pricing → Prop
  | currency _ => l.currencies.isFull = false
  | update id _ => ∃ n, id.id? = some n ∧ fitsInteger n = true
  | source _ held => l.sources.isFull = false ∧ ∃ n, held.id? = some n ∧ fitsInteger n = true

/-- A call does with a number what it does with the double that the number stands for. -/
theorem run_eq {g : Pricing} {v : Value} {x : Float}
    (h : Check.amount g.field g.positive v = .ok x) :
    (g.call user v).run = (g.call user (.float x)).run := by
  have hagain := Check.amount_again h
  cases g with
  | currency name =>
    show (fun r => Answer.currency (some r)) <$> createCurrency user name v
      = (fun r => Answer.currency (some r)) <$> createCurrency user name (.float x)
    have hv : Check.rate "rate_to_fixed" v = .ok x := h
    have hx : Check.rate "rate_to_fixed" (.float x) = .ok x := hagain
    rw [createCurrency, createCurrency, hv, hx]
  | update id name =>
    have hv : Check.rate "rate_to_fixed" v = .ok x := h
    have hx : Check.rate "rate_to_fixed" (.float x) = .ok x := hagain
    have hnull : v.isNull = false := by
      have hjudged := Check.amount_judges "rate_to_fixed" true v
      rw [show Check.amount "rate_to_fixed" true v = .ok x from h] at hjudged
      exact hjudged.1
    show Answer.currency <$> updateCurrency user id name v
      = Answer.currency <$> updateCurrency user id name (.float x)
    rw [updateCurrency, updateCurrency, hv, hx, hnull]
    rfl
  | source name held =>
    have hv : Check.amount "amount" false v = .ok x := h
    have hx : Check.amount "amount" false (.float x) = .ok x := hagain
    show (fun r => Answer.source (some r)) <$> createSource user name held v
      = (fun r => Answer.source (some r)) <$> createSource user name held (.float x)
    rw [createSource, createSource, hv, hx]

end Pricing

/-- A currency that is the user's can get any rate above zero, and a name that is free. -/
theorem exec_adjust (hs : s.Idle) (hi : Intact s.database.ledger) {r a : Row Currency}
    (hr : r ∈ s.database.ledger.currencies.rows) (hid : id.id? = some r.id)
    (huid : user.id? = some r.data.owner) (ha : reread r = .ok a)
    (name : Option String) (rate : Option Float) (hname : ∀ m ∈ name, Part.name (.text m) = .ok m)
    (hrate : ∀ x ∈ rate, IsPositive x)
    (hfree : ∀ m ∈ name, ∀ x ∈ s.database.ledger.currencies.rows,
      user.id? = some x.data.owner → x.data.name = m → (Value.int x.id).same id = true) :
    ∃ b t, (do
      let _ ← update Currency id (adjustments name rate)
      find Currency id).exec s.start = (.ok b, t) ∧ t.Closes := by
  have hcloses := Session.closes_start hs.breaks
  have hodd := hi.currencies.tidy.proper r hr
  by_cases hempty : adjustments name rate = []
  · have hnothing : (update Currency id []).exec s.start = (.ok false, s.start) := rfl
    have hfind := exec_find (ρ := Currency) (s := s.start) hs.ready hi hr hid
    rw [show Persistent.decode .full r = _ from ha] at hfind
    rw [hempty, exec_bind_ok hnothing]
    exact ⟨_, _, hfind, hcloses⟩
  · obtain ⟨b, hb⟩ := readable_adjusted hodd ha hname hrate
    obtain ⟨cells, hcells, hassigned⟩ :=
      assign_adjustments name (fun x hx => Number.isNaN_of_isFinite (hrate x hx).finite) hodd
    exact ⟨_, _, exec_revise (ρ := Currency) (s := s.start) hs.ready hi (adjustments name rate) hr
      hid hempty (by cases name <;> cases rate <;> rfl) hcells hassigned
      (intact_adjusted hi hr hid huid ha hname hrate hfree) hb, hcloses.put _⟩

section

variable (hs : s.Idle) (hi : Intact s.database.ledger) (huid : user.id? = some u)
  (hu : fitsInteger u = true)

include hs hi huid hu

/-- The currency of a new source is an active one of the user, or the source is not made. -/
theorem offered_or_fails (hid : id.id? = some n) (hn : fitsInteger n = true) :
    (∃ c, s.database.ledger.currencies.Offers user id c) ∨
      ∃ r, (loadOwned Currency user id "currency_id" true).Fails s.start (.rejected r) := by
  by_cases howns : s.database.ledger.currencies.Owns u n
  · obtain ⟨c, hc, rfl, rfl⟩ := howns
    cases hactive : Owned.archived c.data with
    | false => exact .inl ⟨c, hc, hid, huid, hactive⟩
    | true =>
      refine .inr ⟨.archivedReference "currency_id" id, s.start, ?_, rfl, rfl⟩
      obtain ⟨a, ha⟩ := hi.currencies.readable c hc
      have hfind := exec_findOwned (ρ := Currency) (s := s.start) hs.ready hi.currencies.tidy hc hid
        huid hu
      rw [ha] at hfind
      have harchived : OwnedRecord.isArchived Currency a.data = true := by
        rw [(LawfulNamed.read_eq (ρ := Currency) c a (hi.currencies.tidy.proper c hc) ha).2, hactive]
      rw [loadOwned, isNull_of_id? hid, if_neg (by simp), exec_bind_ok hfind]
      simp only [harchived]
      rfl
  · have hload := (fails_load (ρ := Currency) hs huid hu hid hi.currencies.tidy howns "currency_id"
      true).2
    rw [unresolved, if_pos hn] at hload
    exact .inr ⟨_, hload⟩

variable {number : Value}

/-- Changing a currency that the user has ends in one way or the other. -/
theorem answers_updateCurrency (hid : id.id? = some n) (hn : fitsInteger n = true) (name : Value)
    (hnumber : ∀ e, Check.rate "rate_to_fixed" number = .error e → ∃ r, e = .rejected r) :
    (updateCurrency user id name number).Answers s := by
  refine .logged (.optionally (fun _ _ => Check.rejected_of_name) fun m hm =>
    .optionally (fun _ => hnumber) fun x hx => .bind (.transaction hs ?_)
      fun b t _ => ?_) _
  · by_cases howns : s.database.ledger.currencies.Owns u n
    · obtain ⟨r, hr, rfl, rfl⟩ := howns
      have hk := hi.currencies
      obtain ⟨a, ha⟩ := hk.readable r hr
      obtain ⟨b, hfetch⟩ := exec_fetch (ρ := Currency) hs hi hr hid huid
      have hrate : ∀ y ∈ x, IsPositive y := fun y hy => Check.rate_ok (hx y hy)
      rw [exec_bind_ok hfetch]
      cases m with
      | none =>
        exact .inl (exec_adjust hs hi hr hid huid ha none x (by simp) hrate (by simp))
      | some m =>
        obtain ⟨hstrip, hpart⟩ := Check.name_ok (hm m rfl)
        have hclaims := claims_ensureUnique (s := s.start) hs.ready hk huid hu hstrip
          (isId_of_id? hid)
        rcases hclaims with ⟨-, e, w, hrun, -⟩ | ⟨hfree, _, w, hrun, -⟩
        · exact .inr ⟨e, w, exec_bind_error hrun⟩
        · obtain rfl := ensureUnique_ok hs.ready hrun
          obtain ⟨c, z, hdone, hz⟩ := exec_adjust hs hi hr hid huid ha (some m) x
            (by simpa using hpart) hrate (by
              rintro _ ⟨⟩
              exact same_of_free huid (isId_of_id? hid) hfree)
          exact .inl ⟨c, z, (exec_bind_ok hrun).trans hdone, hz⟩
    · have hload := (fails_load (ρ := Currency) hs huid hu hid hi.currencies.tidy howns
        "currency_id" false).2
      rw [unresolved, if_pos hn] at hload
      obtain ⟨t, hrun, -⟩ := hload
      exact .inr ⟨_, t, exec_bind_error hrun⟩
  · dsimp only
    split
    · exact .inl ⟨b, _, rfl⟩
    · exact .inl ⟨b, _, rfl⟩

variable (hv : Vetted s.database.ledger)

include hv

/-- Making a currency for anybody ends in one way or the other. -/
theorem answers_createCurrency (name : Value) (room : s.database.ledger.currencies.isFull = false)
    (hnumber : ∀ e, Check.rate "rate_to_fixed" number = .error e → ∃ r, e = .rejected r) :
    (createCurrency user name number).Answers s := by
  cases hname : Check.name "name" name with
  | error e =>
    exact .ofFails (.logged (.bind (.lift hname) _) _) (Check.rejected_of_name hname)
  | ok m =>
    cases hrate : Check.rate "rate_to_fixed" number with
    | error e =>
      exact .ofFails (.logged (.passed hname (.bind (.lift hrate) _)) _)
        (hnumber e hrate)
    | ok x =>
      by_cases huser : s.database.ledger.users.Has u
      · obtain ⟨o, ho, rfl⟩ := huser
        obtain ⟨a, hread⟩ := (hv.users o ho).readable (hi.users.proper o ho)
        exact .ofClaims (claims_createCurrency hs hi ho huid hread hname hrate room)
      · have hfails := fails_requireUser (s := s.start) hs.ready huid hu huser
        exact .ofFails (.logged (.passed hname (.passed hrate
          (.bind (.transaction hs.not_inBlock hs.breaks (.bind hfails _)) _))) _) ⟨_, rfl⟩

/-- Making a source for anybody ends in one way or the other. -/
theorem answers_createSource (name : Value) (hid : id.id? = some n) (hn : fitsInteger n = true)
    (room : s.database.ledger.sources.isFull = false)
    (hnumber : ∀ e, Check.amount "amount" false number = .error e → ∃ r, e = .rejected r) :
    (createSource user name id number).Answers s := by
  cases hname : Check.name "name" name with
  | error e =>
    exact .ofFails (.logged (.bind (.lift hname) _) _) (Check.rejected_of_name hname)
  | ok m =>
    cases hamount : Check.amount "amount" false number with
    | error e =>
      exact .ofFails (.logged (.passed hname (.bind (.lift hamount) _)) _) (hnumber e hamount)
    | ok x =>
      rcases offered_or_fails hs hi huid hu hid hn with ⟨c, hc⟩ | ⟨r, hload⟩
      · obtain ⟨o, ho, hoid⟩ := hi.currencies.owned c hc.mem
        have huid : user.id? = some o.id := hoid ▸ hc.owner
        obtain ⟨a, hread⟩ := (hv.users o ho).readable (hi.users.proper o ho)
        exact .ofClaims (claims_createSource hs hi ho huid hread hname hamount hc room)
      · have hfails := fails_createSource hs hi hv huid hu hload name number
        rw [hname, hamount] at hfails
        refine .ofFails hfails ?_
        show ∃ e, (if s.database.ledger.users.Has u then none
          else some (Failure.rejected (.noUser user))).getD (Failure.rejected r) = .rejected e
        split <;> exact ⟨_, rfl⟩

end

/-- Whatever is given as a number: its check gives a finite double, which is above zero if that is
asked for, or rejects it in the field that it was given as, as missing if and only if it is null. What
the calls that take a number do with it is what they do with the double that it stands for. And they
succeed or are rejected, as far as the store can hold what else they are given, after any calls. All
this is so but for integers beyond the largest double, of which it is only known that they
overflow. -/
theorem Call.number_judged (v : Value) :
    (∀ field positive, Check.Judges field positive v (Check.amount field positive v)) ∧
    (∀ field, Check.Judges field true v (Check.rate field v)) ∧
    (∀ (g : Pricing) x, Check.amount g.field g.positive v = .ok x → ∀ (s : Session) user,
      (g.call user v).run.exec s = (g.call user (.float x)).run.exec s) ∧
    ∀ (s : Session) (g : Pricing) user u, Serviceable s.database → s.inTransaction = false →
      s.fuse = none → s.breaks = none → user.id? = some u → fitsInteger u = true →
      g.Fits s.database.ledger → ¬ v.Oversized → (g.call user v).run.Answers s := by
  refine ⟨fun field positive => Check.amount_judges field positive v,
    fun field => Check.amount_judges field true v,
    fun g x hx s user => congrArg (Op.exec · s) (Pricing.run_eq hx), ?_⟩
  intro s g user u hd ho hfuse hbreaks huid hu hfits hsize
  obtain ⟨hlayout, hi⟩ := hd.reachable.intact
  have hs : s.Idle := ⟨ho, hlayout, hfuse, hbreaks⟩
  cases g with
  | currency name =>
    exact .map (answers_createCurrency hs hi huid hu hd.vetted name hfits
      fun e he => Check.rejected_of_amount hsize he) _
  | update id name =>
    obtain ⟨n, hid, hn⟩ := hfits
    exact .map (answers_updateCurrency hs hi huid hu hid hn name
      fun e he => Check.rejected_of_amount hsize he) _
  | source name held =>
    obtain ⟨room, n, hid, hn⟩ := hfits
    exact .map (answers_createSource hs hi huid hu hd.vetted name hid hn room
      fun e he => Check.rejected_of_amount hsize he) _

/-- After a first entry, a rate written with a comma is taken, a decimal number that signals is
rejected as outside of its domain, and a source may start with the largest of all doubles. -/
theorem numbers_after_firstSpending :
    let s := newSession.after firstSpending
    (Call.updateCurrency (.int 1) (.int 1) .null (.text "1,250.75")).run.Answers s ∧
    (Call.createCurrency (.int 1) (.text "EUR") (.decimal (.nan false true 0))).run.Answers s ∧
    (Call.createSource (.int 1) (.text "Bank") (.int 1) (.int (10 ^ 308))).run.Answers s ∧
    Check.Judges "rate_to_fixed" true (.decimal (.nan false true 0))
      (Check.rate "rate_to_fixed" (.decimal (.nan false true 0))) := by
  intro s
  have hd : Serviceable s.database :=
    Serviceable.after (s := newSession) .migrated rfl compact_newSession typed_firstSpending
  obtain ⟨hcurrencies, hsources, ho, hfuse, hbreaks⟩ :
      s.database.ledger.currencies.isFull = false ∧ s.database.ledger.sources.isFull = false ∧
      s.inTransaction = false ∧ s.fuse = none ∧ s.breaks = none := by decide +kernel
  clear_value s
  have hjudged (v : Value) (hsize : ¬ v.Oversized) (g : Pricing) (hfits : g.Fits s.database.ledger) :
      (g.call (.int 1) v).run.Answers s :=
    (Call.number_judged v).2.2.2 s g (.int 1) 1 hd ho hfuse hbreaks rfl rfl hfits hsize
  refine ⟨hjudged (.text "1,250.75") (Check.not_oversized (by simp)) (.update (.int 1) .null)
      ⟨1, rfl, rfl⟩,
    hjudged (.decimal (.nan false true 0)) (Check.not_oversized (by simp))
      (.currency (.text "EUR")) hcurrencies,
    hjudged (.int (10 ^ 308)) ?_ (.source (.text "Bank") (.int 1)) ⟨hsources, 1, rfl, rfl⟩,
    (Call.number_judged (.decimal (.nan false true 0))).2.1 "rate_to_fixed"⟩
  rintro ⟨n, hn, hlarge⟩
  cases hn
  exact absurd hlarge (by decide +kernel)

/-- An integer that is too large for a double overflows as a rate, and so does the call that it is
given to. -/
theorem rate_beyond_doubles :
    let s := newSession.after [registration]
    Check.rate "rate_to_fixed" (.int (16 ^ 256)) = .error (.misuse .overflow) ∧
    ∃ t, (Call.createCurrency (.int 1) (.text "EUR") (.int (16 ^ 256))).run.exec s
      = (.error (.misuse .overflow), t) := by
  intro s
  have hlarge : isFinite (ofInt (16 ^ 256)) = false := by decide +kernel
  generalize (16 ^ 256 : Int) = n at hlarge ⊢
  have hrate : Check.rate "rate_to_fixed" (.int n) = .error (.misuse .overflow) := by
    simp [Check.rate, Check.amount, Check.float, Check.anyFloat, hlarge, bind, Except.bind]
  have hname : Check.name "name" (.text "EUR") = .ok "EUR" := rfl
  have hfails : (createCurrency (.int 1) (.text "EUR") (.int n)).Fails s (.misuse .overflow) :=
    .logged (.passed hname (.bind (.lift hrate) _)) _
  obtain ⟨t, hrun, -⟩ := hfails.map fun r => Answer.currency (some r)
  exact ⟨hrate, t, hrun⟩

end Bookkeeping.Service
