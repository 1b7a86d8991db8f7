import Bookkeeping.Proofs.Deletions
import Bookkeeping.Proofs.NameLookups
import Bookkeeping.Proofs.Recording

/-! # Giving names

A name that passes its check is stored as it was checked, without the blanks at its ends. It may be
given if no other row of the user has it, be that archived or not; user names are compared with
those of all accounts. If the rest of what a call is given is in order, that is the only reason for
it to be rejected.
-/

namespace Bookkeeping.Store

open Op

variable {α β : Type} {s t : Session} {taken : Prop} {given : Ledger → Prop}

/-! ## Operations that give a name -/

/-- What an operation that gives a name comes to: it is rejected as not unique if the name is taken,
and otherwise it succeeds, within a block such that the block goes through, and leaves a ledger in
which the name is given. -/
def Op.Claims (op : Op α) (s : Session) (taken : Prop) (given : Ledger → Prop) : Prop :=
  (taken ∧ ∃ e t, op.exec s = (.error (.rejected e), t) ∧ e.kind = .unique) ∨
  ¬ taken ∧ ∃ a t, op.exec s = (.ok a, t) ∧ (s.Closes → t.Closes) ∧ given t.database.ledger

namespace Op.Claims

theorem map {op : Op α} (h : op.Claims s taken given) (f : α → β) :
    (f <$> op).Claims s taken given := by
  rcases h with ⟨htaken, e, t, hrun, he⟩ | ⟨hfree, a, t, hrun, hgiven⟩
  · exact .inl ⟨htaken, e, t, by rw [exec_map, hrun], he⟩
  · exact .inr ⟨hfree, f a, t, by rw [exec_map, hrun], hgiven⟩

theorem logged {op : Op α} (h : op.Claims s taken given) (operation : String) :
    (Service.logged operation op).Claims s taken given := by
  rcases h with ⟨htaken, e, t, hrun, he⟩ | ⟨hfree, a, t, hrun, hgiven⟩
  · exact .inl ⟨htaken, e, _, exec_logged_rejected hrun, he⟩
  · exact .inr ⟨hfree, a, t, by rw [Service.exec_logged, hrun], hgiven⟩

/-- A transaction gives the name if its body does. -/
theorem transaction {body : Op α} (hs : s.Idle) (h : body.Claims s.start taken given) :
    (Store.transaction body).Claims s taken given := by
  rcases h with ⟨htaken, e, t, hrun, he⟩ | ⟨hfree, a, t, hrun, hcloses, hgiven⟩
  · exact .inl ⟨htaken, e, _, exec_transaction_error hs.not_inBlock hs.breaks hrun, he⟩
  · refine .inr ⟨hfree, a, _, exec_transaction_ok hs.not_inBlock hs.breaks hrun
      (hcloses (Session.closes_start hs.breaks)), fun h => ?_, hgiven⟩
    have hin := h.inBlock
    rw [hs.not_inBlock] at hin
    cases hin

/-- What goes before the name is looked at succeeds. -/
theorem after {x : Op β} {f : β → Op α} {b : β} (hx : x.exec s = (.ok b, t))
    (hcloses : s.Closes → t.Closes) (h : (f b).Claims t taken given) :
    (x >>= f).Claims s taken given := by
  rcases h with ⟨htaken, e, u, hrun, he⟩ | ⟨hfree, a, u, hrun, hu, hgiven⟩
  · exact .inl ⟨htaken, e, u, (exec_bind_ok hx).trans hrun, he⟩
  · exact .inr ⟨hfree, a, u, (exec_bind_ok hx).trans hrun, hu ∘ hcloses, hgiven⟩

/-- What goes before is only looked up. -/
theorem looked {x : Op β} {f : β → Op α} {b : β} (hx : x.exec s = (.ok b, s))
    (h : (f b).Claims s taken given) : (x >>= f).Claims s taken given :=
  .after hx id h

theorem checked {x : Except Failure β} {f : β → Op α} {b : β} (hx : x = .ok b)
    (h : (f b).Claims s taken given) : (lift x >>= f).Claims s taken given :=
  .looked (by rw [exec_lift, hx]) h

/-- The same of a check of what may be missing. -/
theorem optionally {c : Bool} {x : Except Failure β} {k : Option β → Op α}
    (hx : c = true ∨ ∃ b, x = .ok b)
    (hk : ∀ o, (∀ b ∈ o, x = .ok b) → o.isSome = !c → (k o).Claims s taken given) :
    (if c = true then do let b ← pure none; k b else do let b ← some <$> lift x; k b).Claims s
      taken given := by
  cases c with
  | true => exact .looked (exec_pure none s) (hk none (by simp) rfl)
  | false =>
    obtain ⟨b, rfl⟩ := hx.resolve_left (by simp)
    refine .looked ?_ (hk (some b) (by simp) rfl)
    rw [exec_map, exec_lift]

/-- What goes on once the name is known to be free succeeds. -/
theorem bind {x : Op β} {f : β → Op α} {found : Ledger → Prop} (h : x.Claims s taken found)
    (hf : ∀ b t, ¬ taken → x.exec s = (.ok b, t) → found t.database.ledger →
      ∃ a u, (f b).exec t = (.ok a, u) ∧ (t.Closes → u.Closes) ∧ given u.database.ledger) :
    (x >>= f).Claims s taken given := by
  rcases h with ⟨htaken, e, t, hrun, he⟩ | ⟨hfree, b, t, hrun, ht, hfound⟩
  · exact .inl ⟨htaken, e, t, exec_bind_error hrun, he⟩
  · obtain ⟨a, u, hdone, hu, hgiven⟩ := hf b t hfree hrun hfound
    exact .inr ⟨hfree, a, u, (exec_bind_ok hrun).trans hdone, hu ∘ ht, hgiven⟩

/-- What is done once the name is given only logs something. -/
theorem followed {x : Op β} {f : β → Op α} (h : x.Claims s taken given)
    (hf : ∀ b t, ∃ a log, (f b).exec t = (.ok a, { t with log })) :
    (x >>= f).Claims s taken given :=
  h.bind fun b t _ _ hgiven => by
    obtain ⟨a, log, hdone⟩ := hf b t
    exact ⟨a, _, hdone, fun ht => ⟨ht.inside, ht.breaks⟩, hgiven⟩

theorem mono {op : Op α} {given' : Ledger → Prop} (h : op.Claims s taken given)
    (hgiven : ∀ l, given l → given' l) : op.Claims s taken given' :=
  h.imp_right fun ⟨hfree, a, t, hrun, ht, hl⟩ => ⟨hfree, a, t, hrun, ht, hgiven _ hl⟩

theorem congr {op : Op α} {taken' : Prop} (h : op.Claims s taken given) (htaken : taken ↔ taken') :
    op.Claims s taken' given := by
  rwa [Op.Claims, ← htaken]

end Op.Claims

end Bookkeeping.Store

namespace Bookkeeping.Service

open Store Op

variable {s : Session} {user id : Value} {u : Int} {given : Ledger → Prop}

/-! ## Names of rows -/

/-- Rows are excepted by their ids. -/
theorem same_except {except : Value} (h : except.isId = true) (n : Int) :
    (Value.int n).same except = decide (except.id? = some n) := by
  cases hid : except.id? with
  | none =>
    cases except with
    | null => simp [Value.same, Value.text?, Value.exactNumber?, Value.infinite?]
    | bool b => cases hid
    | int m => cases hid
    | _ => cases h
  | some m => simp [Value.same_of_id? (v := .int n) rfl hid, eq_comm]

section

variable {ρ β : Type} [Catalog ρ] [LawfulNamed ρ] (h : s.Ready) {users : Int → Prop}
  (hk : (Relation.table (ρ := ρ) s.database.ledger).Kept users) (huid : user.id? = some u)
  (hu : fitsInteger u = true) {name : String} (hname : Text.strip name = name)

include h hk huid hu hname

/-- A name is free if no row of the user has it but the excepted one. -/
theorem claims_ensureUnique {except : Value} (hexcept : except.isId = true) :
    (ensureUnique ρ user name except).Claims s
      (∃ n, (Relation.table (ρ := ρ) s.database.ledger).Names u name n ∧ except.id? ≠ some n)
      fun _ => True := by
  have hfind := exec_findByName huid hu hk.tidy h name
  rw [hname] at hfind
  rcases pick_readable (p := goesBy u name) hk.readable with
    ⟨r, hr, hgoes, a, ha, hpick⟩ | ⟨hnone, hpick⟩
  · have hnames := names_iff.2 ⟨r, hr, rfl, hgoes⟩
    have hid := (LawfulNamed.read_eq r a (hk.tidy.proper r hr) ha).1
    rw [hpick] at hfind
    by_cases hsame : except.id? = some r.id
    -- the row that is found is the only one of the name
    · refine .inr ⟨fun ⟨n, hn, hne⟩ => hne ?_, (), s, ?_, id, trivial⟩
      · rw [hsame, hk.names_unique hnames hn]
      · rw [ensureUnique, exec_bind_ok hfind]
        simp [same_except hexcept, hid, hsame]
    · refine .inl ⟨⟨r.id, hnames, hsame⟩, .nameTaken (Catalog.entity ρ) name user, s, ?_, rfl⟩
      rw [ensureUnique, exec_bind_ok hfind]
      simp [same_except hexcept, hid, hsame]
  · refine .inr ⟨?_, (), s, ?_, id, trivial⟩
    · rintro ⟨n, hn, -⟩
      obtain ⟨r, hr, -, hgoes⟩ := names_iff.1 hn
      rw [hnone r hr] at hgoes
      cases hgoes
    · rw [hpick] at hfind
      rw [ensureUnique, exec_bind_ok hfind]
      rfl

end

theorem isId_of_id? {v : Value} {n : Int} (h : v.id? = some n) : v.isId = true := by
  simp [Value.isId, h]

/-- Whoever uses a free name is excepted. -/
theorem same_of_free {ρ : Type} [Named ρ] {t : Table ρ} {except : Value} {name : String}
    (huid : user.id? = some u) (hexcept : except.isId = true)
    (hfree : ¬ ∃ n, t.Names u name n ∧ except.id? ≠ some n) : ∀ x ∈ t.rows,
      user.id? = some (Owned.owner x.data) → Named.rowName x.data = name →
      (Value.int x.id).same except = true := by
  intro x hx hown hsame
  rw [same_except hexcept, decide_eq_true_eq]
  by_contra hne
  exact hfree ⟨x.id, ⟨x, hx, rfl, Option.some.inj (hown.symm.trans huid), hsame⟩, hne⟩

theorem mem_revised {ρ α : Type} [Persistent ρ α] [LawfulRelation ρ] {l : Ledger} {r : Row ρ}
    {a : ρ} (hr : r ∈ (Relation.table (ρ := ρ) l).rows) : ⟨r.id, a, []⟩ ∈ (Relation.table (ρ := ρ)
      (Relation.withTable l ((Relation.table (ρ := ρ) l).replace r.id ⟨r.id, a, []⟩))).rows := by
  rw [LawfulRelation.table_withTable]
  exact (Table.mem_replace (r := ⟨r.id, a, []⟩)).2 (.inl ⟨rfl, r, hr, rfl⟩)

/-- A row that is changed and read again. -/
theorem exec_revise {ρ α : Type} [Persistent ρ α] [Held ρ] [Governed ρ] (h : s.Ready)
    (hi : Intact s.database.ledger) (fields : List (String × Value))
    {cells : List (String × Cell)} {r : Row ρ} {a : ρ} {b : Row α}
    (hr : r ∈ (Relation.table (ρ := ρ) s.database.ledger).rows) (hid : id.id? = some r.id)
    (hf : fields ≠ []) (hknown : missingColumn? ρ .full fields = none)
    (hc : paramFields fields = .ok cells)
    (ha : Ledger.assigned Relation.columns cells r = .ok ⟨r.id, a, []⟩)
    (h' : Intact (Relation.withTable s.database.ledger
      ((Relation.table (ρ := ρ) s.database.ledger).replace r.id ⟨r.id, a, []⟩)))
    (hb : Persistent.decode .full (⟨r.id, a, []⟩ : Row ρ) = .ok b) :
    (do
      let _ ← update ρ id fields
      find ρ id).exec s = (.ok (some b), s.put (Relation.withTable s.database.ledger
        ((Relation.table (ρ := ρ) s.database.ledger).replace r.id ⟨r.id, a, []⟩))) := by
  rw [exec_bind_ok (exec_update h hi hr hid hf hknown hc ha h'),
    exec_find (h.put _) h' (mem_revised hr) hid, hb]
  rfl

/-- A new row is stored under a name that its owner does not use. -/
theorem exec_make {ρ : Type} [Catalog ρ] [Legible ρ] [Governed ρ] (h : s.Ready)
    (hi : Intact s.database.ledger) {x : ρ} {name : String} {P : Ledger → Prop}
    (hmakes : Makes user name P (Persistent.encode (ρ := ρ) s.now x)) (hP : P s.database.ledger)
    (huid : user.id? = some u) (hu : s.database.ledger.users.Has u)
    (hfree : ∀ n, ¬ (Relation.table (ρ := ρ) s.database.ledger).Names u name n)
    (room : (Relation.table (ρ := ρ) s.database.ledger).isFull = false) :
    ∃ y m, (Store.insert ρ x).exec s = (.ok y, s.put m) ∧ Intact m ∧
      y.id = (Relation.table (ρ := ρ) s.database.ledger).nextId ∧
      m = Relation.withTable s.database.ledger ((Relation.table (ρ := ρ) s.database.ledger).insert
        (Persistent.encode s.now x)) ∧
      (Relation.table (ρ := ρ) m).Names u name
        (Relation.table (ρ := ρ) s.database.ledger).nextId := by
  have howner := hmakes.owner u huid
  have hadmits : (Relation.table (ρ := ρ) s.database.ledger).Admits s.database.ledger.users.Has
      (Persistent.encode (ρ := ρ) s.now x) :=
    { room
      owner := howner.symm ▸ hu
      name := fun r hr hown hsame =>
        hfree r.id ⟨r, hr, rfl, hown.trans howner, hsame.trans hmakes.name⟩
      readable := hmakes.readable _ }
  have hintact := (hmakes.step _ hP hadmits).intact hi
  obtain ⟨y, hy⟩ := hmakes.readable (Relation.table (ρ := ρ) s.database.ledger).nextId
  refine ⟨y, _, exec_insert h hi room hintact hy, hintact, (LawfulNamed.read_eq _ y rfl hy).1,
    rfl, ?_⟩
  rw [LawfulRelation.table_withTable]
  exact ⟨_, Table.mem_insert.2 (.inr rfl), rfl, howner, hmakes.name⟩

/-- A new row may have any name that its owner does not use. -/
theorem claims_create {ρ : Type} [Catalog ρ] [Legible ρ] [Governed ρ] (hs : s.Idle)
    (hi : Intact s.database.ledger) {o a : Row User} (ho : o ∈ s.database.ledger.users.rows)
    (hoid : user.id? = some o.id) (hread : reread o = .ok a) {name : String}
    (hname : Text.strip name = name) {record : Op ρ} {x : ρ} {check : Op Unit} {P : Ledger → Prop}
    (hcheck : check.exec s.start = (.ok (), s.start)) (hP : P s.database.ledger)
    (hrecord : record.exec s.start = (.ok x, s.start))
    (hmakes : Makes user name P (Persistent.encode (ρ := ρ) s.now x))
    (room : (Relation.table (ρ := ρ) s.database.ledger).isFull = false) :
    (create ρ user name record check).Claims s
      (∃ n, (Relation.table (ρ := ρ) s.database.ledger).Names o.id name n ∧
        some (Relation.table (ρ := ρ) s.database.ledger).nextId ≠ some n)
      fun l => (Relation.table (ρ := ρ) l).Names o.id name
        (Relation.table (ρ := ρ) s.database.ledger).nextId := by
  have hk := Revisable.kept (ρ := ρ) s.database.ledger hi
  have hnew : ∀ n, (Relation.table (ρ := ρ) s.database.ledger).Names o.id name n →
      some (Relation.table (ρ := ρ) s.database.ledger).nextId ≠ some n := by
    rintro _ ⟨r, hr, rfl, -⟩ hid
    exact absurd (Option.some.inj hid).symm (Int.ne_of_lt (Table.id_lt_nextId _ hr))
  refine .transaction hs (.looked (exec_requireUser hs.ready hi ho hoid hread)
    (.looked hcheck (.congr (.bind (claims_ensureUnique (s := s.start) hs.ready hk hoid
      (hi.users.fits o ho) hname (show Value.null.isId = true from rfl))
        fun _ t hfree hx _ => ?_) ?_)))
  · obtain rfl := ensureUnique_ok hs.ready hx
    obtain ⟨y, m, hinsert, -, -, -, hnames⟩ := exec_make (s := s.start) hs.ready hi hmakes hP hoid
      ⟨o, ho, rfl⟩ (fun n hn => hfree ⟨n, hn, by simp [Value.id?]⟩) room
    exact ⟨y, s.start.put m, (exec_bind_ok hrecord).trans hinsert, .put m, hnames⟩
  · exact exists_congr fun n => and_congr_right fun hn =>
      iff_of_true (by simp [Value.id?]) (hnew n hn)

section

variable (hs : s.Idle) (hi : Intact s.database.ledger)

include hs hi

/-- A row of the user may keep its name or get one that the user does not use. -/
theorem claims_rename {ρ : Type} [Catalog ρ] [Legible ρ] [Governed ρ] {r : Row ρ}
    (hr : r ∈ (Relation.table (ρ := ρ) s.database.ledger).rows) (hid : id.id? = some r.id)
    (huid : user.id? = some (Owned.owner r.data)) {v : Value} {name : String}
    (hv : Check.name "name" v = .ok name) : (rename ρ user id v).Claims s
      (∃ n, (Relation.table (ρ := ρ) s.database.ledger).Names (Owned.owner r.data) name n ∧
        id.id? ≠ some n)
      fun l => (Relation.table (ρ := ρ) l).Names (Owned.owner r.data) name r.id := by
  have hk := Revisable.kept (ρ := ρ) s.database.ledger hi
  have hodd := hk.tidy.proper r hr
  obtain ⟨a, ha⟩ := hk.readable r hr
  obtain ⟨hstrip, hpart⟩ := Check.name_ok hv
  obtain ⟨b, hb⟩ := Legible.readable_named hodd ha hpart
  obtain ⟨c, hfetch⟩ := exec_fetch hs hi hr hid huid
  refine .logged (.checked hv ?_) _
  refine .followed ?_ fun b t => ⟨b, _, rfl⟩
  refine .transaction hs (.looked hfetch (.bind (claims_ensureUnique (s := s.start) hs.ready
    hk huid ((hk.owned r hr).fits hi.users) hstrip (isId_of_id? hid)) fun _ t hfree hx _ => ?_))
  obtain rfl := ensureUnique_ok hs.ready hx
  exact ⟨_, _, exec_revise (s := s.start) hs.ready hi [("name", .text name)] hr hid (by simp)
    (Legible.known _).1 rfl (Legible.assign_name name hodd)
    (intact_named hi hr hid huid ha hpart (same_of_free huid (isId_of_id? hid) hfree)) hb, .put _,
    _, mem_revised hr, rfl, Revisable.owner_named name _, Legible.rowName_named name _⟩

/-- The same for a currency that may get another rate along with its name. -/
theorem claims_updateCurrency {r : Row Currency} (hr : r ∈ s.database.ledger.currencies.rows)
    (hid : id.id? = some r.id) (huid : user.id? = some r.data.owner) {t name : String}
    {rate : Value} (hv : Check.name "name" (.text t) = .ok name)
    (hrate : rate.isNull = true ∨ ∃ x, Check.rate "rate_to_fixed" rate = .ok x) :
    (updateCurrency user id (.text t) rate).Claims s
      (∃ n, s.database.ledger.currencies.Names r.data.owner name n ∧ id.id? ≠ some n)
      fun l => l.currencies.Names r.data.owner name r.id := by
  have hk := hi.currencies
  have hodd := hk.tidy.proper r hr
  obtain ⟨a, ha⟩ := hk.readable r hr
  obtain ⟨hstrip, hpart⟩ := Check.name_ok hv
  obtain ⟨c, hfetch⟩ := exec_fetch (ρ := Currency) hs hi hr hid huid
  refine .logged (.optionally (.inr ⟨name, hv⟩) fun o ho hsome => .optionally hrate
    fun x hx _ => ?_) _
  obtain ⟨n, rfl⟩ := Option.isSome_iff_exists.1 hsome
  obtain rfl := Except.ok.inj (hv.symm.trans (ho n rfl))
  have hnames : ∀ n ∈ some name, Part.name (.text n) = .ok n := by
    rintro _ ⟨⟩
    exact hpart
  have hpos : ∀ y ∈ x, IsPositive y := fun y hy => Check.rate_ok (hx y hy)
  obtain ⟨b, hb⟩ := readable_adjusted hodd ha hnames hpos
  obtain ⟨cells, hcells, hassigned⟩ := assign_adjustments (some name)
    (fun y hy => Number.isNaN_of_isFinite (hpos y hy).finite) hodd
  refine .followed ?_ fun b t => ?_
  · refine .transaction hs (.looked hfetch (.bind (claims_ensureUnique (s := s.start)
      hs.ready hk huid ((hk.owned r hr).fits hi.users) hstrip (isId_of_id? hid))
        fun _ t hfree hx _ => ?_))
    obtain rfl := ensureUnique_ok hs.ready hx
    have hintact := intact_adjusted hi hr hid huid ha hnames hpos (by
      rintro _ ⟨⟩
      exact same_of_free huid (isId_of_id? hid) hfree)
    exact ⟨_, _, exec_revise (ρ := Currency) (s := s.start) hs.ready hi (adjustments (some name) x)
      hr hid (by simp [adjustments]) (by cases x <;> rfl) hcells hassigned hintact hb, .put _, _,
      mem_revised (ρ := Currency) hr, rfl, rfl, rfl⟩
  · dsimp only
    split
    · exact ⟨b, _, rfl⟩
    · exact ⟨b, _, rfl⟩

end

section

variable (hs : s.Idle) (hi : Intact s.database.ledger) {o a : Row User}
  (ho : o ∈ s.database.ledger.users.rows) (huid : user.id? = some o.id) (hread : reread o = .ok a)
  {v : Value} {name : String} (hv : Check.name "name" v = .ok name)

include hs hi ho huid hread hv

theorem claims_createCurrency {rate : Value} {x : Float}
    (hrate : Check.rate "rate_to_fixed" rate = .ok x)
    (room : s.database.ledger.currencies.isFull = false) : (createCurrency user v rate).Claims s
      (∃ n, s.database.ledger.currencies.Names o.id name n ∧
        some s.database.ledger.currencies.nextId ≠ some n)
      fun l => l.currencies.Names o.id name s.database.ledger.currencies.nextId := by
  obtain ⟨hstrip, hpart⟩ := Check.name_ok hv
  have hx := Check.rate_ok hrate
  have hitem : Currency.read [("user_id", user), ("name", .text name), ("rate_to_fixed", .float x)]
      = .ok { data := { owner := o.id, name, rate := x } } := by
    simp [Currency.read, Record.readId, Part.required, Part.withDefault, List.lookup_cons,
      Part.int_eq huid, hpart, hx.finite, hx.pos]
  refine .logged (.checked hv (.checked hrate ?_)) _
  refine .followed ?_ fun b t => ⟨b, _, rfl⟩
  exact claims_create (ρ := Currency) hs hi ho huid hread hstrip rfl trivial
    (recordOf_ok.2 ⟨rfl, _, hitem, rfl⟩) (makes_currency hitem hpart s.now) room

theorem claims_createCategory (room : s.database.ledger.categories.isFull = false) :
    (createCategory user v).Claims s
      (∃ n, s.database.ledger.categories.Names o.id name n ∧
        some s.database.ledger.categories.nextId ≠ some n)
      fun l => l.categories.Names o.id name s.database.ledger.categories.nextId := by
  obtain ⟨hstrip, hpart⟩ := Check.name_ok hv
  have hitem : Category.read [("user_id", user), ("name", .text name)]
      = .ok { data := { owner := o.id, name } } := by
    simp [Category.read, Record.readId, Part.required, Part.withDefault, List.lookup_cons,
      Part.int_eq huid, hpart]
  refine .logged (.checked hv ?_) _
  refine .followed ?_ fun b t => ⟨b, _, rfl⟩
  exact claims_create (ρ := Category) hs hi ho huid hread hstrip rfl trivial
    (recordOf_ok.2 ⟨rfl, _, hitem, rfl⟩) (makes_category hitem hpart s.now) room

theorem claims_createSource {currency amount : Value} {x : Float} {c : Row Currency}
    (hamount : Check.amount "amount" false amount = .ok x)
    (hc : s.database.ledger.currencies.Offers user currency c)
    (room : s.database.ledger.sources.isFull = false) :
    (createSource user v currency amount).Claims s
      (∃ n, s.database.ledger.sources.Names o.id name n ∧
        some s.database.ledger.sources.nextId ≠ some n)
      fun l => l.sources.Names o.id name s.database.ledger.sources.nextId := by
  obtain ⟨hstrip, hpart⟩ := Check.name_ok hv
  obtain ⟨b, -, hload⟩ := exec_loadActive (s := s.start) hs.ready hi hi.currencies "currency_id"
    (isId_of_id? huid) (isId_of_id? hc.id) hc
  have hitem : Source.read [("user_id", user), ("name", .text name), ("currency_id", currency),
      ("amount", .float x)]
        = .ok { data := { owner := o.id, name, currency := c.id, amount := x } } := by
    simp [Source.read, Record.readId, Part.required, Part.withDefault, List.lookup_cons,
      Part.int_eq huid, Part.int_eq hc.id, hpart, isFinite_of_amount hamount]
  refine .logged (.checked hv (.checked hamount ?_)) _
  refine .followed ?_ fun b t => ⟨b, _, rfl⟩
  exact claims_create (ρ := Source) hs hi ho huid hread hstrip
    ((exec_bind_ok hload).trans (exec_pure _ _)) ⟨c, hc.mem, hc.id, hc.owner, hc.active⟩
    (recordOf_ok.2 ⟨rfl, _, hitem, rfl⟩) (makes_source hitem hpart s.now) room

end

/-! ## User names -/

/-- The record of a new account has the name as it was checked. -/
theorem exec_newUser {username password : Value} {name p : String}
    (hname : Check.name "username" username = .ok name) (hp : Check.password password = .ok p)
    (hc : s.scheme.Compact) : ∃ x t, (newUser username password).exec s = (.ok x, t) ∧
      (s.Closes → t.Closes) ∧ x.username = name := by
  obtain ⟨k, hk⟩ := hc.read (n := s.salts) hp
  have hread : User.read [("username", .text name),
      ("password_hash", .text (s.scheme.hash s.salts p))]
        = .ok { data := { username := name, passwordHash := k } } := by
    simp [User.read, Record.readId, Part.required, Part.withDefault, List.lookup_cons,
      (Check.name_ok hname).2, hk]
  refine ⟨{ username := name, passwordHash := k }, { s with salts := s.salts + 1 }, ?_,
    fun h => ⟨h.inside, h.breaks⟩, rfl⟩
  rw [newUser, hname, exec_bind_ok (exec_lift _ _), hp, exec_bind_ok (exec_lift _ _),
    exec_bind_ok (exec_hashed p s)]
  exact recordOf_ok.2 ⟨rfl, _, hread, rfl⟩

section

variable (h : s.Ready) (hi : Intact s.database.ledger)

include h hi

/-- A new account may have any name that no account has. -/
theorem claims_insertUser (hv : Vetted s.database.ledger) {x : User} (hx : Fresh x)
    (room : s.database.ledger.users.isFull = false) : (insertUser x).Claims s
      (∃ n, s.database.ledger.users.Usernames x.username n ∧
        some s.database.ledger.users.nextId ≠ some n)
      fun l => l.users.Usernames x.username s.database.ledger.users.nextId := by
  have hfind := exec_findUsername h x.username
  rw [hx.name] at hfind
  rcases pick_readable (ρ := User) (p := calledBy x.username) (fun r hr =>
    (hv.users r hr).readable (hi.users.proper r hr)) with
    ⟨r, hr, hcalled, a, ha, hpick⟩ | ⟨hnone, hpick⟩
  · refine .inl ⟨⟨r.id, usernames_iff.2 ⟨r, hr, rfl, hcalled⟩, fun hid => ?_⟩,
      .usernameTaken x.username, s, ?_, rfl⟩
    · exact absurd (Option.some.inj hid).symm (Int.ne_of_lt (Table.id_lt_nextId _ hr))
    · rw [hpick] at hfind
      rw [insertUser, exec_bind_ok hfind]
      rfl
  · have hfree : ∀ r ∈ s.database.ledger.users.rows, r.data.username ≠ x.username :=
      fun r hr hsame => by simpa [calledBy, hsame] using hnone r hr
    obtain ⟨y, hy⟩ := hx.readable s.database.ledger.users.nextId
    have hinsert := exec_insert (ρ := User) h hi room (hi.addUser room hfree hx.unset) hy
    refine .inr ⟨?_, y,
      s.put { s.database.ledger with users := s.database.ledger.users.insert x }, ?_, .put _, ?_⟩
    · rintro ⟨_, ⟨r, hr, -, hsame⟩, -⟩
      exact hfree r hr hsame
    · rw [hpick] at hfind
      rw [insertUser, exec_bind_ok hfind]
      exact hinsert
    · exact ⟨_, Table.mem_insert.2 (.inr rfl), rfl, rfl⟩

/-- A user chooses a currency of the user's own to report in. -/
theorem exec_reportIn {x : User} (hx : Fresh x) {n k : Int}
    (hrow : ⟨n, x, []⟩ ∈ s.database.ledger.users.rows)
    (howns : s.database.ledger.currencies.Owns n k) : ∃ a, (do
      let _ ← Store.setFixedCurrency (.int n) (.int k)
      match ← find User (.int n) with
      | some row => pure row
      | none => Op.fail (.misuse .noAttribute)).exec s
        = (.ok a, s.put { s.database.ledger with
            users := s.database.ledger.users.replace n (reportingIn (some k) ⟨n, x, []⟩) }) := by
  obtain ⟨a, ha⟩ := hx.readable n
  obtain ⟨b, hb⟩ := readable_user (r := ⟨n, x, []⟩) (u := { x with fixedCurrency := some k })
    rfl ha rfl rfl
  have hcells : paramFields [("fixed_currency_id", .int k)]
      = .ok [("fixed_currency_id", .ofInt? (some k))] := by
    simp [paramFields, param_of_id (v := .int k) rfl (howns.has.fits hi.currencies.tidy), bind,
      Except.bind, Cell.ofInt?]
  have hintact := hi.reviseUser (r := ⟨n, x, []⟩) (u := { x with fixedCurrency := some k }) hrow rfl
    (by
      rintro _ ⟨⟩
      exact howns)
  have hid : (Value.int n).id? = some n := rfl
  have hrun := exec_revise (ρ := User) h hi [("fixed_currency_id", .int k)] (r := ⟨n, x, []⟩)
    hrow hid (by simp) rfl hcells (assign_fixedCurrency (some k) rfl) hintact hb
  refine ⟨b, ?_⟩
  rw [← bind_assoc]
  exact exec_bind_ok hrun

/-- A user who owns no currency may give the first one any name. -/
theorem exec_insertFirst {n : Int} {name : String} (hn : s.database.ledger.users.Has n)
    (hnone : ∀ c ∈ s.database.ledger.currencies.rows, c.data.owner ≠ n)
    (hname : Part.name (.text name) = .ok name)
    (room : s.database.ledger.currencies.isFull = false) : ∃ c m, (do
      Store.insert Currency (← recordOf Currency
        [("user_id", .int n), ("name", .text name), ("rate_to_fixed", .float 1)])).exec s
        = (.ok c, s.put m) ∧ c.id = s.database.ledger.currencies.nextId ∧ Intact m ∧
      m.users = s.database.ledger.users ∧
      m.currencies.Names n name s.database.ledger.currencies.nextId := by
  have hread := read_firstCurrency hname n
  have hrecord : (recordOf Currency [("user_id", .int n), ("name", .text name),
      ("rate_to_fixed", .float 1)]).exec s = (.ok { owner := n, name, rate := 1 }, s) :=
    recordOf_ok.2 ⟨rfl, _, hread, rfl⟩
  obtain ⟨c, m, hinsert, hm, hid, rfl, hnames⟩ := exec_make (ρ := Currency) h hi
    (makes_currency hread hname s.now) trivial rfl hn (fun k ⟨c, hc, _, hown, _⟩ => hnone c hc hown)
    room
  exact ⟨c, _, (exec_bind_ok hrecord).trans hinsert, hid, hm, rfl, hnames⟩

/-- The first currency of a new user. -/
theorem exec_firstCurrency {x : User} (hx : Fresh x) {n : Int} {name : String}
    (hrow : ⟨n, x, []⟩ ∈ s.database.ledger.users.rows)
    (hnone : ∀ c ∈ s.database.ledger.currencies.rows, c.data.owner ≠ n)
    (hname : Part.name (.text name) = .ok name)
    (room : s.database.ledger.currencies.isFull = false) : ∃ a t, (do
      let c ← Store.insert Currency (← recordOf Currency
        [("user_id", .int n), ("name", .text name), ("rate_to_fixed", .float 1)])
      let _ ← Store.setFixedCurrency (.int n) (.int c.id)
      match ← find User (.int n) with
      | some row => pure row
      | none => Op.fail (.misuse .noAttribute)).exec s = (.ok a, t) ∧ (s.Closes → t.Closes) ∧
      t.database.ledger.users.Usernames x.username n ∧
      t.database.ledger.currencies.Names n name s.database.ledger.currencies.nextId := by
  obtain ⟨c, m, hinsert, hid, hm, husers, hnames⟩ :=
    exec_insertFirst h hi ⟨_, hrow, rfl⟩ hnone hname room
  rw [← husers] at hrow
  have howns : m.currencies.Owns n c.id := by
    obtain ⟨r, hr, hrid, hown, -⟩ := hnames
    exact ⟨r, hr, hrid.trans hid.symm, hown⟩
  obtain ⟨b, hrun⟩ := exec_reportIn (s := s.put m) (h.put m) hm hx hrow howns
  refine ⟨b, s.put { m with users := m.users.replace n (reportingIn (some c.id) ⟨n, x, []⟩) },
    ?_, .put _, ?_, hnames⟩
  · rw [← bind_assoc]
    exact (exec_bind_ok hinsert).trans hrun
  · exact ⟨_, mem_revised (ρ := User) (r := ⟨n, x, []⟩) hrow, rfl, rfl⟩

end

section

variable (hs : s.Idle) (hi : Intact s.database.ledger) (hv : Vetted s.database.ledger)
  (hc : s.scheme.Compact) {username password : Value} {name p : String}
  (hname : Check.name "username" username = .ok name) (hp : Check.password password = .ok p)
  (room : s.database.ledger.users.isFull = false)

include hs hi hv hc hname hp room

theorem claims_createUser : (createUser username password).Claims s
    (∃ n, s.database.ledger.users.Usernames name n ∧
      some s.database.ledger.users.nextId ≠ some n)
    fun l => l.users.Usernames name s.database.ledger.users.nextId := by
  obtain ⟨x, t, hnew, ht, rfl⟩ := exec_newUser hname hp hc
  obtain ⟨-, hdb, hidle⟩ := newUser_ok hnew
  rw [← hdb] at hi hv room ⊢
  refine .logged (.after hnew ht (.followed (.transaction (hidle hs) ?_) ?_)) _
  · exact claims_insertUser (s := t.start) (hidle hs).ready hi hv (fresh_of_newUser hnew) room
  · exact fun b t => ⟨b, _, rfl⟩

/-- The first currency, if one is named, is stored under its name as well. -/
theorem claims_registerUser {currency : Value}
    (hcurrency : currency.isNull = true ∨ (∃ m, Check.name "name" currency = .ok m) ∧
      s.database.ledger.currencies.isFull = false) :
    (registerUser username password currency).Claims s
      (∃ n, s.database.ledger.users.Usernames name n ∧
        some s.database.ledger.users.nextId ≠ some n)
      fun l => l.users.Usernames name s.database.ledger.users.nextId ∧
        ∀ m, currency.isNull = false → Check.name "name" currency = .ok m →
          l.currencies.Names s.database.ledger.users.nextId m
            s.database.ledger.currencies.nextId := by
  obtain ⟨x, t, hnew, ht, rfl⟩ := exec_newUser hname hp hc
  obtain ⟨-, hdb, hidle⟩ := newUser_ok hnew
  have hfresh := fresh_of_newUser hnew
  rw [← hdb] at hi hv room hcurrency ⊢
  refine .logged (.after hnew ht (.optionally (hcurrency.imp_right And.left) fun o ho hsome => ?_)) _
  refine .followed (.transaction (hidle hs) ?_) fun b t => ⟨b, _, rfl⟩
  refine (claims_insertUser (s := t.start) (hidle hs).ready hi hv hfresh room).bind
    fun y z _ hx hgiven => ?_
  obtain ⟨hid, rfl, hstep⟩ := insertUser_ok (hidle hs).ready hi hfresh.unset hx
  cases o with
  | none =>
    refine ⟨y, _, rfl, id, hgiven, fun m hnull _ => ?_⟩
    rw [hnull] at hsome
    cases hsome
  | some n =>
    have hn := ho n rfl
    have hnull : currency.isNull = false := by simpa using hsome.symm
    obtain ⟨b, w, hrun, hw, hgiven, hfirst⟩ := exec_firstCurrency
      (s := t.start.put { t.database.ledger with users := t.database.ledger.users.insert x })
      ((hidle hs).ready.put _) (hstep.intact hi) hfresh (Table.mem_insert.2 (.inr rfl))
      hi.owner_ne_nextId
      (Check.name_ok hn).2 (hcurrency.resolve_left (by simp [hnull])).2
    refine ⟨b, w, ?_, hw, hgiven, fun m _ hm => ?_⟩
    · rw [hid]
      exact hrun
    · obtain rfl := Except.ok.inj (hn.symm.trans hm)
      exact hfirst

end

end Bookkeeping.Service
