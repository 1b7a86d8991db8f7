import Bookkeeping.Proofs.NameGiving

/-! # Names

Checking, storing and looking up agree on what a name is. What is checked is what is stored, what is
stored is what is found, and what is found is what keeps a name from being given again.
-/

namespace Bookkeeping

/-- A text that passes its check as a name loses the blanks at its ends, and nothing else. -/
theorem Check.name_text {field t name : String} (h : Check.name field (.text t) = .ok name) :
    name = Text.strip t := by
  have hname : (if (Text.strip t == "") = true then
      Check.reject (.outside field "cannot be blank" (.text t))
    else if Part.maxName < (Text.strip t).length then
      Check.reject (.outside field s!"must be at most {Part.maxName} characters" (.text t))
    else .ok (Text.strip t)) = .ok name := h
  split at hname
  · cases hname
  · split at hname
    · cases hname
    · exact (Except.ok.inj hname).symm

end Bookkeeping

namespace Bookkeeping.Service

open Store Op

variable {s : Session} {user : Value} {u : Int}

/-- A call that gives a name, by what it is given besides the user and the name. The first currency
of a new user is named along with the user. -/
inductive Naming where
  | currency (rate : Value)
  | category
  | source (held amount : Value)
  | rename (kind : CatalogKind) (id : Value)
  | update (id rate : Value)
  | account (password : Value)
  | registration (password first : Value)
  | firstCurrency (username password : Value)

namespace Naming

/-- The call. -/
def call (user name : Value) : Naming → Call
  | currency rate => .createCurrency user name rate
  | category => .createCategory user name
  | source held amount => .createSource user name held amount
  | rename kind id => .rename kind user id name
  | update id rate => .updateCurrency user id name rate
  | account password => .createUser name password
  | registration password first => .registerUser name password first
  | firstCurrency username password => .registerUser username password name

/-- The field that the name is checked as. -/
def field : Naming → String
  | account _ | registration _ _ => "username"
  | _ => "name"

/-- Where the name is given. -/
def directory : Naming → Directory
  | currency _ | update _ _ | firstCurrency _ _ => .rows .currency
  | category => .rows .category
  | source _ _ => .rows .source
  | rename kind _ => .rows kind
  | account _ | registration _ _ => .accounts

/-- Whose row gets the name. -/
def owner (l : Ledger) (user : Int) : Naming → Int
  | firstCurrency _ _ => l.users.nextId
  | _ => user

/-- The id of the row that gets the name. -/
def target (l : Ledger) : Naming → Option Int
  | currency _ | firstCurrency _ _ => some l.currencies.nextId
  | category => some l.categories.nextId
  | source _ _ => some l.sources.nextId
  | rename _ id | update id _ => id.id?
  | account _ | registration _ _ => some l.users.nextId

/-- Whether all checks but those of the name pass: what else is given is in order, the rows that are
named are the user's, and there is room for what is stored. -/
def Passes (l : Ledger) (user : Int) : Naming → Prop
  | currency rate => l.users.Has user ∧ l.currencies.isFull = false ∧
      ∃ x, Check.rate "rate_to_fixed" rate = .ok x
  | category => l.users.Has user ∧ l.categories.isFull = false
  | source held amount => l.users.Has user ∧ l.sources.isFull = false ∧
      (∃ x, Check.amount "amount" false amount = .ok x) ∧
      ∃ c, held.id? = some c ∧ l.currencies.OwnsActive user c
  | rename kind id => ∃ n, id.id? = some n ∧ kind.Owns l user n
  | update id rate => (∃ n, id.id? = some n ∧ l.currencies.Owns user n) ∧
      (rate.isNull = true ∨ ∃ x, Check.rate "rate_to_fixed" rate = .ok x)
  | account password => l.users.isFull = false ∧ ∃ p, Check.password password = .ok p
  | registration password first => l.users.isFull = false ∧
      (∃ p, Check.password password = .ok p) ∧
      (first.isNull = true ∨
        (∃ m, Check.name "name" first = .ok m) ∧ l.currencies.isFull = false)
  | firstCurrency username password => l.users.isFull = false ∧ l.currencies.isFull = false ∧
      (∃ p, Check.password password = .ok p) ∧
      ∃ n, Check.name "username" username = .ok n ∧ ∀ m, ¬ l.users.Usernames n m

/-- Whether another row has the name, be it archived or not. -/
def Taken (g : Naming) (l : Ledger) (user : Int) (name : String) : Prop :=
  ∃ n, g.directory.Holds l (g.owner l user) name n ∧ g.target l ≠ some n

/-- Whether the row that was to get the name has it. -/
def Given (g : Naming) (l m : Ledger) (user : Int) (name : String) : Prop :=
  ∃ n, g.target l = some n ∧ g.directory.Holds m (g.owner l user) name n

section

variable (hs : s.Idle) (hi : Intact s.database.ledger) (hv : Vetted s.database.ledger)
  (hc : s.scheme.Compact) (huid : user.id? = some u)

include hs hi hv hc huid

theorem claims {g : Naming} {t name : String} (hpass : g.Passes s.database.ledger u)
    (hname : Check.name g.field (.text t) = .ok name) :
    (g.call user (.text t)).run.Claims s (g.Taken s.database.ledger u name)
      fun m => g.Given s.database.ledger m u name := by
  cases g with
  | currency rate =>
    obtain ⟨⟨o, ho, rfl⟩, room, x, hrate⟩ := hpass
    obtain ⟨a, hread⟩ := (hv.users o ho).readable (hi.users.proper o ho)
    exact ((claims_createCurrency hs hi ho huid hread hname hrate room).map _).mono
      fun l hl => ⟨_, rfl, hl⟩
  | category =>
    obtain ⟨⟨o, ho, rfl⟩, room⟩ := hpass
    obtain ⟨a, hread⟩ := (hv.users o ho).readable (hi.users.proper o ho)
    exact ((claims_createCategory hs hi ho huid hread hname room).map _).mono
      fun l hl => ⟨_, rfl, hl⟩
  | source held amount =>
    obtain ⟨⟨o, ho, rfl⟩, room, ⟨x, hamount⟩, c, hcid, r, hr, rfl, hown, hactive⟩ := hpass
    obtain ⟨a, hread⟩ := (hv.users o ho).readable (hi.users.proper o ho)
    have hoffers : s.database.ledger.currencies.Offers user held r :=
      ⟨hr, hcid, huid.trans (congrArg some hown.symm), hactive⟩
    exact ((claims_createSource hs hi ho huid hread hname hamount hoffers room).map _).mono
      fun l hl => ⟨_, rfl, hl⟩
  | rename kind id =>
    obtain ⟨n, hid, howns⟩ := hpass
    cases kind with
    | currency =>
      obtain ⟨r, hr, rfl, rfl⟩ := howns
      exact ((claims_rename (ρ := Currency) hs hi hr hid huid hname).map _).mono
        fun l hl => ⟨_, hid, hl⟩
    | category =>
      obtain ⟨r, hr, rfl, rfl⟩ := howns
      exact ((claims_rename (ρ := Category) hs hi hr hid huid hname).map _).mono
        fun l hl => ⟨_, hid, hl⟩
    | source =>
      obtain ⟨r, hr, rfl, rfl⟩ := howns
      exact ((claims_rename (ρ := Source) hs hi hr hid huid hname).map _).mono
        fun l hl => ⟨_, hid, hl⟩
  | update id rate =>
    obtain ⟨⟨n, hid, r, hr, rfl, rfl⟩, hrate⟩ := hpass
    exact ((claims_updateCurrency hs hi hr hid huid hname hrate).map _).mono
      fun l hl => ⟨_, hid, hl⟩
  | account password =>
    obtain ⟨room, p, hp⟩ := hpass
    exact ((claims_createUser hs hi hv hc hname hp room).map _).mono fun l hl => ⟨_, rfl, hl⟩
  | registration password first =>
    obtain ⟨room, ⟨p, hp⟩, hfirst⟩ := hpass
    exact ((claims_registerUser hs hi hv hc hname hp room hfirst).map _).mono
      fun l hl => ⟨_, rfl, hl.1⟩
  | firstCurrency username password =>
    obtain ⟨room, space, ⟨p, hp⟩, n, hn, hfree⟩ := hpass
    rcases claims_registerUser hs hi hv hc hn hp room (.inr ⟨⟨name, hname⟩, space⟩) with
      ⟨⟨m, hm, -⟩, -⟩ | ⟨-, a, w, hrun, hw, -, hfirst⟩
    · exact absurd hm (hfree m)
    · refine .inr ⟨?_, .user (some a), w, ?_, hw, _, rfl, hfirst name rfl hname⟩
      · rintro ⟨k, ⟨r, hr, -, hown, -⟩, -⟩
        exact hi.owner_ne_nextId r hr hown
      · rw [call, Call.run, exec_map, hrun]

end

end Naming

/-- After any calls, looking up a name of a user shows the row whose name it is but for the blanks
around it, and no two rows have one name. A name that passes its check is the text without these
blanks, and is read as it is. If all other checks pass, a call that gives the name to a new row or to
one that is there is rejected as not unique if and only if another row has it, and otherwise the row
is stored under just this name. -/
theorem Call.names_agree (hd : Serviceable s.database) (ho : s.inTransaction = false)
    (hfuse : s.fuse = none) (hbreaks : s.breaks = none) (hc : s.scheme.Compact)
    (huid : user.id? = some u) (hu : fitsInteger u = true) :
    (∀ (d : Directory) t, d.Tells s user u t) ∧
      (∀ (d : Directory) name m n, d.Holds s.database.ledger u name m →
        d.Holds s.database.ledger u name n → m = n) ∧
      (∀ field t name, Check.name field (.text t) = .ok name →
        name = Text.strip t ∧ Part.name (.text name) = .ok name) ∧
      ∀ (g : Naming) t name, g.Passes s.database.ledger u →
        Check.name g.field (.text t) = .ok name →
        ((∃ e w, (g.call user (.text t)).run.exec s = (.error (.rejected e), w) ∧
          e.kind = .unique) ↔ g.Taken s.database.ledger u name) ∧
        (¬ g.Taken s.database.ledger u name → ∃ a w,
          (g.call user (.text t)).run.exec s = (.ok a, w) ∧
          g.Given s.database.ledger w.database.ledger u name) := by
  obtain ⟨hlayout, hi⟩ := hd.reachable.intact
  have hs : s.Idle := ⟨ho, hlayout, hfuse, hbreaks⟩
  refine ⟨fun d t => d.tells hi hbreaks hlayout hd.vetted huid hu t,
    fun d name m n => d.holds_unique hi, fun field t name hname =>
      ⟨Check.name_text hname, (Check.name_ok hname).2⟩, fun g t name hpass hname => ?_⟩
  rcases Naming.claims hs hi hd.vetted hc huid hpass hname with
    ⟨htaken, e, w, hrun, he⟩ | ⟨hfree, a, w, hrun, -, hgiven⟩
  · exact ⟨iff_of_true ⟨e, w, hrun, he⟩ htaken, fun hfree => absurd htaken hfree⟩
  · refine ⟨iff_of_false ?_ hfree, fun _ => ⟨a, w, hrun, hgiven⟩⟩
    rintro ⟨e, t, hrejected, -⟩
    rw [hrun] at hrejected
    cases hrejected

/-- A first entry, whose category is archived afterwards. -/
def shelvedCategory : List Call := firstSpending ++ [.archive .category (.int 1) (.int 1)]

theorem typed_shelvedCategory : ∀ c ∈ shelvedCategory, c.Typed := by
  simp [shelvedCategory, firstSpending, registration, Call.Typed, Call.ids, EntryRequest.ids,
    Value.isId, Value.isNull, Value.id?]

/-- The archived category is found with blanks around its name, and keeps its name from being given
again; a new name is stored without the blanks around it. -/
theorem names_after_shelvedCategory :
    let s := newSession.after shelvedCategory
    (∃ x w, (Call.getByName .category (.int 1) (.text "\tFood\x1c")).run.exec s = (.ok x, w) ∧
      (Directory.rows .category).Shows s.database.ledger 1 x) ∧
    (∃ e w, (Call.createCategory (.int 1) (.text " Food")).run.exec s
      = (.error (.rejected e), w) ∧ e.kind = .unique) ∧
    ∃ a w, (Call.createCategory (.int 1) (.text "Rent\n")).run.exec s = (.ok a, w) ∧
      (Directory.rows .category).Holds w.database.ledger 1 "Rent" 2 := by
  intro s
  have hd : Serviceable s.database :=
    Serviceable.after (s := newSession) .migrated rfl compact_newSession typed_shelvedCategory
  have hc : s.scheme.Compact :=
    (scheme_after newSession shelvedCategory).symm ▸ compact_newSession
  obtain ⟨hfood, hall, hnext, huser, hroom, hstill⟩ :
      (∃ r ∈ s.database.ledger.categories.rows,
        r.id = 1 ∧ r.data.owner = 1 ∧ r.data.name = "Food") ∧
      (∀ r ∈ s.database.ledger.categories.rows, r.data.name = "Food") ∧
      s.database.ledger.categories.nextId = 2 ∧
      (∃ r ∈ s.database.ledger.users.rows, r.id = 1) ∧
      s.database.ledger.categories.isFull = false ∧
      s.inTransaction = false ∧ s.fuse = none ∧ s.breaks = none := by decide +kernel
  clear_value s
  have hone : (Value.int 1).id? = some 1 := rfl
  obtain ⟨htells, -, -, hgive⟩ :=
    Call.names_agree hd hstill.1 hstill.2.1 hstill.2.2 hc hone (by decide)
  refine ⟨?_, ?_, ?_⟩
  · obtain ⟨x, w, hrun, -, hshows, -⟩ := htells (.rows .category) "\tFood\x1c"
    refine ⟨x, w, hrun, (hshows 1).2 ?_⟩
    rw [show Text.strip "\tFood\x1c" = "Food" by decide]
    exact hfood
  · exact (hgive .category " Food" "Food" ⟨huser, hroom⟩ rfl).1.2
      ⟨1, hfood, by simp [Naming.target, hnext]⟩
  · have hfree : ¬ Naming.category.Taken s.database.ledger 1 "Rent" := by
      rintro ⟨n, ⟨x, hx, -, -, hrent⟩, -⟩
      exact absurd ((hall x hx).symm.trans hrent) (by decide)
    obtain ⟨a, w, hrun, n, hn, hgiven⟩ :=
      (hgive .category "Rent\n" "Rent" ⟨huser, hroom⟩ rfl).2 hfree
    obtain rfl : n = 2 := by simpa [Naming.target, hnext] using hn.symm
    exact ⟨a, w, hrun, hgiven⟩

end Bookkeeping.Service
