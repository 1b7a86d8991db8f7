import Bookkeeping.Log.Render
import Bookkeeping.Proofs.Concealment

/-! # Templates that are filled without secrets

A template that can be filled with a part of a supply is filled with the whole of it in the same
way. So a template that takes by name what is no secret gives the secrets of a dictionary away
neither as they are nor concealed.
-/

namespace Bookkeeping.Log

/-! ## Filling a template with less -/

/-- What is found in the first names is found in the second ones as well. -/
inductive Names.Within : Names → Names → Prop
  | positions : Within .positions .positions
  | fields {fs gs : List (String × Value)} (h : ∀ k v, fs.lookup k = some v → gs.lookup k = some v) :
    Within (.fields fs) (.fields gs)

/-- A supply that has no more than another one: by name it finds some of the values, and the next
values are the same unless there are none. Not all of them have to be used. -/
structure Supply.Within (p q : Supply) : Prop where
  names : p.names.Within q.names
  waiting : p.waiting = [] ∨ p.waiting = q.waiting

/-- A second attempt gives a result like that of the first one, if the first one gives any. -/
def Follows {α : Type} (like : α → α → Prop) (x y : Filled α) : Prop :=
  ∀ a, x = .ok a → ∃ b, y = .ok b ∧ like a b

namespace Follows

variable {α β : Type} {like : α → α → Prop} {like' : β → β → Prop} {x y : Filled α}
  {f g : α → Filled β}

theorem ok {a b : α} (h : like a b) : Follows like (.ok a) (.ok b) := by
  intro c hc
  cases hc
  exact ⟨b, rfl, h⟩

theorem error {e : Failure} : Follows like (.error e) y := by
  intro a ha
  cases ha

theorem refl (x : Filled α) : Follows Eq x x := fun a ha => ⟨a, ha, rfl⟩

theorem bind (h : Follows like x y) (hf : ∀ a b, like a b → Follows like' (f a) (g b)) :
    Follows like' (x >>= f) (y >>= g) := by
  intro c hc
  cases x with
  | error e => cases hc
  | ok a =>
    obtain ⟨b, rfl, hab⟩ := h a rfl
    exact hf a b hab c hc

theorem map {f : α → β} (h : Follows like x y) (hf : ∀ a b, like a b → like' (f a) (f b)) :
    Follows like' (x.map f) (y.map f) := by
  intro c hc
  cases x with
  | error e => cases hc
  | ok a =>
    obtain ⟨b, rfl, hab⟩ := h a rfl
    cases hc
    exact ⟨f b, rfl, hf a b hab⟩

theorem extend {x y : Filled (List Char)} (h : Follows Eq x y) (f : List Char → List Char) :
    Follows Eq (x >>= fun tail => .ok (f tail)) (y >>= fun tail => .ok (f tail)) := by
  refine h.bind ?_
  rintro tail - rfl
  exact .ok rfl

end Follows

/-- The same value, with no more left in the first supply than in the second one. -/
def SameValue {α : Type} (a b : α × Supply) : Prop := a.1 = b.1 ∧ a.2.Within b.2

/-- The same rest of the template, with no more left in the first supply than in the second one. -/
def SamePlace (a b : Supply × List Char) : Prop := a.1.Within b.1 ∧ a.2 = b.2

/-- The same value and rest of the template, with no more left in the first supply. -/
def SameStep {α : Type} (a b : α × Supply × List Char) : Prop :=
  a.1 = b.1 ∧ a.2.1.Within b.2.1 ∧ a.2.2 = b.2.2

/-- The supply after a name in parentheses, and the rest of the template. -/
def findName (supply : Supply) (cs : List Char) : Filled (Supply × List Char) :=
  match supply.names with
  | .missing => .error (.misuse .wrongType)
  | _ =>
    match readName 0 [] cs with
    | some (name, rest) => (supply.byName name).map fun supply => (supply, rest)
    | none => .error (.badValue "incomplete format key")

/-- The supply after the name that a conversion may have, and the rest of the template. -/
def takeName (supply : Supply) : List Char → Filled (Supply × List Char)
  | '(' :: rest => findName supply rest
  | cs => .ok (supply, cs)

/-- The text of a conversion after its name. -/
def fillNext (size : Nat) (supply : Supply) (cs : List Char) :
    Filled (String × Supply × List Char) := do
  let (c, supply, cs) ← readOptions {} supply cs
  match cs with
  | [] => .error (.badValue "incomplete format")
  | letter :: rest => do
    let (v, supply) ← supply.next
    let tooWide := widest < c.width
    match (if tooWide then { c with width := 0 } else c).convert? letter v with
    | some text => do
      let s ← text
      if tooWide then .error (.misuse .outOfMemory) else .ok (s, supply, rest)
    | none => .error (unknownLetter letter (size - rest.length - 1))

theorem fillOne_eq (size : Nat) (supply : Supply) (cs : List Char) :
    fillOne size supply cs
      = takeName supply cs >>= fun (supply, cs) => fillNext size supply cs := by
  unfold fillOne
  split
  case h_1 rest =>
    show _ = findName supply rest >>= _
    unfold findName
    cases supply.names with
    | missing => rfl
    | positions => cases readName 0 [] rest <;> rfl
    | fields fs => cases readName 0 [] rest <;> rfl
  case h_2 hparen =>
    rw [takeName.eq_2 _ _ hparen]
    rfl

namespace Supply.Within

variable {p q : Supply}

theorem next (h : p.Within q) : Follows SameValue p.next q.next := by
  rcases h.waiting with hnone | hsame
  · rw [Supply.next, hnone]
    exact .error
  · rw [Supply.next, Supply.next, hsame]
    split
    · exact .ok ⟨rfl, h.names, .inr rfl⟩
    · exact .error

theorem byName (h : p.Within q) (name : String) :
    Follows Supply.Within (p.byName name) (q.byName name) := by
  obtain ⟨p, ps⟩ := p
  obtain ⟨q, qs⟩ := q
  have hnames : p.Within q := h.names
  cases hnames with
  | positions => exact .error
  | @fields fs gs hfound =>
    simp only [Supply.byName]
    cases hf : fs.lookup name with
    | none => exact .error
    | some v =>
      rw [hfound name v hf]
      exact .ok ⟨h.names, .inr rfl⟩

theorem finished (h : p.Within q) : p.finished = true ∧ q.finished = true := by
  obtain ⟨p, ps⟩ := p
  obtain ⟨q, qs⟩ := q
  have hnames : p.Within q := h.names
  cases hnames <;> exact ⟨rfl, rfl⟩

theorem readCount (h : p.Within q) (limit : Limit) (cs : List Char) :
    Follows SameStep (readCount limit p cs) (readCount limit q cs) := by
  unfold Log.readCount
  split
  case h_1 rest =>
    refine h.next.bind ?_
    rintro ⟨v, p⟩ ⟨-, q⟩ ⟨rfl, h⟩
    dsimp only
    split
    · split
      · exact .ok ⟨rfl, h, rfl⟩
      · exact .error
    · exact .ok ⟨rfl, h, rfl⟩
    · exact .error
  case h_2 =>
    dsimp only
    split
    · exact .ok ⟨rfl, h, rfl⟩
    · split
      · exact .ok ⟨rfl, h, rfl⟩
      · exact .error

theorem readOptions (h : p.Within q) (c : Conversion) (cs : List Char) :
    Follows SameStep (readOptions c p cs) (readOptions c q cs) := by
  unfold Log.readOptions
  dsimp only
  refine (h.readCount widths _).bind ?_
  rintro ⟨width, p, cs⟩ ⟨-, q, -⟩ ⟨rfl, h, rfl⟩
  dsimp only
  split
  · refine (h.readCount precisions _).bind ?_
    rintro ⟨precision, p, rest⟩ ⟨-, q, -⟩ ⟨rfl, h, rfl⟩
    exact .ok ⟨rfl, h, rfl⟩
  · exact .ok ⟨rfl, h, rfl⟩

theorem findName (h : p.Within q) (cs : List Char) :
    Follows SamePlace (findName p cs) (findName q cs) := by
  have hname (name : String) (rest : List Char) :
      Follows SamePlace
        ((p.byName name).map fun p => (p, rest)) ((q.byName name).map fun q => (q, rest)) :=
    (h.byName name).map fun _ _ h => ⟨h, rfl⟩
  obtain ⟨p, ps⟩ := p
  obtain ⟨q, qs⟩ := q
  have hnames : p.Within q := h.names
  unfold Log.findName
  cases readName 0 [] cs with
  | none => cases hnames <;> exact .error
  | some found => cases hnames <;> exact hname found.1 found.2

theorem takeName (h : p.Within q) (cs : List Char) :
    Follows SamePlace (takeName p cs) (takeName q cs) := by
  unfold Log.takeName
  split
  · exact h.findName _
  · exact .ok ⟨h, rfl⟩

theorem fillNext (h : p.Within q) (size : Nat) (cs : List Char) :
    Follows SameStep (fillNext size p cs) (fillNext size q cs) := by
  unfold Log.fillNext
  refine (h.readOptions {} cs).bind ?_
  rintro ⟨c, p, cs⟩ ⟨-, q, -⟩ ⟨rfl, h, rfl⟩
  dsimp only
  split
  · exact .error
  · refine h.next.bind ?_
    rintro ⟨v, p⟩ ⟨-, q⟩ ⟨rfl, h⟩
    dsimp only
    split
    · refine (Follows.refl _).bind ?_
      rintro s - rfl
      split
      · exact .error
      · exact .ok ⟨rfl, h, rfl⟩
    · exact .error

theorem fillOne (h : p.Within q) (size : Nat) (cs : List Char) :
    Follows SameStep (fillOne size p cs) (fillOne size q cs) := by
  rw [fillOne_eq, fillOne_eq]
  refine (h.takeName cs).bind ?_
  rintro ⟨p, cs⟩ ⟨q, -⟩ ⟨h, rfl⟩
  exact h.fillNext size cs

/-- What can be filled with less is filled with more in the same way. -/
theorem fillAll (h : p.Within q) (size fuel : Nat) (cs : List Char) :
    Follows Eq (fillAll size fuel p cs) (fillAll size fuel q cs) := by
  induction fuel, p, cs using Log.fillAll.induct generalizing q with
  | case1 fuel p hend =>
    rw [Log.fillAll, Log.fillAll, if_pos hend, if_pos h.finished.2]
    exact .ok rfl
  | case2 fuel p hopen => exact absurd h.finished.1 hopen
  | case3 p cs hcs =>
    rw [fillAll.eq_2 _ _ _ hcs, fillAll.eq_2 _ _ _ hcs]
    exact .ok rfl
  | case4 fuel p rest ih =>
    rw [fillAll.eq_3, fillAll.eq_3]
    exact (ih h).extend _
  | case5 fuel p rest hpercent ih =>
    rw [fillAll.eq_4 _ _ _ _ hpercent, fillAll.eq_4 _ _ _ _ hpercent]
    refine (h.fillOne size rest).bind ?_
    rintro ⟨s, p, rest⟩ ⟨-, q, -⟩ ⟨rfl, h, rfl⟩
    exact (ih p rest h).extend _
  | case6 fuel p c rest hpercent hc ih =>
    rw [fillAll.eq_5 _ _ _ _ _ hpercent hc, fillAll.eq_5 _ _ _ _ _ hpercent hc]
    exact (ih h).extend _

end Supply.Within

theorem fill_of_within {p q : Supply} {template : String} (h : p.Within q)
    (hp : (fill template (some p)).isOk = true) :
    fill template (some q) = fill template (some p) := by
  have hall := h.fillAll template.length template.length template.toList
  unfold fill at hp ⊢
  dsimp only at hp ⊢
  cases hfill : fillAll template.length template.length p template.toList with
  | error e =>
    rw [hfill] at hp
    cases hp
  | ok text =>
    obtain ⟨_, hq, rfl⟩ := hall text hfill
    rw [hq]

/-! ## What fills a template -/

/-- Names that find values with their secrets replaced. -/
def Names.concealed : Names → Names
  | .fields fs => .fields (concealFields fs)
  | names => names

/-- Whether no value that names find holds a secret. -/
def Names.isBare : Names → Bool
  | .fields fs => bareFields fs
  | _ => true

/-- The fields without a secret, each with the value that its key finds. -/
def openFields : List (String × Value) → List (String × Value)
  | [] => []
  | (k, v) :: rest =>
    if !isSensitive k && bare v then (k, v) :: openFields rest else without [k] (openFields rest)

namespace Supply

/-- A supply with its secrets replaced. -/
def concealed (s : Supply) : Supply := ⟨s.names.concealed, concealElements s.waiting⟩

/-- Whether a supply holds no secret. -/
def isBare (s : Supply) : Bool := s.names.isBare && bareElements s.waiting

/-- What a supply gives by name without giving away a secret. There is none of a supply whose values
must all be used in their order. -/
def opened (s : Supply) : Option Supply :=
  match s.names with
  | .missing => none
  | .positions => some ⟨.positions, []⟩
  | .fields fs => some ⟨.fields (openFields fs), []⟩

/-- Whether a supply gives no secret away to a template: it holds none, or the template can be
filled without them. -/
def isDiscreet (s : Supply) (template : String) : Bool :=
  s.isBare || s.opened.any fun p => (fill template (some p)).isOk

end Supply

theorem lookup_without {fs : List (String × Value)} {k key : String} {v : Value}
    (h : (without [k] fs).lookup key = some v) : key ≠ k ∧ fs.lookup key = some v := by
  induction fs with
  | nil => cases h
  | cons f fs ih =>
    obtain ⟨l, w⟩ := f
    by_cases hl : l = k
    · have hdrop : without [k] ((l, w) :: fs) = without [k] fs := by simp [without, hl]
      rw [hdrop] at h
      obtain ⟨hne, hv⟩ := ih h
      refine ⟨hne, ?_⟩
      rw [List.lookup_cons, hl, beq_false_of_ne hne]
      exact hv
    · have hkeep : without [k] ((l, w) :: fs) = (l, w) :: without [k] fs := by simp [without, hl]
      rw [hkeep, List.lookup_cons] at h
      rw [List.lookup_cons]
      by_cases hkey : key = l
      · subst hkey
        rw [beq_self_eq_true] at h ⊢
        exact ⟨hl, h⟩
      · rw [beq_false_of_ne hkey] at h ⊢
        exact ih h

theorem lookup_openFields {fs : List (String × Value)} {key : String} {v : Value}
    (h : (openFields fs).lookup key = some v) : fs.lookup key = some v := by
  induction fs with
  | nil => cases h
  | cons f fs ih =>
    obtain ⟨k, w⟩ := f
    rw [openFields] at h
    rw [List.lookup_cons]
    split at h
    · rw [List.lookup_cons] at h
      cases hkey : key == k with
      | true => rwa [hkey] at h
      | false =>
        rw [hkey] at h
        exact ih h
    · obtain ⟨hne, hv⟩ := lookup_without h
      rw [beq_false_of_ne hne]
      exact ih hv

theorem openFields_conceal (fs : List (String × Value)) :
    openFields (concealFields fs) = openFields fs := by
  induction fs with
  | nil => rfl
  | cons f fs ih =>
    obtain ⟨k, v⟩ := f
    rw [concealFields, openFields, openFields, ih]
    by_cases hk : isSensitive k = true
    · simp only [hk, Bool.not_true, Bool.false_and, Bool.false_eq_true, if_false]
    · rw [Bool.not_eq_true] at hk
      rw [hk, if_neg Bool.false_ne_true, bare_conceal]
      by_cases hv : bare v = true
      · rw [conceal_of_bare hv]
      · simp only [hv, Bool.and_false, Bool.false_eq_true, if_false]

namespace Supply

variable {s : Supply} {template : String}

theorem concealed_of_isBare (h : s.isBare = true) : s.concealed = s := by
  obtain ⟨names, waiting⟩ := s
  obtain ⟨hnames, hwaiting⟩ := Bool.and_eq_true_iff.1 h
  have hvalues : concealElements waiting = waiting :=
    Value.list.inj (conceal_of_bare (v := .list waiting) hwaiting)
  cases names with
  | missing => exact congrArg (Supply.mk .missing) hvalues
  | positions => exact congrArg (Supply.mk .positions) hvalues
  | fields fs =>
    have hfields : concealFields fs = fs :=
      Value.dict.inj (conceal_of_bare (v := .dict fs) hnames)
    rw [concealed, Names.concealed, hfields, hvalues]

theorem isBare_concealed (s : Supply) : s.concealed.isBare = s.isBare := by
  have hvalues : bareElements (concealElements s.waiting) = bareElements s.waiting :=
    bare_conceal (.list s.waiting)
  have hnames : s.names.concealed.isBare = s.names.isBare := by
    cases s.names with
    | missing => rfl
    | positions => rfl
    | fields fs => exact bare_conceal (.dict fs)
  rw [isBare, isBare, concealed, hvalues, hnames]

theorem opened_concealed (s : Supply) : s.concealed.opened = s.opened := by
  obtain ⟨names, waiting⟩ := s
  cases names with
  | missing => rfl
  | positions => rfl
  | fields fs => exact congrArg (fun fs => some (Supply.mk (.fields fs) [])) (openFields_conceal fs)

theorem within_of_opened {p : Supply} (h : s.opened = some p) : p.Within s := by
  obtain ⟨names, waiting⟩ := s
  cases names with
  | missing => cases h
  | positions =>
    cases h
    exact ⟨.positions, .inl rfl⟩
  | fields fs =>
    cases h
    exact ⟨.fields fun k v => lookup_openFields, .inl rfl⟩

theorem isDiscreet_concealed (s : Supply) (template : String) :
    s.concealed.isDiscreet template = s.isDiscreet template := by
  rw [isDiscreet, isDiscreet, isBare_concealed, opened_concealed]

/-- A template is filled in the same way whatever the secrets are that are not given away. -/
theorem fill_concealed (h : s.isDiscreet template = true) :
    fill template (some s.concealed) = fill template (some s) := by
  rcases Bool.or_eq_true_iff.1 h with hbare | hopen
  · rw [concealed_of_isBare hbare]
  · rw [Option.any_eq_true] at hopen
    obtain ⟨p, hp, hok⟩ := hopen
    rw [fill_of_within (within_of_opened hp) hok,
      fill_of_within (within_of_opened ((opened_concealed s).trans hp)) hok]

theorem ofArguments?_conceal (vs : List Value) :
    ofArguments? (concealElements vs) = (ofArguments? vs).map concealed := by
  match vs with
  | [] => rfl
  | [v] =>
    cases v with
    | dict fs => cases fs <;> rfl
    | _ => rfl
  | v :: w :: vs =>
    cases v with
    | dict fs => cases fs <;> rfl
    | _ => rfl

theorem ofValue?_conceal (v : Value) :
    ofValue? (conceal v) = (ofValue? v).map (Option.map concealed) := by
  cases v with
  | list vs =>
    match vs with
    | [] => rfl
    | [v] =>
      cases v with
      | dict fs => cases fs <;> rfl
      | _ => rfl
    | v :: w :: vs =>
      cases v with
      | dict fs => cases fs <;> rfl
      | _ => rfl
  | dict fs =>
    match fs with
    | [] => rfl
    | [f] => rfl
    | f :: g :: fs => rfl
  | _ =>
    simp only [conceal]
    unfold ofValue?
    split <;> rfl

end Supply

end Bookkeeping.Log
