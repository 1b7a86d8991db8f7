import Bookkeeping.Proofs.DateBounds

/-! # Finding an entry by its target

The target of a new entry is stored without the white space around it, while a listing looks for
just the text that it is given. An entry is therefore found by its stored target, and by the text
that it was created with only if there is no white space around that text.
-/

namespace Bookkeeping.Service

open Store

/-- The ways to give a text for the target of a new entry: among the fields of the call, in a request
that was read from fields, or as a field put over a request. -/
inductive Targeted (text : String) : Option EntryRequest → List (String × Value) → Prop where
  | fields {fields : List (String × Value)} (h : fields.lookup "target" = some (.text text)) :
      Targeted text none fields
  | request {given fields : List (String × Value)} {item : Item EntryRequest}
      (hread : EntryRequest.read given = .ok item) (h : given.lookup "target" = some (.text text))
      (hfields : fields.lookup "target" = none) : Targeted text (some item.data) fields
  | override {r : EntryRequest} {fields : List (String × Value)}
      (h : fields.lookup "target" = some (.text text)) : Targeted text (some r) fields

section

variable {text : String} {s t : Session}

/-- A field that is put over a request takes the place of its target. -/
theorem override_target (r : EntryRequest) (fields : List (String × Value)) :
    (r.override fields).target = (fields.lookup "target").getD r.target := by
  show (((fields ++ r.parts).lookup "target").getD .null) = _
  rw [List.lookup_append]
  cases fields.lookup "target" <;> rfl

/-- A target that is read from fields has no white space around it. -/
theorem target_of_read {given : List (String × Value)} {item : Item EntryRequest}
    (hread : EntryRequest.read given = .ok item)
    (h : given.lookup "target" = some (.text text)) : item.data.target = .text (Text.trim text) := by
  have hreads : Part.ReadsAs Part.text .text (Value.field given "target") item.data.target :=
    (readsAs_of_read hread).target
  rw [Value.field, h] at hreads
  rcases hreads with ⟨hnull, -⟩ | ⟨u, hu, htarget⟩
  · cases hnull
  · rw [Option.getD_some, Part.text_text] at hu
    obtain rfl := Reading.ok_inj.1 hu
    exact htarget

/-- The target of the request is the text, with or without the white space around it. -/
theorem Targeted.target {data : Option EntryRequest} {fields : List (String × Value)}
    (h : Targeted text data fields) {r : EntryRequest}
    (hr : (requestOf data fields).exec s = (.ok r, t)) :
    ∃ u, r.target = .text u ∧ Text.trim u = Text.trim text := by
  cases h with
  | fields htarget =>
    obtain ⟨item, hread, rfl⟩ := read_of_requestOf hr
    exact ⟨_, target_of_read hread htarget, Text.trim_trim text⟩
  | @request given fields item hread htarget hfields =>
    rw [requestOf_some] at hr
    obtain ⟨rfl, rfl⟩ := Op.pure_ok hr
    refine ⟨_, ?_, Text.trim_trim text⟩
    rw [override_target, hfields]
    exact target_of_read hread htarget
  | @override r fields htarget =>
    rw [requestOf_some] at hr
    obtain ⟨rfl, rfl⟩ := Op.pure_ok hr
    refine ⟨text, ?_, rfl⟩
    rw [override_target, htarget, Option.getD_some]

/-- What a text for a party is kept as, unless it is left out. -/
theorem party_of_text {u : String} {v : Value} (hv : v = .text u) {party : Option String}
    (h : Part.optional Part.text (if v.truthy then v else .null) = .ok party) :
    party = none ∨ party = some (Text.trim u) := by
  subst hv
  split at h
  · rw [Part.optional_of_not_null rfl, Part.text_text] at h
    exact .inr (Reading.ok_inj.1 h).symm
  · exact .inl (Reading.ok_inj.1 h).symm

variable {data : Option EntryRequest} {fields : List (String × Value)} {user : Value} {n : Int}
  {a : Row Entry}

/-- A call that records an entry under a target leaves a row of the user that is active and from
which the entry is read, and the target of the entry is the text without the white space around
it. -/
theorem row_of_targeted (htargeted : Targeted text data fields) (hs : s.Idle)
    (hi : Intact s.database.ledger) (huser : user.id? = some n)
    (htyped : (Call.createEntry user data fields).Typed)
    (hx : (Call.createEntry user data fields).run.exec s = (.ok (.entry (some a)), t)) {u : String}
    (hu : a.data.target = some u) :
    u = Text.trim text ∧ fitsInteger n = true ∧ a.data.owner = n ∧ a.data.archived = false ∧
      ∃ x, t.database.ledger.entries.find? a.id = some x ∧ StoredEntry.toEntry .full x = .ok a := by
  obtain ⟨r, c, category, currency, source, fixed, description, party, hreq, -, hparty, hfits, x,
    hfind, rfl, hread⟩ := createEntry_row hs hi huser htyped hx
  obtain ⟨w, hw, htrim⟩ := htargeted.target hreq
  obtain ⟨date, createdAt, -, -, -, -, -, hrow⟩ := (StoredEntry.toEntry_ok rfl).1 hread
  have htarget : a.data.target = party.map Text.trim := by rw [hrow]; rfl
  refine ⟨?_, hfits, by rw [hrow]; rfl, by rw [hrow]; rfl, _, hfind, hread⟩
  rcases party_of_text hw hparty with rfl | rfl
  · cases hu.symm.trans htarget
  · rw [hu, Option.map_some, Text.trim_trim, htrim] at htarget
    exact Option.some.inj htarget

end

/-! ## Listings by target -/

section

variable {s : Session} {user : Value} {n : Int}

/-- The targets of stored entries have no white space around them. -/
theorem trim_target (hd : Reachable s.database) {e : Row Entry}
    (he : e ∈ s.database.ledger.readEntries) {u : String} (hu : e.data.target = some u) :
    Text.trim u = u := by
  obtain ⟨r, hr, hread⟩ := List.mem_filterMap.1 he
  obtain ⟨e', he', hshows⟩ := hd.shows hr
  cases (StoredEntry.read?_eq_some.2 he').symm.trans hread
  have htrimmed := (hd.allWritten r hr).trimmed
  rw [← hshows.target, hu] at htrimmed
  exact Option.some.inj htrimmed

/-- A listing by a target shows the user's active entries that have just that target. -/
theorem mem_listing_by_target (hd : Reachable s.database) (hb : s.breaks = none)
    (huser : user.id? = some n) (hfits : fitsInteger n = true) (w : String) :
    ∃ es, ((Call.listEntries user { target := .text w }).run.exec s).1 = .ok (.entries es) ∧
      ∀ e, e ∈ es ↔ e ∈ s.database.ledger.readEntries ∧ e.data.owner = n ∧
        e.data.archived = false ∧ e.data.target = some w := by
  have hq : EntryFilter.selection? { target := .text w } = some { target := some w } := rfl
  have hcompares : Selection.Compares { target := some w } (s.database.ledger.datesOf n) :=
    fun _ _ b hb => absurd hb List.not_mem_nil
  obtain ⟨es, hlist, hperm, -⟩ := listEntries_selects hd hb huser hq hcompares (by
    simpa [Selection.fits] using hfits)
  refine ⟨es, hlist, fun e => ?_⟩
  rw [hperm.mem_iff, List.mem_filter]
  simp [Selection.selects, and_assoc, @eq_comm _ (some w)]

end

/-- An entry that was given a text for its target, and has one, has that text without the white
space around it. As long as its row is left as it was made, a listing by its target shows it. A
listing by the text shows it as well if there is no white space to lose, and shows nothing at all
otherwise. Neither shows an entry with another target. -/
theorem Call.listed_by_own_target {text : String} {data : Option EntryRequest}
    {fields : List (String × Value)} (htargeted : Targeted text data fields) {s t : Session}
    (hd : Reachable s.database) (ho : s.inTransaction = false) (hfuse : s.fuse = none)
    (hbreaks : s.breaks = none) {user : Value} {n : Int} (huser : user.id? = some n)
    (htyped : (Call.createEntry user data fields).Typed) {a : Row Entry}
    (hx : (Call.createEntry user data fields).run.exec s = (.ok (.entry (some a)), t)) {u : String}
    (hu : a.data.target = some u) :
    u = Text.trim text ∧
      ∀ v : Session, Reachable v.database → v.breaks = none →
        v.database.ledger.entries.find? a.id = t.database.ledger.entries.find? a.id →
        (∃ es, ((Call.listEntries user { target := .text text }).run.exec v).1 = .ok (.entries es) ∧
          (Text.trim text = text → a ∈ es) ∧ (Text.trim text ≠ text → es = []) ∧
          ∀ e ∈ es, e.data.target = some u) ∧
        ∃ es, ((Call.listEntries user { target := .text u }).run.exec v).1 = .ok (.entries es) ∧
          a ∈ es ∧ ∀ e ∈ es, e.data.target = some u := by
  obtain ⟨hlayout, hi⟩ := hd.intact
  obtain ⟨rfl, hfits, howner, harchived, x, hfind, hread⟩ :=
    row_of_targeted htargeted ⟨ho, hlayout, hfuse, hbreaks⟩ hi huser htyped hx hu
  refine ⟨rfl, fun v hv hb hsame => ?_⟩
  have hmem : a ∈ v.database.ledger.readEntries :=
    List.mem_filterMap.2 ⟨x, List.mem_of_find?_eq_some (hsame.trans hfind),
      StoredEntry.read?_eq_some.2 hread⟩
  obtain ⟨es, hlist, hes⟩ := mem_listing_by_target hv hb huser hfits text
  obtain ⟨es', hlist', hes'⟩ := mem_listing_by_target hv hb huser hfits (Text.trim text)
  -- whatever is listed by the text is stored under it, and so has no white space around it
  have hplain (e : Row Entry) (he : e ∈ es) : Text.trim text = text :=
    trim_target hv ((hes e).1 he).1 ((hes e).1 he).2.2.2
  refine ⟨⟨es, hlist, fun htrim => ?_, fun hpadded => ?_, fun e he => ?_⟩,
    es', hlist', (hes' a).2 ⟨hmem, howner, harchived, hu⟩, fun e he => ((hes' e).1 he).2.2.2⟩
  · exact (hes a).2 ⟨hmem, howner, harchived, hu.trans (congrArg some htrim)⟩
  · exact List.eq_nil_iff_forall_not_mem.2 fun e he => hpadded (hplain e he)
  · rw [hplain e he]
    exact ((hes e).1 he).2.2.2

/-- The fields of a request to record what somebody was paid for tea. -/
def teaFrom (target : String) : List (String × Value) :=
  ("target", .text target) :: teaAt "2024-01-25"

/-- The call to record that somebody was paid for tea. -/
def buyTeaFrom (target : String) : Call := .createEntry (.int 1) none (teaFrom target)

theorem typed_buyTeaFrom (target : String) : (buyTeaFrom target).Typed := by
  simp [buyTeaFrom, Call.Typed, Call.ids, Value.isId, Value.isNull, Value.id?]

/-- Tea from somebody is listed by the name. -/
theorem tea_listed_by_target :
    let s := newSession.after (firstSpending.take 3)
    ∃ a t, (buyTeaFrom "ACME").run.exec s = (.ok (.entry (some a)), t) ∧
      a.data.target = some "ACME" ∧
      ∃ es, ((Call.listEntries (.int 1) { target := .text "ACME" }).run.exec t).1
        = .ok (.entries es) ∧ a ∈ es := by
  intro s
  have hd : Reachable s.database := Reachable.after (s := newSession) .migrated rfl fun c hc =>
    typed_firstSpending c (List.mem_of_mem_take hc)
  obtain ⟨ho, hfuse, hbreaks, hsome, hb⟩ : s.inTransaction = false ∧ s.fuse = none ∧
      s.breaks = none ∧
      ((Answer.recorded? ((buyTeaFrom "ACME").run.exec s).1).any
        fun a => a.data.target == some "ACME") = true ∧
      ((buyTeaFrom "ACME").run.exec s).2.breaks = none := by decide +kernel
  have htrim : Text.trim "ACME" = "ACME" := by decide +kernel
  clear_value s
  obtain ⟨a, ha, htarget⟩ := (Option.any_eq_true _ _).1 hsome
  have hu : a.data.target = some "ACME" := by simpa using htarget
  have hx : (buyTeaFrom "ACME").run.exec s
      = (.ok (.entry (some a)), ((buyTeaFrom "ACME").run.exec s).2) := by
    rw [← Answer.recorded?_eq_some.1 ha]
  obtain ⟨-, hlist⟩ := Call.listed_by_own_target (.fields rfl) hd ho hfuse hbreaks rfl
    (typed_buyTeaFrom "ACME") hx hu
  have hbought := Reachable.call hd (Session.not_inBlock ho) (typed_buyTeaFrom "ACME")
  obtain ⟨⟨es, hes, hmem, -⟩, -⟩ := hlist _ hbought hb rfl
  exact ⟨a, _, hx, hu, es, hes, hmem htrim⟩

/-- Tea from somebody whose name was given with spaces around it is not listed by what was given. -/
theorem tea_not_listed_by_padded_target :
    let s := newSession.after (firstSpending.take 3)
    ∃ a t, (buyTeaFrom " ACME ").run.exec s = (.ok (.entry (some a)), t) ∧
      a.data.target = some "ACME" ∧
      ((Call.listEntries (.int 1) { target := .text " ACME " }).run.exec t).1
        = .ok (.entries []) := by
  intro s
  have hd : Reachable s.database := Reachable.after (s := newSession) .migrated rfl fun c hc =>
    typed_firstSpending c (List.mem_of_mem_take hc)
  have hq : EntryFilter.selection? { target := .text " ACME " } = some { target := some " ACME " } :=
    rfl
  obtain ⟨ho, hx⟩ : s.inTransaction = false ∧
      ((Answer.recorded? ((buyTeaFrom " ACME ").run.exec s).1).any
        fun a => a.data.target == some "ACME") = true := by decide +kernel
  obtain ⟨hb, hlist⟩ : ((buyTeaFrom " ACME ").run.exec s).2.breaks = none ∧
      ((((buyTeaFrom " ACME ").run.exec s).2.database.ledger.listed 1
        { target := some " ACME " }).filterMap StoredEntry.read?).isEmpty = true := by decide +kernel
  clear_value s
  obtain ⟨a, ha, htarget⟩ := (Option.any_eq_true _ _).1 hx
  refine ⟨a, ((buyTeaFrom " ACME ").run.exec s).2, ?_, by simpa using htarget, ?_⟩
  · rw [← Answer.recorded?_eq_some.1 ha]
  · have hbought := Reachable.call hd (Session.not_inBlock ho) (typed_buyTeaFrom " ACME ")
    rw [answer_listEntries hbought hb rfl hq, if_pos (by decide),
      List.isEmpty_iff.1 hlist]

end Bookkeeping.Service
