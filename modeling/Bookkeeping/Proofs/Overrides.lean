import Bookkeeping.Proofs.Acceptance
import Bookkeeping.Proofs.Alike

/-! # Overridden requests

Parts of a request may be given anew when an entry is recorded. They take their places as they are:
unlike the fields of a request of its own they are not read, so that the checks and the store may take
an untidy value for something else than the reader does. Here is which values they take for the same.
A request of such values comes to what the request that it is read as comes to, in the database and in
the answer, and if it is refused then by the same class of error and for the same field.
-/

namespace Bookkeeping

/-! ## Texts of numbers -/

namespace Text

variable {p q : Char → Bool}

/-- What is cut off at the ends of a list. -/
theorem exists_ends (p : Char → Bool) (cs : List Char) :
    ∃ front back, cs = front ++ cutEnds p cs ++ back ∧ (∀ c ∈ front, p c = true) ∧
      ∀ c ∈ back, p c = true := by
  refine ⟨cs.takeWhile p, ((cs.dropWhile p).reverse.takeWhile p).reverse, ?_,
    fun c hc => List.mem_takeWhile_imp hc,
    fun c hc => List.mem_takeWhile_imp (List.mem_reverse.1 hc)⟩
  rw [cutEnds, List.append_assoc, ← List.reverse_append, List.takeWhile_append_dropWhile,
    List.reverse_reverse, List.takeWhile_append_dropWhile]

/-- White space at the ends does not matter for a text that is stripped after some other characters
have been taken out of it. -/
theorem cutEnds_filter_cutEnds (hp : ∀ c, p c = true → q c = true) (keep : Char → Bool)
    (cs : List Char) :
    cutEnds q ((cutEnds p cs).filter keep) = cutEnds q (cs.filter keep) := by
  obtain ⟨front, back, hcs, hf, hb⟩ := exists_ends p cs
  have hkept {ends : List Char} (h : ∀ c ∈ ends, p c = true) :
      ∀ c ∈ ends.filter keep, q c = true :=
    fun c hc => hp c (h c (List.mem_filter.1 hc).1)
  conv_rhs => rw [hcs, List.filter_append, List.filter_append]
  exact (cutEnds_append (hkept hf) (hkept hb) _).symm

end Text

/-- The white space around a number does not count. -/
theorem Check.floatOfText?_trim (s : String) : floatOfText? (Text.trim s) = floatOfText? s := by
  have hcut : Text.cutEnds Text.isBlank (withoutCommas (Text.trim s)).toList
      = Text.cutEnds Text.isBlank (withoutCommas s).toList := by
    simp only [withoutCommas, Text.trim, String.toList_ofList]
    exact Text.cutEnds_filter_cutEnds (fun _ => Text.isBlank_of_isWhite) _ _
  rw [floatOfText?, floatOfText?, Number.Decimal.ofText?, Number.Decimal.ofText?, hcut]

@[simp] theorem EntryType.trim_text (k : EntryType) : Text.trim k.text = k.text := by
  cases k <;> decide

/-! ## Plain requests -/

open Store in
/-- A request whose parts mean to the checks what they are read as. -/
structure EntryRequest.Plain (r : EntryRequest) : Prop where
  /-- The store takes an id for the integer that it is read as. -/
  ids : ∀ v ∈ r.ids, ∀ n, Part.int v = .ok n → idCell v = idCell (.int n)
  /-- The two sources of a conversion are equal values if they are one source. -/
  sources : Check.kind r.kind = .ok .convert → ∀ m n, Part.int r.secondary = .ok m →
    Part.int r.source = .ok n → r.secondary.same r.source = decide (m = n)
  /-- A truth value does not stand for the number 1. -/
  numbers : ∀ v ∈ [r.amount, r.rate, r.rateToFixed], ∀ b, v = .bool b → b = false
  /-- The other party is not white space alone. -/
  target : ∀ s, r.target = .text s → Text.trim s = "" → s = ""
  /-- There is no white space around the name of an entry type. -/
  kind : ∀ s k, r.kind = .text s → Text.trim s = EntryType.text k → s = k.text
  /-- A date is in a form that is read as the same moment. -/
  date : ∀ m, Part.moment r.date = .ok m → Check.moment "date" r.date = .ok m

/-- What a request is read as is plain: no part of it can be mistaken. -/
theorem EntryRequest.ReadsAs.plain {r r' : EntryRequest} (h : r.ReadsAs r') : r'.Plain := by
  have hids {v : Value} (hv : v ∈ r'.ids) {n : Int} (hn : Part.int v = .ok n) : v = .int n := by
    rcases h.typed.ids v hv with rfl | ⟨m, rfl⟩
    · exact absurd hn Reading.fail_ne_ok
    · rw [Reading.ok_inj.1 hn]
  have htrimmed {v w : Value} (h : Part.ReadsAs Part.text .text v w) {s : String}
      (hs : w = .text s) : Text.trim s = s := by
    rcases h with ⟨-, rfl⟩ | ⟨t, ht, rfl⟩
    · cases hs
    · obtain rfl := Value.text.inj hs
      unfold Part.text at ht
      split at ht
      · rw [← Reading.ok_inj.1 ht, Text.trim_trim]
      · exact absurd ht Reading.fail_ne_ok
  exact
    { ids := fun v hv n hn => by rw [hids hv hn]
      sources := fun _ m n hm hn => by
        rw [hids (by simp [EntryRequest.ids]) hm, hids (by simp [EntryRequest.ids]) hn,
          Value.same_of_id? (m := m) (n := n) rfl rfl]
      numbers := fun v hv b hb => by
        subst hb
        rcases h.typed.numbers _ hv with hnull | ⟨x, hx⟩ | ⟨s, hs⟩
        · cases hnull
        · cases hx
        · cases hs
      target := fun s hs hblank => by rwa [htrimmed h.target hs] at hblank
      kind := fun s k hs hk => by rwa [htrimmed h.kind hs] at hk
      date := fun m hm => by
        rcases h.typed.date with hd | ⟨n, hd⟩ | ⟨d, hd⟩ <;> rw [hd] at hm ⊢
        · exact absurd hm Reading.fail_ne_ok
        · exact congrArg Except.ok (Reading.ok_inj.1 hm)
        · exact congrArg Except.ok (Reading.ok_inj.1 hm) }

namespace Part.ReadsAs

variable {v w : Value}

/-- A part is missing if it is read as nothing. -/
theorem isNull_eq {α : Type} {read : Value → Reading α} {toValue : α → Value}
    (h : ReadsAs read toValue v w) (hnull : ∀ a, read .null ≠ .ok a)
    (hvalue : ∀ v a, read v = .ok a → (toValue a).isNull = false) : v.isNull = w.isNull := by
  rcases h with ⟨rfl, rfl⟩ | ⟨a, ha, rfl⟩
  · rfl
  · rw [hvalue v a ha]
    cases v <;> first | rfl | exact absurd ha (hnull a)

/-! ### Ids -/

theorem isNull_int (h : ReadsAs Part.int .int v w) : v.isNull = w.isNull :=
  h.isNull_eq (fun _ => Reading.fail_ne_ok) fun _ _ _ => rfl

/-- The store looks for the integer that an id is read as. -/
theorem idCell_eq (h : ReadsAs Part.int .int v w)
    (hid : ∀ n, Part.int v = .ok n → Store.idCell v = Store.idCell (.int n))
    (hn : v.isNull = false) : Store.idCell v = Store.idCell w := by
  rcases h with ⟨rfl, -⟩ | ⟨n, hv, rfl⟩
  · cases hn
  · exact hid n hv

theorem optional_int (h : ReadsAs Part.int .int v w) :
    Part.optional Part.int v = Part.optional Part.int w := by
  have hn := h.isNull_int
  rcases h with ⟨rfl, rfl⟩ | ⟨n, hv, rfl⟩
  · rfl
  · rw [Part.optional_of_not_null hn, hv]
    rfl

/-! ### Texts -/

theorem isNull_text (h : ReadsAs Part.text .text v w) : v.isNull = w.isNull :=
  h.isNull_eq (fun _ => Reading.fail_ne_ok) fun _ _ _ => rfl

/-- What is read as a text is a text or the name of an entry type. -/
theorem text_cases (h : ReadsAs Part.text .text v w) :
    v = .null ∧ w = .null ∨ (∃ s, v = .text s ∧ w = .text (Text.trim s)) ∨
      ∃ k, v = .kind k ∧ w = .text k.text := by
  rcases h with h | ⟨a, ha, rfl⟩
  · exact .inl h
  · cases v with
    | text s =>
      obtain rfl := Reading.ok_inj.1 ha
      exact .inr (.inl ⟨s, rfl, rfl⟩)
    | kind k =>
      obtain rfl := Reading.ok_inj.1 ha
      exact .inr (.inr ⟨k, rfl, by rw [EntryType.trim_text]⟩)
    | _ => exact absurd ha Reading.fail_ne_ok

theorem text_eq (h : ReadsAs Part.text .text v w) : Part.text v = Part.text w := by
  rcases h.text_cases with ⟨rfl, rfl⟩ | ⟨s, rfl, rfl⟩ | ⟨k, rfl, rfl⟩
  · rfl
  · rw [Part.text_text, Part.text_text, Text.trim_trim]
  · rfl

/-- A party that is not white space alone is kept or left out as what it is read as. -/
theorem optional_target (h : ReadsAs Part.text .text v w)
    (hblank : ∀ s, v = .text s → Text.trim s = "" → s = "") :
    Part.optional Part.text (if v.truthy then v else .null)
      = Part.optional Part.text (if w.truthy then w else .null) := by
  rcases h.text_cases with ⟨rfl, rfl⟩ | ⟨s, rfl, rfl⟩ | ⟨k, rfl, rfl⟩
  · rfl
  · by_cases hs : s = ""
    · subst hs
      rfl
    · have htrim : Text.trim s ≠ "" := fun hempty => hs (hblank s rfl hempty)
      have hv : (Value.text s).truthy = true := by simpa [Value.truthy] using hs
      have hw : (Value.text (Text.trim s)).truthy = true := by simpa [Value.truthy] using htrim
      rw [if_pos hv, if_pos hw, Part.optional_of_not_null rfl, Part.optional_of_not_null rfl,
        Part.text_text, Part.text_text, Text.trim_trim]
  · cases k <;> rfl

/-! ### Numbers -/

theorem isNull_number (h : ReadsAs Part.floatOrText (fun v => v) v w) : v.isNull = w.isNull := by
  refine h.isNull_eq (fun a ha => ?_) fun v a ha => ?_
  · cases ha
  · rcases floatOrText_ok ha with ⟨x, rfl⟩ | ⟨s, rfl⟩ <;> rfl

/-- What is read as a number stays a text if it is one, and becomes a double otherwise. -/
theorem number_cases (h : ReadsAs Part.floatOrText (fun v => v) v w) :
    v = .null ∧ w = .null ∨ (∃ s, v.text? = some s ∧ w = .text (Text.trim s)) ∨
      ∃ x, v.text? = none ∧ Part.anyFloat v = .ok x ∧ w = .float x := by
  rcases h with h | ⟨a, ha, rfl⟩
  · exact .inl h
  · unfold Part.floatOrText at ha
    split at ha
    · rename_i s hs
      exact .inr (.inl ⟨s, hs, (Reading.ok_inj.1 ha).symm⟩)
    · rename_i hnone
      split at ha
      · rename_i x hx
        exact .inr (.inr ⟨x, hnone, hx, (Reading.ok_inj.1 ha).symm⟩)
      · cases ha

/-- The checks and the reader find the same double, but the checks take no truth value for one. -/
theorem anyFloat_eq {x : Float} (h : Part.anyFloat v = .ok x) (htext : v.text? = none)
    (hbool : ∀ b, v ≠ .bool b) (field : String) : Check.anyFloat field v = .ok x := by
  cases v with
  | float y => exact congrArg Except.ok (Reading.ok_inj.1 h)
  | bool b => exact absurd rfl (hbool b)
  | int n =>
    simp only [Part.anyFloat] at h
    split at h
    · rename_i hn
      simp only [Check.anyFloat, if_pos hn]
      exact congrArg Except.ok (Reading.ok_inj.1 h)
    · exact absurd h Reading.fail_ne_ok
  | decimal d =>
    simp only [Part.anyFloat] at h
    split at h
    · rename_i y hy
      simp only [Check.anyFloat, hy]
      exact congrArg Except.ok (Reading.ok_inj.1 h)
    · exact absurd h Reading.fail_ne_ok
  | text s => cases htext
  | kind k => cases htext
  | _ => exact absurd h Reading.fail_ne_ok

theorem anyFloat_of_text {s : String} (hs : v.text? = some s) (field : String) :
    Check.anyFloat field v
      = (Check.floatOfText? s).elim (Check.reject (.malformed field v)) Except.ok := by
  cases v with
  | text t =>
    obtain rfl := Option.some.inj hs
    cases hf : Check.floatOfText? t <;> rw [Check.anyFloat, hf] <;> rfl
  | kind k =>
    obtain rfl := Option.some.inj hs
    cases hf : Check.floatOfText? k.text <;> rw [Check.anyFloat, hf] <;> rfl
  | _ => cases hs

/-- A number that is no truth value stands for the double that it is read as. -/
theorem anyFloat_alike (h : ReadsAs Part.floatOrText (fun v => v) v w)
    (hbool : ∀ b, v ≠ .bool b) (field : String) :
    Alike Eq (Check.anyFloat field v) (Check.anyFloat field w) := by
  rcases h.number_cases with ⟨rfl, rfl⟩ | ⟨s, hs, rfl⟩ | ⟨x, htext, hx, rfl⟩
  · exact .refl _
  · -- a text is kept as a text, and the checks see the same number with other white space
    rw [anyFloat_of_text hs, anyFloat_of_text (v := .text (Text.trim s)) rfl, Check.floatOfText?_trim]
    cases Check.floatOfText? s with
    | none => exact .reject rfl rfl
    | some x => exact .ok rfl
  · rw [anyFloat_eq hx htext hbool]
    exact .refl _

/-- Amounts and rates are above zero, so that the truth value that is read as 0 is refused anyway. -/
theorem amount_alike (h : ReadsAs Part.floatOrText (fun v => v) v w)
    (hbool : ∀ b, v = .bool b → b = false) (field : String) :
    Alike Eq (Check.amount field true v) (Check.amount field true w) := by
  by_cases hv : v = .bool false
  · subst hv
    rcases h with ⟨hnull, -⟩ | ⟨a, ha, rfl⟩
    · cases hnull
    · obtain rfl := Reading.ok_inj.1 ha
      exact .reject rfl rfl
  · have hnone (b : Bool) : v ≠ .bool b := fun hb => hv (by rw [hb, hbool b hb])
    have hfinite : Alike Eq (Check.float field v) (Check.float field w) :=
      .bind_eq (h.anyFloat_alike hnone field) fun x _ => by
        split
        · exact .ok rfl
        · exact .reject rfl rfl
    refine .bind_eq hfinite fun x _ => ?_
    split
    · exact .reject rfl rfl
    · exact .ok rfl

/-! ### Dates and entry types -/

/-- What is read as a date is a date or is read as a moment. -/
theorem date_cases (h : ReadsAs Part.momentOrDate (fun v => v) v w) :
    v = w ∨ ∃ m, Part.moment v = .ok m ∧ w = .moment m := by
  rcases h with ⟨rfl, rfl⟩ | ⟨a, ha, rfl⟩
  · exact .inl rfl
  · unfold Part.momentOrDate at ha
    split at ha
    · cases ha
      exact .inl rfl
    · split at ha
      · rename_i m hm
        cases ha
        refine .inr ⟨m, ?_, rfl⟩
        rw [Part.moment, show Part.stamp v = .ok (.moment m) from hm]
        rfl
      · cases ha
      · cases ha

theorem moment_eq (h : ReadsAs Part.momentOrDate (fun v => v) v w)
    (hdate : ∀ m, Part.moment v = .ok m → Check.moment "date" v = .ok m) :
    Check.moment "date" v = Check.moment "date" w := by
  rcases h.date_cases with rfl | ⟨m, hm, rfl⟩
  · rfl
  · exact hdate m hm

theorem kind_text (s : String) : Check.kind (.text s) = (EntryType.ofText? s).elim
    (Check.reject (.outside "entry_type" Check.kindReason (.text s))) Except.ok := by
  have hkind : Part.kindOf? (.text s) = EntryType.ofText? s := rfl
  rw [Check.kind]
  cases hs : EntryType.ofText? s <;> simp [Check.given, hkind, hs, Value.isNull, bind, Except.bind]

theorem kind_alike (h : ReadsAs Part.text .text v w)
    (hkind : ∀ s k, v = .text s → Text.trim s = EntryType.text k → s = k.text) :
    Alike Eq (Check.kind v) (Check.kind w) := by
  rcases h.text_cases with ⟨rfl, rfl⟩ | ⟨s, rfl, rfl⟩ | ⟨k, rfl, rfl⟩
  · exact .refl _
  · have hsame : EntryType.ofText? s = EntryType.ofText? (Text.trim s) := by
      cases hk : EntryType.ofText? (Text.trim s) with
      | some k =>
        obtain rfl := hkind s k rfl (EntryType.ofText?_eq_some.1 hk)
        exact EntryType.ofText?_text k
      | none =>
        cases hk' : EntryType.ofText? s with
        | none => rfl
        | some k =>
          rw [EntryType.ofText?_eq_some.1 hk', EntryType.trim_text, EntryType.ofText?_text] at hk
          cases hk
    rw [kind_text, kind_text, ← hsame]
    cases EntryType.ofText? s with
    | none => exact .reject rfl rfl
    | some k => exact .ok rfl
  · cases k <;> exact .refl _

end Part.ReadsAs

end Bookkeeping

namespace Bookkeeping.Service

open Store

variable {r r' : EntryRequest}

/-! ## Checks -/

theorem alike_given (field : String) {v w : Value} (h : v.isNull = w.isNull) :
    Alike (fun _ _ => v.isNull = false) (Check.given field v) (Check.given field w) := by
  unfold Check.given
  rw [← h]
  cases hv : v.isNull with
  | true => exact .reject rfl rfl
  | false => exact .ok rfl

/-- Two sources are told apart as those that they are read as. -/
theorem same_eq (h : r.ReadsAs r') (hp : r.Plain) (hk : Check.kind r.kind = .ok .convert)
    (hs : r.source.isNull = false) (hn : r.secondary.isNull = false) :
    r.secondary.same r.source = r'.secondary.same r'.source := by
  rcases h.secondary with ⟨hnull, -⟩ | ⟨m, hm, hm'⟩
  · rw [hnull] at hn
    cases hn
  rcases h.source with ⟨hnull, -⟩ | ⟨n, hn, hn'⟩
  · rw [hnull] at hs
    cases hs
  rw [hp.sources hk m n hm hn, hm', hn', Value.same_of_id? (m := m) (n := n) rfl rfl]

/-- A plain request passes the same checks as the one that it is read as. -/
theorem checkRequest_alike (h : r.ReadsAs r') (hp : r.Plain) :
    Alike Eq (checkRequest r) (checkRequest r') := by
  unfold checkRequest
  -- the two run in step: where one is refused the other is, for the same field
  refine .bind_eq (h.kind.kind_alike hp.kind) fun kind hkind => ?_
  refine .bind (alike_given _ h.description.isNull_text) fun _ _ _ => ?_
  refine .bind (alike_given _ h.category.isNull_int) fun _ _ _ => ?_
  refine .bind (alike_given _ h.source.isNull_int) fun _ _ hsource => ?_
  refine .bind (alike_given _ h.currency.isNull_int) fun _ _ _ => ?_
  refine .bind_eq (h.amount.amount_alike (hp.numbers _ (by simp)) _) fun amount _ => ?_
  rw [h.date.moment_eq hp.date, h.rate.isNull_number]
  refine .bind_eq (.refl _) fun date _ => ?_
  have htransfer (rate : Option Float) (c : Checked) : Alike Eq
      (if kind.isTransfer = true then do
        let _ ← Check.given "secondary_source_id" r.secondary
        if rate.isNone = true then Check.reject (.required "conversion_rate")
        else if r.secondary.same r.source = true then
          Check.reject (.outside "secondary_source_id" "must differ from source_id" r.secondary)
        else .ok c
      else .ok c)
      (if kind.isTransfer = true then do
        let _ ← Check.given "secondary_source_id" r'.secondary
        if rate.isNone = true then Check.reject (.required "conversion_rate")
        else if r'.secondary.same r'.source = true then
          Check.reject (.outside "secondary_source_id" "must differ from source_id" r'.secondary)
        else .ok c
      else .ok c) := by
    split
    · rename_i hmoves
      rw [isTransfer_iff.1 hmoves] at hkind
      refine .bind (alike_given _ h.secondary.isNull_int) fun _ _ hsecond => ?_
      rw [same_eq h hp hkind hsource hsecond]
      split
      · exact .refl _
      · split
        · exact .reject rfl rfl
        · exact .refl _
    · exact .refl _
  have hrate : Alike Eq (some <$> Check.rate "conversion_rate" r.rate)
      (some <$> Check.rate "conversion_rate" r'.rate) :=
    .map (h.rate.amount_alike (hp.numbers _ (by simp)) _) fun _ _ => congrArg some
  dsimp only
  split
  · exact htransfer none _
  · exact .bind_eq hrate fun rate _ => htransfer rate _

/-! ## Recording -/

/-- A plain request leaves the entry of the one that it is read as. -/
theorem read_entryFields_eq (h : r.ReadsAs r') (hp : r.Plain) (user : Value) (c : Checked)
    (category currency source : Int) (fixed : Float) :
    Entry.read (entryFields user r c category currency source fixed)
      = Entry.read (entryFields user r' c category currency source fixed) := by
  have htext := h.description.text_eq
  have htarget := h.target.optional_target hp.target
  have hsecond := h.secondary.optional_int
  simp only [entryFields, Entry.read, Record.readId, Part.required, Part.withDefault,
    List.lookup_cons, List.lookup_nil, String.reduceBEq, htext, htarget, hsecond]

theorem recordEntry_alike (h : r.ReadsAs r') (hp : r.Plain) (user : Value) (c : Checked) :
    (recordEntry user r c).Alike (recordEntry user r' c) := by
  have hid {v w : Value} (hread : Part.ReadsAs Part.int .int v w) (hmem : v ∈ r.ids) (ρ : Type)
      {α : Type} [OwnedRecord ρ α] (field : String) :
      (loadOwned ρ user v field true).Alike (loadOwned ρ user w field true) :=
    alike_loadOwned ρ field true hread.isNull_int (hread.idCell_eq (hp.ids v hmem))
  have hfixed : Alike Eq (Check.rate "conversion_rate_to_fixed" r.rateToFixed)
      (Check.rate "conversion_rate_to_fixed" r'.rateToFixed) :=
    h.rateToFixed.amount_alike (hp.numbers _ (by simp)) _
  have hrecord (category currency source : Int) (fixed : Float) :
      (recordOf Entry (entryFields user r c category currency source fixed)).Alike
        (recordOf Entry (entryFields user r' c category currency source fixed)) := by
    have hread : Record.read (α := Entry) (entryFields user r c category currency source fixed)
        = Record.read (entryFields user r' c category currency source fixed) :=
      read_entryFields_eq h hp user c category currency source fixed
    rw [recordOf, recordOf, hread]
    exact .refl _
  unfold recordEntry
  rw [h.secondary.isNull_int, h.rateToFixed.isNull_number]
  refine .transaction ?_
  refine .bind (hid h.category (by simp [EntryRequest.ids]) Category _) fun category => ?_
  refine .bind (hid h.currency (by simp [EntryRequest.ids]) Currency _) fun currency => ?_
  refine .bind (hid h.source (by simp [EntryRequest.ids]) Source _) fun primary => ?_
  refine .whether (hid h.secondary (by simp [EntryRequest.ids]) Source _) ?_
  refine .bind (.refl _) fun _ => .either (fun _ => .refl _) (fun _ => .lift hfixed) fun fixed => ?_
  exact .bind (hrecord category.id currency.id primary.id fixed) fun _ => .refl _

/-! ## The call -/

/-- A plain request is carried out as the one that it is read as, and refused by the same error. -/
theorem createEntry_alike (h : r.ReadsAs r') (hp : r.Plain) {data data' : Option EntryRequest}
    {fields fields' : List (String × Value)} (hr : requestOf data fields = pure r)
    (hr' : requestOf data' fields' = pure r') (user : Value) (s : Session) :
    Alike Eq ((createEntry user data fields).exec s).1 ((createEntry user data' fields').exec s).1 ∧
      ((createEntry user data fields).exec s).2.database
        = ((createEntry user data' fields').exec s).2.database := by
  refine logged_alike ?_ "create_entry" s
  rw [hr, hr', pure_bind, pure_bind]
  refine .bind (.lift (checkRequest_alike h hp)) fun c => ?_
  exact .bind (recordEntry_alike h hp user c) fun _ => .refl _

/-- An override of nothing changes nothing. -/
theorem override_nil (d : EntryRequest) : d.override [] = d := by
  simp [EntryRequest.override, EntryRequest.ofParts, EntryRequest.parts, Value.field, List.lookup_cons]

theorem requestOf_some (d : EntryRequest) (fields : List (String × Value)) :
    requestOf (some d) fields = pure (d.override fields) := by
  cases fields with
  | nil =>
    rw [override_nil]
    rfl
  | cons f rest => rfl

theorem requestOf_none {fields : List (String × Value)} {item : Item EntryRequest}
    (h : EntryRequest.read fields = .ok item) : requestOf none fields = pure item.data := by
  unfold requestOf
  rw [show EntryRequest.read fields = Except.ok item from h]

/-- A request that comes from fields alone is what is read from them. -/
theorem read_of_requestOf {fields : List (String × Value)} {r : EntryRequest} {s t : Session}
    (hx : (requestOf none fields).exec s = (.ok r, t)) :
    ∃ item, EntryRequest.read fields = .ok item ∧ r = item.data := by
  unfold requestOf at hx
  dsimp only at hx
  split at hx
  · rename_i item hread
    exact ⟨item, hread, (Op.pure_ok hx).1⟩
  · cases hx

/-- Overriding parts of a request comes to the same as giving all parts as fields, if these can be
read and mean to the checks what they are read as. -/
theorem Call.createEntry_override {d : EntryRequest} {fields merged : List (String × Value)}
    {item : Item EntryRequest} (hmerged : EntryRequest.ofParts merged = d.override fields)
    (haccepted : EntryRequest.read merged = .ok item) (hplain : (d.override fields).Plain)
    (user : Value) (s : Session) :
    SameOutcome ((Call.createEntry user (some d) fields).run.exec s)
      ((Call.createEntry user none merged).run.exec s) := by
  have hreads : (d.override fields).ReadsAs item.data := hmerged ▸ readsAs_of_read haccepted
  obtain ⟨hresult, hdatabase⟩ := createEntry_alike hreads hplain (requestOf_some d fields)
    (requestOf_none haccepted) user s
  unfold SameOutcome
  rw [Call.run, Call.run, Op.exec_map, Op.exec_map]
  cases hx : (Service.createEntry user (some d) fields).exec s with
  | mk x t =>
    cases hy : (Service.createEntry user none merged).exec s with
    | mk y u =>
      rw [hx, hy] at hresult hdatabase
      cases hresult with
      | ok h => exact ⟨.ok (h ▸ rfl), hdatabase⟩
      | error h => exact ⟨.error h, hdatabase⟩

/-- Bread with some of its parts given anew: an id as a text, an amount without a fraction and a
party with white space around it. -/
theorem bread_overridden :
    let s := newSession.after (firstSpending.take 3)
    let fields := [("category_id", Value.text "1"), ("amount", .int 4), ("target", .text " Baker ")]
    let x := (Call.createEntry (.int 1) (some bread) fields).run.exec s
    (bread.override fields).Plain ∧ x.1.isOk = true ∧
      SameOutcome x ((Call.createEntry (.int 1) none (fields ++ bread.parts)).run.exec s) := by
  intro s fields x
  have haccepted : ∃ item, EntryRequest.read (fields ++ bread.parts) = .ok item := ⟨_, rfl⟩
  obtain ⟨item, haccepted⟩ := haccepted
  have hplain : (bread.override fields).Plain :=
    { ids := fun v hv n hn => by
        have hv : v ∈ [Value.text "1", .int 1, .int 1, .null] := hv
        have hone : Part.int (.text "1") = .ok 1 := rfl
        simp only [List.mem_cons, List.not_mem_nil, or_false] at hv
        rcases hv with rfl | rfl | rfl | rfl
        · obtain rfl := Reading.ok_inj.1 (hone.symm.trans hn)
          rfl
        · obtain rfl := Reading.ok_inj.1 hn
          rfl
        · obtain rfl := Reading.ok_inj.1 hn
          rfl
        · exact absurd hn Reading.fail_ne_ok
      sources := fun _ m n hm _ => absurd (show Part.int .null = .ok m from hm) Reading.fail_ne_ok
      numbers := by
        simp [fields, bread, EntryRequest.override, EntryRequest.ofParts, EntryRequest.parts,
          Value.field, List.lookup_cons]
      target := fun t ht hblank => by
        obtain rfl : " Baker " = t := Value.text.inj ht
        exact absurd hblank (by decide)
      kind := fun t k ht hk => by
        obtain rfl : EntryType.spend.text = t := Value.text.inj ht
        rwa [EntryType.trim_text] at hk
      date := fun m hm => congrArg Except.ok (Reading.ok_inj.1 hm) }
  exact ⟨hplain, by decide +kernel, Call.createEntry_override rfl haccepted hplain _ s⟩

/-- Given as a text, the second source of a conversion is not seen to be the first one: money is moved
from a source into itself, which the same fields without a request to override are refused for. -/
theorem override_moves_into_itself :
    let s := newSession.after (firstSpending.take 3)
    let d := { bread with amount := .float 10, kind := .text "convert", rate := .float 2 }
    let fields := [("secondary_source_id", Value.text "1")]
    let x := (Call.createEntry (.int 1) (some d) fields).run.exec s
    let y := (Call.createEntry (.int 1) none (fields ++ d.parts)).run.exec s
    Reachable s.database ∧ s.inTransaction = false ∧ EntryRequest.read d.parts = .ok { data := d } ∧
      (∃ item, EntryRequest.read (fields ++ d.parts) = .ok item) ∧
      (x.2.database.ledger.entries.rows.map fun r => (r.data.source, r.data.secondary))
        = [(1, some 1)] ∧
      (∃ e, y.1 = .error (.rejected e) ∧ e.kind = .check ∧ e.field = some "secondary_source_id") ∧
      ¬ SameOutcome x y := by
  intro s d fields x y
  have hx : x.1.isOk = true := by decide +kernel
  have hy : ∃ e, y.1 = .error (.rejected e) ∧ e.kind = .check ∧
      e.field = some "secondary_source_id" := ⟨_, rfl, rfl, rfl⟩
  refine ⟨reachable_firstSpending 3, by decide +kernel, rfl, ⟨_, rfl⟩, by decide +kernel, hy, fun ⟨h, _⟩ => ?_⟩
  obtain ⟨e, he, -⟩ := hy
  rw [he] at h
  cases hxr : x.1 with
  | ok a =>
    rw [hxr] at h
    cases h
  | error e' =>
    rw [hxr] at hx
    cases hx

end Bookkeeping.Service
