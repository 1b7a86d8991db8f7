import Bookkeeping.Proofs.Statements

/-! # Records read anew

A row that holds its record is read by showing its fields and reading them again. What comes back is
the record with its texts trimmed, if its texts are short enough and its numbers in range.
-/

namespace Bookkeeping

namespace Reading

variable {α β : Type}

@[simp] theorem ok_inj {a b : α} : (ok a : Reading α) = ok b ↔ a = b := by
  constructor
  · rintro ⟨⟩
    rfl
  · rintro rfl
    rfl

@[simp] theorem flaws_ne_ok {fs : List Flaw} {a : α} : (flaws fs : Reading α) ≠ ok a := by
  rintro ⟨⟩

@[simp] theorem fail_ne_ok {cause : Cause} {v : Value} {a : α} :
    (fail cause v : Reading α) ≠ ok a :=
  flaws_ne_ok

theorem ok_or_flaws (x : Reading α) : (∃ a, x = ok a) ∨ ∃ fs, x = flaws fs := by
  cases x with
  | ok a => exact .inl ⟨a, rfl⟩
  | error fs => exact .inr ⟨fs, rfl⟩

@[simp] theorem map_eq_ok {f : α → β} {x : Reading α} {b : β} :
    f <$> x = ok b ↔ ∃ a, x = ok a ∧ b = f a := by
  obtain ⟨a, rfl⟩ | ⟨fs, rfl⟩ := x.ok_or_flaws
  · simp [eq_comm]
  · exact iff_of_false flaws_ne_ok (by simp)

@[simp] theorem seq_eq_ok {f : Reading (α → β)} {x : Reading α} {b : β} :
    f <*> x = ok b ↔ ∃ g a, f = ok g ∧ x = ok a ∧ b = g a := by
  obtain ⟨g, rfl⟩ | ⟨fs, rfl⟩ := f.ok_or_flaws
  · obtain ⟨a, rfl⟩ | ⟨gs, rfl⟩ := x.ok_or_flaws
    · simp [eq_comm]
    · exact iff_of_false flaws_ne_ok (by simp)
  · obtain ⟨a, rfl⟩ | ⟨gs, rfl⟩ := x.ok_or_flaws
    · exact iff_of_false flaws_ne_ok (by simp)
    · exact iff_of_false flaws_ne_ok (by simp)

@[simp] theorem within_eq_ok {step : String} {x : Reading α} {a : α} :
    within step x = ok a ↔ x = ok a := by
  obtain ⟨b, rfl⟩ | ⟨fs, rfl⟩ := x.ok_or_flaws
  · simp
  · exact iff_of_false flaws_ne_ok (by simp)

@[simp] theorem bind_eq_ok {x : Reading α} {f : α → Reading β} {b : β} :
    bind x f = ok b ↔ ∃ a, x = ok a ∧ f a = ok b := by
  obtain ⟨a, rfl⟩ | ⟨fs, rfl⟩ := x.ok_or_flaws
  · simp
  · exact iff_of_false flaws_ne_ok (by simp)

@[simp] theorem orFail_eq_ok {title : String} {x : Reading α} {a : α} :
    x.orFail title = .ok a ↔ x = ok a := by
  obtain ⟨b, rfl⟩ | ⟨fs, rfl⟩ := x.ok_or_flaws
  · simp [orFail, ok]
    exact ok_inj.symm
  · simp [orFail, flaws]
    exact flaws_ne_ok

end Reading

namespace Part

variable {α : Type} {read : Value → Reading α}

@[simp] theorem int_int (n : Int) : int (.int n) = .ok n := rfl

@[simp] theorem bool_bool (b : Bool) : bool (.bool b) = .ok b := rfl

@[simp] theorem kind_kind (k : EntryType) : kind (.kind k) = .ok k := by
  simp [kind, kindOf?, Value.text?]

@[simp] theorem moment_moment (m : Calendar.Moment) : moment (.moment m) = .ok m := rfl

@[simp] theorem text_text (s : String) : text (.text s) = .ok (Text.trim s) := rfl

@[simp] theorem optional_null : optional read .null = .ok none := rfl

theorem optional_of_not_null {v : Value} (h : v.isNull = false) :
    optional read v = some <$> read v := by
  cases v <;> first | rfl | cases h

@[simp] theorem optional_int (n : Option Int) : optional int (Value.ofInt? n) = .ok n := by
  cases n <;> rfl

@[simp] theorem optional_text (s : Option String) :
    optional text (Value.ofText? s) = .ok (s.map Text.trim) := by
  cases s <;> rfl

@[simp] theorem optional_moment (m : Option Calendar.Moment) :
    optional moment ((m.map Value.moment).getD .null) = .ok m := by
  cases m <;> rfl

@[simp] theorem anyFloat_float (x : Float) : anyFloat (.float x) = .ok x := rfl

@[simp] theorem float_float {x y : Float} :
    float (.float x) = .ok y ↔ Number.isFinite x = true ∧ y = x := by
  rw [float, anyFloat_float, Reading.bind_ok]
  split
  · rename_i h
    rw [Reading.ok_inj, eq_comm, and_iff_right h]
  · rename_i h
    exact iff_of_false Reading.fail_ne_ok fun hx => h hx.1

@[simp] theorem rate_float {x y : Float} :
    rate (.float x) = .ok y ↔ Number.isFinite x = true ∧ 0 < x ∧ y = x := by
  rw [rate, Reading.bind_eq_ok]
  constructor
  · rintro ⟨z, hz, hy⟩
    obtain ⟨hf, rfl⟩ := float_float.1 hz
    split at hy
    · rename_i hpos
      exact ⟨hf, hpos, (Reading.ok_inj.1 hy).symm⟩
    · exact absurd hy Reading.fail_ne_ok
  · rintro ⟨hf, hpos, rfl⟩
    exact ⟨y, float_float.2 ⟨hf, rfl⟩, if_pos hpos⟩

@[simp] theorem optional_float {x y : Option Float} :
    optional float (Value.ofFloat? x) = .ok y ↔ (∀ z ∈ x, Number.isFinite z = true) ∧ y = x := by
  cases x with
  | none =>
    show optional float .null = .ok y ↔ _
    rw [optional_null, Reading.ok_inj, eq_comm]
    exact ⟨fun h => ⟨by simp, h⟩, fun h => h.2⟩
  | some x =>
    rw [optional_of_not_null rfl, Reading.map_eq_ok]
    constructor
    · rintro ⟨z, hz, rfl⟩
      obtain ⟨hf, rfl⟩ := float_float.1 hz
      exact ⟨fun w hw => by cases hw; exact hf, rfl⟩
    · rintro ⟨hf, rfl⟩
      exact ⟨x, float_float.2 ⟨hf x rfl, rfl⟩, rfl⟩

end Part

/-! ## Rows -/

namespace Store

theorem withOdd_nil (fields : List (String × Value)) : withOdd [] fields = fields := by
  simp [withOdd]

theorem reread_ok {α : Type} [Record α] {r a : Row α} (ho : r.odd = []) :
    reread r = .ok a ↔ ∃ item, Record.read (α := α) (Record.fields ⟨some r.id, r.data⟩) = .ok item ∧
      a = { id := r.id, data := item.data } := by
  rw [reread, ho, withOdd_nil]
  cases h : (Record.read (α := α) (Record.fields ⟨some r.id, r.data⟩)).orFail (Record.title α) with
  | error e =>
    simp only [bind, Except.bind]
    refine iff_of_false (by simp) ?_
    rintro ⟨item, hitem, -⟩
    rw [Reading.orFail_eq_ok.2 hitem] at h
    cases h
  | ok item =>
    simp only [bind, Except.bind, Except.ok.injEq]
    rw [Reading.orFail_eq_ok.1 h]
    simp [eq_comm]

/-- A row is read under its own id. -/
theorem id_of_reread {α : Type} [Record α] {r a : Row α} (h : reread r = .ok a) : a.id = r.id := by
  rw [reread] at h
  cases hread : (Record.read (α := α) (withOdd r.odd (Record.fields ⟨some r.id, r.data⟩))).orFail
      (Record.title α) with
  | error e =>
    rw [hread] at h
    cases h
  | ok item =>
    rw [hread] at h
    cases h
    rfl

theorem reread_user {r a : Row User} (ho : r.odd = []) :
    reread r = .ok a ↔ ∃ n h, Part.name (.text r.data.username) = .ok n ∧
      Part.boundedText 0 (.text r.data.passwordHash) = .ok h ∧
      a = { id := r.id, data := { r.data with username := n, passwordHash := h } } := by
  rw [reread_ok ho]
  simp [Record.read, Record.fields, User.read, User.publicFields, Record.readId, Part.required,
    Part.withDefault, List.lookup_cons, and_assoc]

theorem reread_currency {r a : Row Currency} (ho : r.odd = []) :
    reread r = .ok a ↔ ∃ n, Part.name (.text r.data.name) = .ok n ∧
      Number.isFinite r.data.rate = true ∧ 0 < r.data.rate ∧
      a = { id := r.id, data := { r.data with name := n } } := by
  rw [reread_ok ho]
  simp [Record.read, Record.fields, Currency.read, Record.readId, Part.required, Part.withDefault,
    List.lookup_cons, and_assoc]

theorem reread_category {r a : Row Category} (ho : r.odd = []) :
    reread r = .ok a ↔ ∃ n, Part.name (.text r.data.name) = .ok n ∧
      a = { id := r.id, data := { r.data with name := n } } := by
  rw [reread_ok ho]
  simp [Record.read, Record.fields, Category.read, Record.readId, Part.required, Part.withDefault,
    List.lookup_cons]

theorem reread_source {r a : Row Source} (ho : r.odd = []) :
    reread r = .ok a ↔ ∃ n, Part.name (.text r.data.name) = .ok n ∧
      Number.isFinite r.data.amount = true ∧
      a = { id := r.id, data := { r.data with name := n } } := by
  rw [reread_ok ho]
  simp [Record.read, Record.fields, Source.read, Record.readId, Part.required, Part.withDefault,
    List.lookup_cons, and_assoc]

theorem reread_entry {r a : Row Entry} (ho : r.odd = []) :
    reread r = .ok a ↔ Number.isFinite r.data.amount = true ∧
      (∀ x ∈ r.data.rate, Number.isFinite x = true) ∧ Number.isFinite r.data.rateToFixed = true ∧
      a = { id := r.id, data := { r.data with description := Text.trim r.data.description
                                              target := r.data.target.map Text.trim } } := by
  rw [reread_ok ho]
  -- With all simp lemmas at hand the search would try to inhabit the partial applications of the record.
  simp only [Record.read, Entry.read, Record.readId, Part.withDefault, Record.fields,
    List.lookup_cons_self, Part.optional_int, Reading.within_ok, Reading.map_ok, Part.required,
    List.lookup_cons, String.reduceBEq, Part.int_int, Reading.seq_ok, Part.bool_bool,
    Part.text_text, Part.optional_text, Part.moment_moment, Part.optional_moment, Part.kind_kind,
    Reading.seq_eq_ok, Reading.ok_inj, Reading.within_eq_ok, Part.float_float, and_assoc,
    exists_and_left, existsAndEq, true_and, exists_eq_left', Part.optional_float, Option.mem_def]

namespace StoredEntry

/-- The time of creation in a stored text, which may be empty. -/
def created (s : String) : Except Failure (Option Calendar.Moment) :=
  if s == "" then .ok none else some <$> moment s

/-- The entry of stored data, with the moments that its texts spell. -/
def dated (e : StoredEntry) (date : Calendar.Moment) (createdAt : Option Calendar.Moment) : Entry where
  owner := e.owner
  description := e.description
  target := e.target
  category := e.category
  amount := e.amount
  date := date
  createdAt := createdAt
  currency := e.currency
  kind := e.kind
  source := e.source
  secondary := e.secondary
  rate := e.rate
  rateToFixed := e.rateToFixed
  archived := e.archived

theorem toEntry_full (r : Row StoredEntry) :
    toEntry .full r = (do
      let date ← moment r.data.date
      let createdAt ← created r.data.createdAt
      reread { id := r.id, data := r.data.dated date createdAt, odd := r.odd }) := by
  rw [toEntry, if_neg (by simp), created]
  by_cases h : r.data.createdAt == "" <;> simp only [h] <;> rfl

/-- The record of an entry that is stored without odd cells. -/
theorem toEntry_ok {r : Row StoredEntry} {a : Row Entry} (ho : r.odd = []) :
    toEntry .full r = .ok a ↔ ∃ date createdAt,
      moment r.data.date = .ok date ∧ created r.data.createdAt = .ok createdAt ∧
      Number.isFinite r.data.amount = true ∧ (∀ x ∈ r.data.rate, Number.isFinite x = true) ∧
      Number.isFinite r.data.rateToFixed = true ∧
      a = { id := r.id
            data := { r.data.dated date createdAt with
              description := Text.trim r.data.description
              target := r.data.target.map Text.trim } } := by
  rw [toEntry_full]
  cases hd : moment r.data.date with
  | error e => simp [bind, Except.bind]
  | ok date =>
    cases hc : created r.data.createdAt with
    | error e => simp [bind, Except.bind]
    | ok createdAt =>
      simp only [bind, Except.bind, Except.ok.injEq, exists_and_left, exists_eq_left', ho]
      rw [reread_entry rfl]
      rfl

end StoredEntry

end Store

end Bookkeeping
