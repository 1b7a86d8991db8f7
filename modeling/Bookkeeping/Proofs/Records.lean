import Bookkeeping.Proofs.Requests

/-! # Records of new rows

What a call stores is first read as a record from a few fields. Each part of the record is then what
its field is read as, and a part that was read once is read as it is ever after.
-/

namespace Bookkeeping

open Calendar Number

/-! ## Parts -/

namespace Part

variable {α : Type} {fields : List (String × Value)} {field : String} {read : Value → Reading α}

theorem boundedText_ok {least : Nat} {v : Value} {n : String} :
    boundedText least v = .ok n ↔
      ∃ s, v.text? = some s ∧ n = Text.trim s ∧ least ≤ n.length ∧ n.length ≤ maxName := by
  unfold boundedText text
  cases v.text? with
  | none => simp
  | some s =>
    rw [Reading.bind_ok]
    split
    · rename_i h
      refine iff_of_false Reading.fail_ne_ok ?_
      rintro ⟨_, ⟨⟩, rfl, hleast, -⟩
      omega
    · rename_i hleast
      split
      · rename_i h
        refine iff_of_false Reading.fail_ne_ok ?_
        rintro ⟨_, ⟨⟩, rfl, -, hmost⟩
        omega
      · rename_i hmost
        rw [Reading.ok_inj]
        constructor
        · rintro rfl
          exact ⟨s, rfl, rfl, by omega, by omega⟩
        · rintro ⟨_, ⟨⟩, rfl, -⟩
          rfl

/-- A text that was read is read as it is. -/
theorem boundedText_again {least : Nat} {v : Value} {n : String}
    (h : boundedText least v = .ok n) : boundedText least (.text n) = .ok n := by
  obtain ⟨s, -, rfl, hlength⟩ := boundedText_ok.1 h
  exact boundedText_ok.2 ⟨_, rfl, (Text.trim_trim s).symm, hlength⟩

theorem name_again {v : Value} {n : String} (h : name v = .ok n) : name (.text n) = .ok n :=
  boundedText_again h

theorem rate_ok {v : Value} {x : Float} (h : rate v = .ok x) : IsPositive x := by
  obtain ⟨y, hy, hx⟩ := Reading.bind_eq_ok.1 h
  obtain ⟨z, -, hz⟩ := Reading.bind_eq_ok.1 hy
  split at hx
  · rename_i hpos
    split at hz
    · rename_i hfinite
      obtain rfl := Reading.ok_inj.1 hz
      obtain rfl := Reading.ok_inj.1 hx
      exact ⟨hfinite, hpos⟩
    · exact absurd hz Reading.fail_ne_ok
  · exact absurd hx Reading.fail_ne_ok

theorem float_ok {v : Value} {x : Float} (h : float v = .ok x) : Number.isFinite x = true := by
  obtain ⟨y, -, hx⟩ := Reading.bind_eq_ok.1 h
  split at hx
  · rename_i hfinite
    obtain rfl := Reading.ok_inj.1 hx
    exact hfinite
  · exact absurd hx Reading.fail_ne_ok

/-- A text that is read has no blanks at its ends. -/
theorem trimmed_of_text {v : Value} {s : String} (h : text v = .ok s) : Text.trim s = s := by
  unfold text at h
  split at h
  · obtain rfl := Reading.ok_inj.1 h
    exact Text.trim_trim _
  · exact absurd h Reading.fail_ne_ok

theorem trimmed_of_optional {v : Value} {party : Option String}
    (h : optional text v = .ok party) : party.map Text.trim = party := by
  unfold optional at h
  split at h
  · obtain rfl := Reading.ok_inj.1 h
    rfl
  · obtain ⟨n, hn, rfl⟩ := Reading.map_eq_ok.1 h
    exact congrArg some (trimmed_of_text hn)

theorem required_ok {a : α} (h : required fields field read = .ok a) : ∃ v, read v = .ok a := by
  unfold required at h
  split at h
  · exact ⟨_, Reading.within_eq_ok.1 h⟩
  · exact absurd h Reading.flaws_ne_ok

theorem withDefault_ok {a default : α} (h : withDefault fields field read default = .ok a) :
    a = default ∨ ∃ v, read v = .ok a := by
  unfold withDefault at h
  split at h
  · exact .inr ⟨_, Reading.within_eq_ok.1 h⟩
  · exact .inl (Reading.ok_inj.1 h).symm

end Part

/-- A name that passed its check has no blanks at its ends and is read as it is. -/
theorem Check.name_ok {field : String} {v : Value} {n : String} (h : Check.name field v = .ok n) :
    Text.strip n = n ∧ Part.name (.text n) = .ok n := by
  unfold Check.name at h
  cases hg : Check.given field v with
  | error e => simp [hg, bind, Except.bind] at h
  | ok w =>
    simp only [hg, bind, Except.bind] at h
    split at h
    · cases h
    · rename_i s hs
      split at h
      · cases h
      · rename_i hblank
        split at h
        · cases h
        · rename_i hlong
          obtain rfl := Except.ok.inj h
          refine ⟨Text.strip_strip s, Part.boundedText_ok.2 ⟨_, rfl, (Text.trim_strip s).symm, ?_, ?_⟩⟩
          · have hne : Text.strip s ≠ "" := by simpa using hblank
            rw [Nat.one_le_iff_ne_zero, Ne, String.length_eq_zero_iff]
            exact hne
          · omega

/-- A rate that passed its check is positive. -/
theorem Check.rate_ok {field : String} {v : Value} {x : Float} (h : Check.rate field v = .ok x) :
    IsPositive x := by
  cases hy : Check.anyFloat field v with
  | error e => simp [Check.rate, Check.amount, Check.float, hy, bind, Except.bind] at h
  | ok y => exact ((amount_of_anyFloat field hy).1 h).2

/-! ## Proper names -/

/-- A name as calls store it: not empty, not too long, and without blanks at its ends. -/
structure ProperName (n : String) : Prop where
  nonempty : n ≠ ""
  short : n.length ≤ Part.maxName
  stripped : Text.strip n = n

theorem Check.properName {field : String} {v : Value} {n : String}
    (h : Check.name field v = .ok n) : ProperName n := by
  obtain ⟨hstrip, hname⟩ := Check.name_ok h
  obtain ⟨_, -, -, hleast, hmost⟩ := Part.boundedText_ok.1 hname
  refine ⟨?_, hmost, hstrip⟩
  rintro rfl
  exact absurd hleast (by decide)

/-- A proper name is read as it is. -/
theorem ProperName.read {n : String} (h : ProperName n) : Part.name (.text n) = .ok n := by
  refine Part.boundedText_ok.2 ⟨n, rfl, ?_, ?_, h.short⟩
  · rw [← h.stripped, Text.trim_strip]
  · rw [Nat.one_le_iff_ne_zero, Ne, String.length_eq_zero_iff]
    exact h.nonempty

theorem ProperName.of_read {n m : String} (h : ProperName n) (hm : Part.name (.text n) = .ok m) :
    ProperName m := by
  rw [h.read, Reading.ok_inj] at hm
  exact hm ▸ h

/-- A column of doubles holds a positive number as it is. -/
theorem IsPositive.unsigned {x : Float} (h : IsPositive x) : IsPositive (Store.unsigned x) :=
  h.unsigned_eq.symm ▸ h

/-! ## Records -/

/-- The fields of a new account are read as a record. -/
theorem User.read_ok {username hash : Value} {item : Item User} :
    User.read [("username", username), ("password_hash", hash)] = .ok item ↔
      ∃ name kept, Part.name username = .ok name ∧ Part.boundedText 0 hash = .ok kept ∧
        item = { data := { username := name, passwordHash := kept } } := by
  simp [User.read, Record.readId, Part.required, Part.withDefault, List.lookup_cons, and_assoc]

theorem Currency.read_ok {user name rate : Value} {item : Item Currency} :
    Currency.read [("user_id", user), ("name", name), ("rate_to_fixed", rate)] = .ok item ↔
      ∃ owner n x, Part.int user = .ok owner ∧ Part.name name = .ok n ∧ Part.rate rate = .ok x ∧
        item = { data := { owner, name := n, rate := x } } := by
  simp [Currency.read, Record.readId, Part.required, Part.withDefault, List.lookup_cons, and_assoc]

theorem Category.read_ok {user name : Value} {item : Item Category} :
    Category.read [("user_id", user), ("name", name)] = .ok item ↔
      ∃ owner n, Part.int user = .ok owner ∧ Part.name name = .ok n ∧
        item = { data := { owner, name := n } } := by
  simp [Category.read, Record.readId, Part.required, Part.withDefault, List.lookup_cons]

theorem Source.read_ok {user name currency amount : Value} {item : Item Source} :
    Source.read [("user_id", user), ("name", name), ("currency_id", currency),
        ("amount", amount)] = .ok item ↔
      ∃ owner n c x, Part.int user = .ok owner ∧ Part.name name = .ok n ∧
        Part.int currency = .ok c ∧ Part.float amount = .ok x ∧
        item = { data := { owner, name := n, currency := c, amount := x } } := by
  simp [Source.read, Record.readId, Part.required, Part.withDefault, List.lookup_cons, and_assoc]

/-- The fields of a new entry are read as a record. -/
theorem Entry.read_ok {user description target secondary : Value} {category currency source : Int}
    {amount rateToFixed : Float} {date : Calendar.Moment} {kind : EntryType} {rate : Option Float}
    {item : Item Entry} :
    Entry.read [("user_id", user), ("description", description), ("target", target),
      ("category_id", .int category), ("amount", .float amount), ("date", .moment date),
      ("currency_id", .int currency), ("entry_type", .kind kind), ("source_id", .int source),
      ("secondary_source_id", secondary), ("conversion_rate", Value.ofFloat? rate),
      ("conversion_rate_to_fixed", .float rateToFixed)] = .ok item ↔
    ∃ owner text party second, Part.int user = .ok owner ∧ Part.text description = .ok text ∧
      Part.optional Part.text target = .ok party ∧ isFinite amount = true ∧
      Part.optional Part.int secondary = .ok second ∧ (∀ x ∈ rate, isFinite x = true) ∧
      isFinite rateToFixed = true ∧
      item = { data := { owner, description := text, target := party, category, amount, date,
                         currency, kind, source, secondary := second, rate, rateToFixed } } := by
  simp only [read, Record.readId, Part.withDefault, List.lookup_cons, List.lookup_nil,
    String.reduceBEq, Reading.map_ok, Part.required, Part.int_int,
    Reading.within_ok, Part.moment_moment, Part.kind_kind, Reading.seq_eq_ok, Reading.ok_inj,
    Reading.within_eq_ok, exists_and_left, exists_eq_left', Bool.false_eq, existsAndEq, true_and,
    and_true, and_assoc, Part.float_float, Part.optional_float, Option.mem_def]

end Bookkeeping

namespace Bookkeeping.Service

/-- A record that was read from fields. -/
theorem read_of_recordOf {α : Type} [Record α] {fields : List (String × Value)} {a : α}
    (h : ((Record.read (α := α) fields).orFail (Record.title α)).map Item.data = .ok a) :
    ∃ item, Record.read (α := α) fields = .ok item ∧ item.data = a := by
  cases hr : (Record.read (α := α) fields).orFail (Record.title α) with
  | error e => simp [hr, Except.map] at h
  | ok item => exact ⟨item, Reading.orFail_eq_ok.1 hr, by simpa [hr, Except.map] using h⟩

end Bookkeeping.Service
