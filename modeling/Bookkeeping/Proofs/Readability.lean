import Bookkeeping.Proofs.EntryCalls
import Bookkeeping.Proofs.IsoTexts

/-! # What is stored can be read

A statement that stores or changes a row is followed by one that reads the row. Names that were
checked stay as they are when they are read, and so do the parts of a record that was read once; so
what a call has stored it can always read.
-/

namespace Bookkeeping

open Calendar

/-! ## Records that are stored -/

namespace Store

variable {fields : List (String × Value)}

/-- An account that was read from fields is read as it is. -/
theorem reread_newUser {item : Item User} (h : User.read fields = .ok item) (id : Int) :
    reread (⟨id, item.data, []⟩ : Row User) = .ok ⟨id, item.data, []⟩ := by
  obtain ⟨g₁, enabled, h₁, -, rfl⟩ := Reading.seq_eq_ok.1 h
  obtain ⟨g₂, fixed, h₂, -, rfl⟩ := Reading.seq_eq_ok.1 h₁
  obtain ⟨g₃, hash, h₃, hhash, rfl⟩ := Reading.seq_eq_ok.1 h₂
  obtain ⟨g₄, username, h₄, hname, rfl⟩ := Reading.seq_eq_ok.1 h₃
  obtain ⟨n, -, rfl⟩ := Reading.map_eq_ok.1 h₄
  obtain ⟨v, hv⟩ := Part.required_ok hname
  obtain ⟨w, hw⟩ := Part.required_ok hhash
  exact (reread_user rfl).2 ⟨_, _, Part.name_again hv, Part.boundedText_again hw, rfl⟩

theorem readable_newUser {item : Item User} (h : User.read fields = .ok item) (id : Int) :
    ∃ a, reread (⟨id, item.data, []⟩ : Row User) = .ok a :=
  ⟨_, reread_newUser h id⟩

/-- A currency that was read from fields is read as it is: its rate is positive, and so keeps no sign
that could be lost. -/
theorem reread_newCurrency {item : Item Currency} (h : Currency.read fields = .ok item) (id : Int) :
    reread (⟨id, { item.data with rate := unsigned item.data.rate }, []⟩ : Row Currency)
      = .ok ⟨id, item.data, []⟩ := by
  obtain ⟨g₁, rate, h₁, hrate, rfl⟩ := Reading.seq_eq_ok.1 h
  obtain ⟨g₂, name, h₂, hname, rfl⟩ := Reading.seq_eq_ok.1 h₁
  obtain ⟨g₃, archived, h₃, -, rfl⟩ := Reading.seq_eq_ok.1 h₂
  obtain ⟨g₄, owner, h₄, -, rfl⟩ := Reading.seq_eq_ok.1 h₃
  obtain ⟨n, -, rfl⟩ := Reading.map_eq_ok.1 h₄
  obtain ⟨v, hv⟩ := Part.required_ok hname
  obtain ⟨w, hw⟩ := Part.required_ok hrate
  have hpos := Part.rate_ok hw
  rw [hpos.unsigned_eq]
  exact (reread_currency rfl).2 ⟨_, Part.name_again hv, hpos.finite, hpos.pos, rfl⟩

theorem readable_newCurrency {item : Item Currency} (h : Currency.read fields = .ok item)
    (id : Int) :
    ∃ a, reread (⟨id, { item.data with rate := unsigned item.data.rate }, []⟩ : Row Currency)
      = .ok a :=
  ⟨_, reread_newCurrency h id⟩

/-- A category that was read from fields is read as it is. -/
theorem reread_newCategory {item : Item Category} (h : Category.read fields = .ok item) (id : Int) :
    reread (⟨id, item.data, []⟩ : Row Category) = .ok ⟨id, item.data, []⟩ := by
  obtain ⟨g₁, name, h₁, hname, rfl⟩ := Reading.seq_eq_ok.1 h
  obtain ⟨g₂, archived, h₂, -, rfl⟩ := Reading.seq_eq_ok.1 h₁
  obtain ⟨g₃, owner, h₃, -, rfl⟩ := Reading.seq_eq_ok.1 h₂
  obtain ⟨n, -, rfl⟩ := Reading.map_eq_ok.1 h₃
  obtain ⟨v, hv⟩ := Part.required_ok hname
  exact (reread_category rfl).2 ⟨_, Part.name_again hv, rfl⟩

theorem readable_newCategory {item : Item Category} (h : Category.read fields = .ok item)
    (id : Int) : ∃ a, reread (⟨id, item.data, []⟩ : Row Category) = .ok a :=
  ⟨_, reread_newCategory h id⟩

/-- A source that was read from fields is read as it is stored. -/
theorem reread_newSource {item : Item Source} (h : Source.read fields = .ok item) (id : Int) :
    reread (⟨id, { item.data with amount := unsigned item.data.amount }, []⟩ : Row Source)
      = .ok ⟨id, { item.data with amount := unsigned item.data.amount }, []⟩ := by
  obtain ⟨g₁, amount, h₁, hamount, rfl⟩ := Reading.seq_eq_ok.1 h
  obtain ⟨g₂, currency, h₂, -, rfl⟩ := Reading.seq_eq_ok.1 h₁
  obtain ⟨g₃, name, h₃, hname, rfl⟩ := Reading.seq_eq_ok.1 h₂
  obtain ⟨g₄, archived, h₄, -, rfl⟩ := Reading.seq_eq_ok.1 h₃
  obtain ⟨g₅, owner, h₅, -, rfl⟩ := Reading.seq_eq_ok.1 h₄
  obtain ⟨n, -, rfl⟩ := Reading.map_eq_ok.1 h₅
  obtain ⟨v, hv⟩ := Part.required_ok hname
  have hfinite : Number.isFinite amount = true := by
    rcases Part.withDefault_ok hamount with rfl | ⟨w, hw⟩
    · decide
    · exact Part.float_ok hw
  exact (reread_source rfl).2 ⟨_, Part.name_again hv, isFinite_unsigned hfinite, rfl⟩

theorem readable_newSource {item : Item Source} (h : Source.read fields = .ok item) (id : Int) :
    ∃ a, reread (⟨id, { item.data with amount := unsigned item.data.amount }, []⟩ : Row Source)
      = .ok a :=
  ⟨_, reread_newSource h id⟩

/-- The text of a moment can be read, also where an entry has its time of creation. -/
theorem moment_toText (m : Moment) : ∃ date, StoredEntry.moment m.toText = .ok date := by
  refine ⟨{ m with offset := m.offset.map Offset.kept }, ?_⟩
  rw [StoredEntry.moment, Moment.ofIso_toText]
  rfl

theorem created_toText (m : Moment) : ∃ c, StoredEntry.created m.toText = .ok c := by
  unfold StoredEntry.created
  split
  · exact ⟨_, rfl⟩
  · obtain ⟨c, hc⟩ := moment_toText m
    exact ⟨some c, by rw [hc]; rfl⟩

/-- An entry can be read if its numbers are finite and it is stored at a proper time. -/
theorem readable_newEntry {e : Entry} {now : String} (hnow : ∃ m : Moment, now = m.toText)
    (hamount : Number.isFinite e.amount = true) (hrate : ∀ x ∈ e.rate, Number.isFinite x = true)
    (hfixed : Number.isFinite e.rateToFixed = true) (id : Int) :
    ∃ a, StoredEntry.toEntry .full ⟨id, StoredEntry.ofEntry now e, []⟩ = .ok a := by
  obtain ⟨m, rfl⟩ := hnow
  obtain ⟨date, hdate⟩ := moment_toText e.date
  obtain ⟨created, hc⟩ : ∃ c,
      StoredEntry.created ((e.createdAt.map Moment.toText).getD m.toText) = .ok c := by
    cases e.createdAt with
    | none => exact created_toText m
    | some k => exact created_toText k
  refine ⟨_, (StoredEntry.toEntry_ok rfl).2 ⟨date, created, hdate, hc, isFinite_unsigned hamount,
    ?_, isFinite_unsigned hfixed, rfl⟩⟩
  intro x hx
  obtain ⟨y, hy, rfl⟩ := Option.map_eq_some_iff.1 hx
  exact isFinite_unsigned (hrate y hy)

/-- An entry that is read from fields has finite numbers, and no blanks at the ends of its texts. -/
theorem parts_of_readEntry {item : Item Entry} (h : Entry.read fields = .ok item) :
    (Number.isFinite item.data.amount = true ∧ (∀ x ∈ item.data.rate, Number.isFinite x = true) ∧
        Number.isFinite item.data.rateToFixed = true) ∧
      Text.trim item.data.description = item.data.description ∧
      item.data.target.map Text.trim = item.data.target := by
  obtain ⟨g₁, fixed, h₁, hfixed, rfl⟩ := Reading.seq_eq_ok.1 h
  obtain ⟨g₂, rate, h₂, hrate, rfl⟩ := Reading.seq_eq_ok.1 h₁
  obtain ⟨g₃, secondary, h₃, -, rfl⟩ := Reading.seq_eq_ok.1 h₂
  obtain ⟨g₄, source, h₄, -, rfl⟩ := Reading.seq_eq_ok.1 h₃
  obtain ⟨g₅, kind, h₅, -, rfl⟩ := Reading.seq_eq_ok.1 h₄
  obtain ⟨g₆, currency, h₆, -, rfl⟩ := Reading.seq_eq_ok.1 h₅
  obtain ⟨g₇, createdAt, h₇, -, rfl⟩ := Reading.seq_eq_ok.1 h₆
  obtain ⟨g₈, date, h₈, -, rfl⟩ := Reading.seq_eq_ok.1 h₇
  obtain ⟨g₉, amount, h₉, hamount, rfl⟩ := Reading.seq_eq_ok.1 h₈
  obtain ⟨g₁₀, category, h₁₀, -, rfl⟩ := Reading.seq_eq_ok.1 h₉
  obtain ⟨g₁₁, target, h₁₁, htarget, rfl⟩ := Reading.seq_eq_ok.1 h₁₀
  obtain ⟨g₁₂, description, h₁₂, hdescription, rfl⟩ := Reading.seq_eq_ok.1 h₁₁
  obtain ⟨g₁₃, archived, h₁₃, -, rfl⟩ := Reading.seq_eq_ok.1 h₁₂
  obtain ⟨g₁₄, owner, h₁₄, -, rfl⟩ := Reading.seq_eq_ok.1 h₁₃
  obtain ⟨n, -, rfl⟩ := Reading.map_eq_ok.1 h₁₄
  obtain ⟨v, hv⟩ := Part.required_ok hamount
  obtain ⟨w, hw⟩ := Part.required_ok hfixed
  obtain ⟨t, ht⟩ := Part.required_ok hdescription
  refine ⟨⟨Part.float_ok hv, fun x hx => ?_, Part.float_ok hw⟩, Part.trimmed_of_text ht, ?_⟩
  · rcases Part.withDefault_ok hrate with rfl | ⟨u, hu⟩
    · cases hx
    · unfold Part.optional at hu
      split at hu
      · obtain rfl := Reading.ok_inj.1 hu
        cases hx
      · obtain ⟨y, hy, rfl⟩ := Reading.map_eq_ok.1 hu
        cases hx
        exact Part.float_ok hy
  · rcases Part.withDefault_ok htarget with rfl | ⟨u, hu⟩
    · rfl
    · exact Part.trimmed_of_optional hu

/-- An entry that is read from fields can be read again once it is stored at a proper time. -/
theorem readable_readEntry {item : Item Entry} {now : String} (h : Entry.read fields = .ok item)
    (hnow : ∃ m : Moment, now = m.toText) (id : Int) :
    ∃ a, StoredEntry.toEntry .full ⟨id, StoredEntry.ofEntry now item.data, []⟩ = .ok a :=
  have hfinite := (parts_of_readEntry h).1
  readable_newEntry hnow hfinite.1 hfinite.2.1 hfinite.2.2 id

/-! ## Rows that are changed -/

/-- An account that keeps its name and its hash stays readable. -/
theorem readable_user {r a : Row User} {u : User} (ho : r.odd = []) (h : reread r = .ok a)
    (hname : u.username = r.data.username) (hhash : u.passwordHash = r.data.passwordHash) :
    ∃ b, reread (⟨r.id, u, []⟩ : Row User) = .ok b := by
  obtain ⟨n, k, hn, hk, -⟩ := (reread_user ho).1 h
  exact ⟨_, (reread_user rfl).2 ⟨n, k, hname.symm ▸ hn, hhash.symm ▸ hk, rfl⟩⟩

/-- Named rows that can get any name and flag, and stay readable if the name passed its check. -/
class Legible (ρ : Type) [NamedRecord ρ] extends Revisable ρ where
  rowName_named (name : String) (a : ρ) : Named.rowName (Revisable.named name a) = name
  rowName_marked (archived : Bool) (a : ρ) :
    Named.rowName (Revisable.marked archived a) = Named.rowName a
  known (v : Value) : missingColumn? ρ .full [("name", v)] = none ∧
    missingColumn? ρ .full [("archived", v)] = none
  assign_name (name : String) {r : Row ρ} (ho : r.odd = []) :
    Ledger.assigned Relation.columns [("name", .text name)] r
      = .ok ⟨r.id, Revisable.named name r.data, []⟩
  assign_archived (archived : Bool) {r : Row ρ} (ho : r.odd = []) :
    Ledger.assigned Relation.columns [("archived", Cell.ofBool archived)] r
      = .ok ⟨r.id, Revisable.marked archived r.data, []⟩
  readable_named {r a : Row ρ} {name : String} (ho : r.odd = [])
    (h : Persistent.decode .full r = .ok a) (hname : Part.name (.text name) = .ok name) :
    ∃ b, Persistent.decode .full (⟨r.id, Revisable.named name r.data, []⟩ : Row ρ) = .ok b
  readable_marked {r a : Row ρ} (ho : r.odd = []) (h : Persistent.decode .full r = .ok a)
    (archived : Bool) :
    ∃ b, Persistent.decode .full (⟨r.id, Revisable.marked archived r.data, []⟩ : Row ρ) = .ok b

instance : Legible Currency where
  rowName_named _ _ := rfl
  rowName_marked _ _ := rfl
  known _ := ⟨rfl, rfl⟩
  assign_name name {r} ho := by
    rw [assigned_single rfl]
    show Except.ok (r.put "name" { r.data with name }) = _
    simp [Row.put, Row.oddBut, ho, Revisable.named]
  assign_archived archived {r} ho := by
    rw [assigned_single rfl]
    cases archived <;>
      exact congrArg Except.ok (by simp [Row.put, Row.oddBut, ho, Revisable.marked, Column.flag])
  readable_named ho h hname := by
    obtain ⟨n, -, hfinite, hpos, -⟩ := (reread_currency ho).1 h
    exact ⟨_, (reread_currency rfl).2 ⟨_, hname, hfinite, hpos, rfl⟩⟩
  readable_marked ho h archived := by
    obtain ⟨n, hn, hfinite, hpos, -⟩ := (reread_currency ho).1 h
    exact ⟨_, (reread_currency rfl).2 ⟨n, hn, hfinite, hpos, rfl⟩⟩

instance : Legible Category where
  rowName_named _ _ := rfl
  rowName_marked _ _ := rfl
  known _ := ⟨rfl, rfl⟩
  assign_name name {r} ho := by
    rw [assigned_single rfl]
    show Except.ok (r.put "name" { r.data with name }) = _
    simp [Row.put, Row.oddBut, ho, Revisable.named]
  assign_archived archived {r} ho := by
    rw [assigned_single rfl]
    cases archived <;>
      exact congrArg Except.ok (by simp [Row.put, Row.oddBut, ho, Revisable.marked, Column.flag])
  readable_named _ _ hname := ⟨_, (reread_category rfl).2 ⟨_, hname, rfl⟩⟩
  readable_marked ho h archived := by
    obtain ⟨n, hn, -⟩ := (reread_category ho).1 h
    exact ⟨_, (reread_category rfl).2 ⟨n, hn, rfl⟩⟩

instance : Legible Source where
  rowName_named _ _ := rfl
  rowName_marked _ _ := rfl
  known _ := ⟨rfl, rfl⟩
  assign_name name {r} ho := by
    rw [assigned_single rfl]
    show Except.ok (r.put "name" { r.data with name }) = _
    simp [Row.put, Row.oddBut, ho, Revisable.named]
  assign_archived archived {r} ho := by
    rw [assigned_single rfl]
    cases archived <;>
      exact congrArg Except.ok (by simp [Row.put, Row.oddBut, ho, Revisable.marked, Column.flag])
  readable_named ho h hname := by
    obtain ⟨n, -, hfinite, -⟩ := (reread_source ho).1 h
    exact ⟨_, (reread_source rfl).2 ⟨_, hname, hfinite, rfl⟩⟩
  readable_marked ho h archived := by
    obtain ⟨n, hn, hfinite, -⟩ := (reread_source ho).1 h
    exact ⟨_, (reread_source rfl).2 ⟨n, hn, hfinite, rfl⟩⟩

/-- Entries of an intact ledger can be read. -/
theorem Filed.readable {l : Ledger} {e : Row StoredEntry} (h : Filed l e) :
    ∃ a, StoredEntry.toEntry .full e = .ok a := by
  obtain ⟨shifts, hs⟩ := h.effects
  cases ha : StoredEntry.toEntry .full e with
  | ok a => exact ⟨a, rfl⟩
  | error f =>
    rw [Ledger.effects, ha] at hs
    cases hs

end Store

end Bookkeeping
