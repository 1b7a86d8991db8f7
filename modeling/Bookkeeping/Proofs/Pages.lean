import Bookkeeping.Proofs.Refusals
import Bookkeeping.Proofs.RowOrder

/-! # Pages of a table

The rows of a table can be read in pages: some rows are dropped and a number of the rest is given. A
page is a part of the table in the order of ids, and pages that follow each other make up the whole
table. This is so wherever there is a limit above 0. Without one, or with a limit of 0, all rows are
given whatever the offset.
-/

namespace Bookkeeping.Store

open Op Service

section

variable (ρ : Type) {α : Type} [Persistent ρ α]

/-- Reads pages of a table one after the other, the first one from an offset on, and gives their rows
together. -/
def readPages (size : Nat) : Nat → Nat → Op (List (Row α))
  | _, 0 => pure []
  | offset, pages + 1 => do
    let rows ← findAll ρ (.int size) (.int offset)
    let rest ← readPages size (offset + size) pages
    pure (rows ++ rest)

variable {ρ} {s : Session}

/-! ## Reading rows -/

/-- Rows are read one by one, so two parts of a list are read one after the other. -/
theorem decodeAll_append (layout : Layout) (rows rest : List (Row ρ)) :
    decodeAll layout (rows ++ rest) = (do
      let as ← decodeAll layout rows
      let bs ← decodeAll layout rest
      .ok (as ++ bs)) := by
  induction rows with
  | nil =>
    show decodeAll layout rest = (decodeAll layout rest).bind fun bs => .ok ([] ++ bs)
    cases decodeAll layout rest <;> rfl
  | cons r rows ih =>
    rw [List.cons_append, decodeAll, decodeAll, ih]
    cases Persistent.decode (ρ := ρ) layout r with
    | error e => rfl
    | ok a =>
      cases decodeAll layout rows with
      | error e => rfl
      | ok as => cases decodeAll layout rest <;> rfl

theorem page_ofNat {β : Type} (n k : Nat) (l : List β) : page n k l = (l.drop k).take n := by
  simp [page]

/-! ## One page -/

/-- With a limit above 0 a page is given, as long as the limit and the offset fit into 64 bits. -/
theorem exec_findAll_page (hb : s.breaks = none) (ht : s.database.layout.tables = true) {n : Nat}
    (hn : n ≠ 0) (k : Nat) :
    ∃ u, (findAll ρ (.int n) (.int k)).exec s
        = (if fitsInteger n && fitsInteger k then decodeAll s.database.layout
            (((Relation.table (ρ := ρ) s.database.ledger).rows.drop k).take n)
          else .error (.misuse .overflow), u) ∧ u.Resembles s := by
  have htruthy : (Value.int n).truthy = true := by simpa [Value.truthy] using hn
  rw [findAll, if_pos htruthy, param_of_id_or_overflow (n := n) rfl,
    param_of_id_or_overflow (n := k) rfl]
  refine (exec_selectAll_unbroken ρ hb ht _ _).imp fun u hu =>
    ⟨hu.1.trans (congrArg (·, u) ?_), hu.2⟩
  cases fitsInteger n with
  | false => simp [bind, Except.bind]
  | true => cases fitsInteger k <;> simp [bind, Except.bind, Cell.integer?, page_ofNat]

/-- With no limit that counts all rows are given. -/
theorem exec_findAll_all (hb : s.breaks = none) (ht : s.database.layout.tables = true)
    {limit : Value} (hlimit : limit.truthy = false) (offset : Value) :
    ∃ u, (findAll ρ limit offset).exec s
        = (decodeAll s.database.layout (Relation.table (ρ := ρ) s.database.ledger).rows, u) ∧
      u.Resembles s := by
  rw [findAll, if_neg (by rw [hlimit]; exact Bool.false_ne_true)]
  exact exec_selectAll_unbroken ρ hb ht (.ok ()) fun _ rows => rows

/-! ## Pages that follow each other -/

/-- Pages that follow each other are read as the one part of the table that they make up. -/
theorem answer_readPages {size : Nat} (hsize : size ≠ 0) (hfits : fitsInteger size = true)
    (offset pages : Nat) (hb : s.breaks = none) (ht : s.database.layout.tables = true)
    (hoffsets : ∀ i < pages, fitsInteger ((offset + size * i : Nat) : Int) = true) :
    ((readPages ρ size offset pages).exec s).1 = decodeAll s.database.layout
      (((Relation.table (ρ := ρ) s.database.ledger).rows.drop offset).take (size * pages)) := by
  induction pages generalizing offset s with
  | zero => rw [Nat.mul_zero, List.take_zero]; rfl
  | succ pages ih =>
    obtain ⟨u, hu, hsame⟩ := exec_findAll_page (ρ := ρ) hb ht hsize offset
    have hfirst : fitsInteger (offset : Int) = true := by
      simpa using hoffsets 0 (Nat.succ_pos pages)
    have hrest := ih (s := u) (offset + size) (hsame.breaks hb) (by rw [hsame.database]; exact ht)
      fun i hi => by
        have hnext := hoffsets (i + 1) (Nat.succ_lt_succ hi)
        rwa [Nat.mul_succ, Nat.add_comm (size * i), ← Nat.add_assoc] at hnext
    rw [hsame.database] at hrest
    rw [hfits, hfirst, Bool.and_self, if_pos rfl] at hu
    -- the first page and the pages after it
    rw [Nat.mul_succ, Nat.add_comm (size * pages), List.take_add, List.drop_drop, decodeAll_append,
      readPages, exec_bind, hu, ← hrest]
    cases decodeAll s.database.layout
        (((Relation.table (ρ := ρ) s.database.ledger).rows.drop offset).take size) with
    | error e => rfl
    | ok rows =>
      show ((readPages ρ size (offset + size) pages >>= fun rest => pure (rows ++ rest)).exec u).1 = _
      rw [exec_bind]
      cases hx : (readPages ρ size (offset + size) pages).exec u with
      | mk r v => cases r <;> rfl

/-- A page is a part of the table by ascending ids, for every limit above 0; and pages that follow
each other up to the end give every row once. Without a limit that counts, all rows are given, whatever
the offset. -/
theorem findAll_pages (hb : s.breaks = none) (ht : s.database.layout.tables = true)
    (hasc : (Relation.table (ρ := ρ) s.database.ledger).Ascending) :
    let t := Relation.table (ρ := ρ) s.database.ledger
    (t.byId.Perm t.rows ∧ t.byId.Pairwise fun a b => a.id < b.id) ∧
      (∀ n k : Nat, n ≠ 0 → ((findAll ρ (.int n) (.int k)).exec s).1
        = if fitsInteger n && fitsInteger k then
            decodeAll s.database.layout ((t.byId.drop k).take n)
          else .error (.misuse .overflow)) ∧
      (∀ limit : Value, limit = .null ∨ limit = .int 0 → ∀ offset,
        ((findAll ρ limit offset).exec s).1 = decodeAll s.database.layout t.byId) ∧
      ∀ size pages : Nat, size ≠ 0 → fitsInteger size = true →
        (∀ i < pages, fitsInteger ((size * i : Nat) : Int) = true) →
        t.rows.length ≤ size * pages →
        ((readPages ρ size 0 pages).exec s).1 = decodeAll s.database.layout t.byId := by
  intro t
  have hrows : t.byId = t.rows := hasc.byId_eq
  rw [hrows]
  refine ⟨⟨.refl _, hasc⟩, fun n k hn => ?_, fun limit hlimit offset => ?_,
    fun size pages hsize hfits hoffsets hlength => ?_⟩
  · obtain ⟨u, hu, -⟩ := exec_findAll_page (ρ := ρ) hb ht hn k
    rw [hu]
  · have hfalse : limit.truthy = false := by rcases hlimit with rfl | rfl <;> rfl
    obtain ⟨u, hu, -⟩ := exec_findAll_all (ρ := ρ) hb ht hfalse offset
    rw [hu]
  · rw [answer_readPages hsize hfits 0 pages hb ht (by simpa using hoffsets), List.drop_zero,
      List.take_of_length_le hlength]

end

/-- The names of some categories that were read. -/
def namesRead (answer : Except Failure (List (Row Category))) : List String :=
  (answer.toOption.getD []).map fun c => c.data.name

/-- A session of a user with three categories. -/
def withCategories : Session :=
  newSession.after (registration :: ["Food", "Rent", "Tea"].map fun name =>
    .createCategory (.int 1) (.text name))

/-- Of three categories the second page of one has the second, and two pages of two have all. -/
theorem pages_of_withCategories :
    (Relation.table (ρ := Category) withCategories.database.ledger).Ascending ∧
      namesRead ((findAll Category (.int 1) (.int 1)).exec withCategories).1 = ["Rent"] ∧
      namesRead ((readPages Category 2 0 2).exec withCategories).1 = ["Food", "Rent", "Tea"] := by
  have hb : withCategories.breaks = none := by decide +kernel
  have ht : withCategories.database.layout.tables = true := by decide +kernel
  have hused : withCategories.database.Used := by
    rw [withCategories]
    exact .after (s := newSession) .migrated rfl _
  have hasc : (Relation.table (ρ := Category) withCategories.database.ledger).Ascending :=
    Sequenced.ascending_table hused.ascending
  obtain ⟨-, hpage, -, hpages⟩ := findAll_pages hb ht hasc
  rw [hasc.byId_eq] at hpage hpages
  have hsecond := hpage 1 1 (by decide)
  have hall := hpages 2 2 (by decide) (by decide) (by decide) (by decide +kernel)
  rw [if_pos (by decide)] at hsecond
  refine ⟨hasc, (congrArg namesRead hsecond).trans ?_, (congrArg namesRead hall).trans ?_⟩ <;>
    decide +kernel

/-- With a limit of 0, and with an offset but no limit, all three categories are given. -/
theorem unlimited_withCategories :
    namesRead ((findAll Category (.int 0)).exec withCategories).1 = ["Food", "Rent", "Tea"] ∧
      namesRead ((findAll Category .null (.int 1)).exec withCategories).1
        = ["Food", "Rent", "Tea"] := by
  decide +kernel

end Bookkeeping.Store
