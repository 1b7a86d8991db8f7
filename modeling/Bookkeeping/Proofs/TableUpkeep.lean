import Bookkeeping.Proofs.Layers

/-! # What statements do to tables

Statements do few things to a table: they add a row, put a row in the place of another one, take rows
out, and change rows where they are. Whatever these keep outlives every call of the ledger, whether
references are looked after or not; and it outlives calls on tables if a row may get another id.
-/

namespace Bookkeeping.Store

open Service

/-- A property of ledgers that is kept by what statements do to the rows of one kind, as long as every
row keeps its id. -/
structure Stays (P : Ledger → Prop) (ρ : Type) [Relation ρ] : Prop where
  insert : ∀ l (a : ρ), P l → P (Relation.withTable l ((Relation.table l).insert a))
  replace : ∀ l (old x : Row ρ), P l → old ∈ (Relation.table (ρ := ρ) l).rows → x.id = old.id →
    P (Relation.withTable l ((Relation.table l).replace old.id x))
  erase : ∀ l (p : Row ρ → Bool), P l → P (Relation.withTable l ((Relation.table l).erase p))
  change : ∀ l (p : Row ρ → Bool) f, (∀ r, (f r).id = r.id) → P l →
    P (Relation.withTable l ((Relation.table l).change p f))

/-- The same where a row may get any id that no other row has. -/
structure StaysRenumbered (P : Ledger → Prop) (ρ : Type) [Relation ρ] : Prop extends Stays P ρ where
  renumber : ∀ l (old x : Row ρ), P l → old ∈ (Relation.table (ρ := ρ) l).rows →
    (∀ o ∈ (Relation.table (ρ := ρ) l).rows, o.id ≠ old.id → o.id ≠ x.id) →
    P (Relation.withTable l ((Relation.table l).replace old.id x))

variable {P : Ledger → Prop} {g : Setting}

/-! ## One kind of row -/

section

variable {ρ : Type} [Relation ρ] {l m : Ledger} {enforce : Bool} {n : Nat}

/-- Cells are stored in columns, of which the id is none. -/
theorem id_of_assigned {columns : List (Column ρ)} {cells : List (String × Cell)} {r x : Row ρ}
    (hx : Ledger.assigned columns cells r = .ok x) : x.id = r.id := by
  refine assigned_induct (P := fun y => y.id = r.id) hx rfl fun c _ cell a b _ ha hb => ?_
  obtain ⟨stored, -, hb⟩ := Service.except_bind_ok_iff.1 hb
  cases stored <;> cases hb <;> exact ha

theorem Stays.update (h : Stays P ρ) (hl : P l) {p : Row ρ → Bool} {columns : List (Column ρ)}
    {cells : List (String × Cell)}
    (hu : l.update enforce p (Ledger.assigned columns cells) = .ok (n, m)) : P m := by
  rcases replaced_of_ok hu with rfl | ⟨old, x, hx, hr⟩
  · exact hl
  · rw [hr.ledger]
    exact h.replace l old x hl hr.mem (id_of_assigned hx)

theorem StaysRenumbered.update (h : StaysRenumbered P ρ) (hl : P l) {p : Row ρ → Bool}
    {change : Row ρ → Stored (Row ρ)} (hu : l.update enforce p change = .ok (n, m)) : P m := by
  rcases replaced_of_ok hu with rfl | ⟨old, x, -, hr⟩
  · exact hl
  · rw [hr.ledger]
    exact h.renumber l old x hl hr.mem hr.fresh

theorem StaysRenumbered.renumbers (h : StaysRenumbered P ρ) :
    Renumbers g (fun db => P db.ledger) ρ :=
  fun _ _ _ _ _ _ hl hu => h.update hl hu

/-- What is kept while rows are taken out with all that they own withstands every statement. -/
theorem Stays.withstands (h : Stays P ρ)
    (hremove : ∀ l m (p : Row ρ → Bool), P l → Relation.remove l p = .ok m → P m) {new : ρ → Prop}
    {revises : List (String × Cell) → Prop} :
    Withstands g (fun db => P db.ledger) ρ new revises where
  insert db a k m hl _ hm := by
    show P m
    rw [(inserted_of_ok hm).ledger]
    exact h.insert _ a hl
  update db cells p k m hl _ hm := h.update hl hm
  delete db c k m hl hm := by
    rcases remove_ok hm with hm | rfl
    · exact hremove _ _ _ hl hm
    · exact h.erase _ _ hl

theorem Stays.withstandsOwned {ρ : Type} [Owned ρ] (h : Stays P ρ)
    (hremove : ∀ l m (p : Row ρ → Bool), P l → Relation.remove l p = .ok m → P m) {new : ρ → Prop}
    {revises : List (String × Cell) → Prop} :
    WithstandsOwned g (fun db => P db.ledger) ρ new revises where
  toWithstands := h.withstands hremove
  deleteByUser db c k m hl hm := by
    rcases remove_ok hm with hm | rfl
    · exact hremove _ _ _ hl hm
    · exact h.erase _ _ hl

end

/-! ## All kinds of rows -/

namespace EveryKind

section

variable {l m : Ledger} (h : EveryKind (Stays P))

include h

theorem removeCurrencies {p : Row Currency → Bool} (hl : P l) (hr : l.removeCurrencies p = .ok m) :
    P m := by
  obtain ⟨t, ht, hr⟩ := Service.except_bind_ok_iff.1 hr
  cases hr
  obtain rfl := removeUnused_ok ht
  exact h.users.change _ _ _ (fun _ => rfl) (h.currencies.erase l p hl)

theorem removeUsers {p : Row User → Bool} (hl : P l) (hr : l.removeUsers p = .ok m) : P m := by
  unfold Ledger.removeUsers at hr
  obtain ⟨l₂, h₂, hr₂⟩ := Service.except_bind_ok_iff.1 hr
  obtain ⟨l₃, h₃, hr₃⟩ := Service.except_bind_ok_iff.1 hr₂
  obtain ⟨l₄, h₄, hr₄⟩ := Service.except_bind_ok_iff.1 hr₃
  cases hr₄
  obtain rfl := removeSources_ok h₂
  obtain rfl := removeCategories_ok h₃
  let gone (id : Int) : Bool := l.users.rows.any fun u => p u && u.id == id
  have hentries := h.entries.erase l (fun r => gone r.data.owner) hl
  have hsources := h.sources.erase _ (fun r => gone r.data.owner) hentries
  have hcategories := h.categories.erase _ (fun r => gone r.data.owner) hsources
  exact h.users.erase _ p (h.removeCurrencies hcategories h₄)

/-- What statements keep outlives every way in which a ledger is written to. -/
theorem enduring : Enduring g fun db => P db.ledger where
  users := h.users.withstands fun _ _ _ hl hr => h.removeUsers hl hr
  currencies := h.currencies.withstandsOwned fun _ _ _ hl hr => h.removeCurrencies hl hr
  categories := h.categories.withstandsOwned fun l _ p hl hr =>
    removeCategories_ok hr ▸ h.categories.erase l p hl
  sources := h.sources.withstandsOwned fun l _ p hl hr =>
    removeSources_ok hr ▸ h.sources.erase l p hl
  entries := h.entries.withstandsOwned fun l _ p hl hr => by
    cases hr
    exact h.entries.erase l p hl
  release db p f hf hl := h.users.change _ p f (fun r => by rw [hf]; rfl) hl
  shift db p d hl := h.sources.change _ _ _ (fun _ => rfl) hl

end

variable (h : EveryKind (StaysRenumbered P))

include h

theorem stays : EveryKind (Stays P) :=
  ⟨h.users.toStays, h.currencies.toStays, h.categories.toStays, h.sources.toStays,
    h.entries.toStays⟩

theorem renumbers : EveryKind (Renumbers g fun db => P db.ledger) :=
  ⟨h.users.renumbers, h.currencies.renumbers, h.categories.renumbers, h.sources.renumbers,
    h.entries.renumbers⟩

end EveryKind

end Bookkeeping.Store
