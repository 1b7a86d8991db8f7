import Bookkeeping.Service.Operation

/-! # Currencies, categories and sources

The three kinds of named rows of a user live through the same operations: they are made under a name
that is new to the user, renamed, archived and restored, and removed once nothing refers to them.
-/

namespace Bookkeeping.Service

open Store

/-- A kind of named row that users keep. -/
class Catalog (ρ : Type) extends NamedRecord ρ where
  /-- The name of the kind, as messages use it. -/
  entity : String
  /-- The same at the start of a sentence. -/
  entityTitle : String
  /-- The part that logs operations on the kind. -/
  part : Log.Part
  /-- How many rows of other tables refer to a row. -/
  usage : Value → Op (List (String × Nat))
  /-- What is done before a row is removed. -/
  beforeDelete : Value → Op Unit := fun _ => pure ()

/-- Users who report in a currency that goes away report in none. -/
def releaseCurrency (id : Value) : Op Unit := do
  let cleared ← clearFixedCurrency id
  if cleared != 0 then
    emit .info .currencies "Fixed currency cleared" [("currency_id", id), ("users", .int cleared)]

instance : Catalog Currency where
  entity := "currency"
  entityTitle := "Currency"
  part := .currencies
  usage := currencyReferences
  beforeDelete := releaseCurrency

instance : Catalog Category where
  entity := "category"
  entityTitle := "Category"
  part := .categories
  usage := categoryReferences

instance : Catalog Source where
  entity := "source"
  entityTitle := "Source"
  part := .sources
  usage := sourceReferences

section

variable (ρ : Type) [Catalog ρ]

/-- The field that holds the id of a row of the kind. -/
def idField : String := Catalog.entity ρ ++ "_id"

/-- The row of a user. -/
def fetch (user id : Value) : Op (Row ρ) := loadOwned ρ user id (idField ρ)

/-- Rejects a name that another row of the user has. -/
def ensureUnique (user : Value) (name : String) (except : Value := .null) : Op Unit := do
  match ← findByName ρ user (.text name) with
  | none => pure ()
  | some r =>
    if (Value.int r.id).same except then pure ()
    else Op.reject (.nameTaken (Catalog.entity ρ) name user)

/-- Makes a row under a name that is new to the user. -/
def create (user : Value) (name : String) (record : Op ρ) (check : Op Unit := pure ()) :
    Op (Row ρ) :=
  transaction do
    let _ ← requireUser user
    check
    ensureUnique ρ user name
    Store.insert ρ (← record)

/-- Gives a row of a user another name. -/
def rename (user id name : Value) : Op (Option (Row ρ)) :=
  logged ("rename_" ++ Catalog.entity ρ) do
    let name ← Op.lift (Check.name "name" name)
    let row ← transaction do
      let _ ← fetch ρ user id
      ensureUnique ρ user name id
      let _ ← update ρ id [("name", .text name)]
      find ρ id
    emit .info (Catalog.part ρ) (Catalog.entityTitle ρ ++ " renamed")
      [("user_id", user), (idField ρ, id), ("name", .text name)]
    pure row

/-- Archives or restores a row of a user. -/
def mark (archived : Bool) (user id : Value) : Op (Option (Row ρ)) :=
  transaction do
    let r ← fetch ρ user id
    if OwnedRecord.isArchived ρ r.data != archived then
      let _ ← setArchived ρ id (.bool archived)
      emit .info .operations
        (Catalog.entityTitle ρ ++ (if archived then " archived" else " restored"))
        [("user_id", user), ("entity_id", id)]
    find ρ id

/-- Archives a row of a user. -/
def archive (user id : Value) : Op (Option (Row ρ)) :=
  logged ("archive_" ++ Catalog.entity ρ) (mark ρ true user id)

/-- Restores an archived row of a user. -/
def restore (user id : Value) : Op (Option (Row ρ)) :=
  logged ("restore_" ++ Catalog.entity ρ) (mark ρ false user id)

/-- Removes a row of a user that nothing refers to. -/
def remove (user id : Value) : Op Unit :=
  logged ("delete_" ++ Catalog.entity ρ) <| transaction do
    let _ ← fetch ρ user id
    let counts ← Catalog.usage ρ id
    if counts.any fun (_, n) => n != 0 then
      Op.reject (.stillReferenced (Catalog.entity ρ) id counts)
    Catalog.beforeDelete ρ id
    let _ ← delete ρ id
    emit .info .operations (Catalog.entityTitle ρ ++ " deleted")
      [("user_id", user), ("entity_id", id)]

end

/-! ## Making and changing rows -/

/-- Makes a currency. -/
def createCurrency (user name rate : Value) : Op (Row Currency) :=
  logged "create_currency" do
    let name ← Op.lift (Check.name "name" name)
    let rate ← Op.lift (Check.rate "rate_to_fixed" rate)
    let row ← create Currency user name
      (recordOf Currency [("user_id", user), ("name", .text name), ("rate_to_fixed", .float rate)])
    emit .info .currencies "Currency created"
      [("user_id", user), ("currency_id", .int row.id), ("name", .text name)]
    pure row

/-- Makes a category. -/
def createCategory (user name : Value) : Op (Row Category) :=
  logged "create_category" do
    let name ← Op.lift (Check.name "name" name)
    let row ← create Category user name
      (recordOf Category [("user_id", user), ("name", .text name)])
    emit .info .categories "Category created"
      [("user_id", user), ("category_id", .int row.id), ("name", .text name)]
    pure row

/-- Makes a source in one of the user's active currencies, with an opening balance. -/
def createSource (user name currency : Value) (amount : Value := .float 0) : Op (Row Source) :=
  logged "create_source" do
    let name ← Op.lift (Check.name "name" name)
    let amount ← Op.lift (Check.amount "amount" false amount)
    let row ← create Source user name
      (recordOf Source [("user_id", user), ("name", .text name), ("currency_id", currency),
        ("amount", .float amount)])
      (do let _ ← loadOwned Currency user currency "currency_id" true)
    emit .info .sources "Source created"
      [("user_id", user), ("source_id", .int row.id), ("currency_id", currency),
        ("amount", .float amount)]
    pure row

/-- Gives a currency another name, another rate or both. Entries keep the rate they were made
with. -/
def updateCurrency (user id : Value) (name rate : Value := .null) : Op (Option (Row Currency)) :=
  logged "update_currency" do
    let name ← if name.isNull then pure none
      else some <$> Op.lift (Check.name "name" name)
    let rate ← if rate.isNull then pure none
      else some <$> Op.lift (Check.rate "rate_to_fixed" rate)
    let changes : List (String × Value) :=
      (name.map fun s => ("name", Value.text s)).toList
        ++ (rate.map fun x => ("rate_to_fixed", Value.float x)).toList
    let row ← transaction do
      let _ ← fetch Currency user id
      if let some s := name then ensureUnique Currency user s id
      let _ ← update Currency id changes
      find Currency id
    if !changes.isEmpty then
      emit .info .currencies "Currency updated"
        ([("user_id", user), ("currency_id", id)] ++ changes)
    pure row

end Bookkeeping.Service
