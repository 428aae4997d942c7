import AvroSchema.Json.Shape
import AvroSchema.TextSet

/-!
# Governance Metadata

What a value schema says beside its fields: its primary and foreign keys, who owns the data, how
long it is kept, when it has to be deleted, and how it is classified; and how these are stored as
JSON values.
-/

namespace AvroSchema

/-- The unit of a period. -/
inductive TimeUnit where
  | hours
  | weeks
  | months
  | quarters
  | years
deriving DecidableEq, Repr

namespace TimeUnit

/-- All units. -/
def all : List TimeUnit := [.hours, .weeks, .months, .quarters, .years]

/-- The stored name of a unit. -/
def name : TimeUnit → String
  | .hours => "HOURS"
  | .weeks => "WEEKS"
  | .months => "MONTHS"
  | .quarters => "QUARTERS"
  | .years => "YEARS"

/-- The unit with a name. -/
def ofName? (name : String) : Option TimeUnit := all.find? (·.name == name)

/-- A stored unit. -/
def toJson (u : TimeUnit) : Json := .string u.name

/-- Reads a stored unit. -/
def ofJson? (j : Json) : Option TimeUnit := j.variant?.bind ofName?

end TimeUnit

/-- A stored number of units. -/
def Json.ofUInt32? : Option UInt32 → Json
  | some n => .int n.toNat
  | none => .null

/-- Reads a number of units. -/
def Json.uint32? (j : Json) : Option UInt32 := (j.natBelow? 0x100000000).map UInt32.ofNat

/-- How long data is kept. -/
structure Period where
  /-- The number of units, if there is a bound. -/
  value : Option UInt32
  /-- The unit. -/
  unit : TimeUnit := .years
deriving DecidableEq, Repr

namespace Period

/-- A stored period. -/
def toJson (p : Period) : Json :=
  .object [("unit", p.unit.toJson), ("value", .ofUInt32? p.value)]

/-- Reads a stored period. -/
def ofJson? (j : Json) : Option Period := do
  let members ← j.structure? ["value", "unit"] 1
  let value ← Json.Members.optional? members "value" Json.uint32?
  let unit ← Json.Members.defaulted? members "unit" TimeUnit.ofJson? .years
  return { value, unit }

end Period

/-- When data has to be deleted, and how. -/
structure DeletionPolicy where
  /-- The number of units, if there is a bound. -/
  value : Option UInt32
  /-- The unit. -/
  unit : TimeUnit := .years
  /-- A description. -/
  description : Option String := none
deriving DecidableEq, Repr

namespace DeletionPolicy

/-- A stored deletion policy. -/
def toJson (p : DeletionPolicy) : Json :=
  .object [("description", .ofString? p.description), ("unit", p.unit.toJson),
    ("value", .ofUInt32? p.value)]

/-- Reads a stored deletion policy. -/
def ofJson? (j : Json) : Option DeletionPolicy := do
  let members ← j.structure? ["value", "unit", "description"] 1
  let value ← Json.Members.optional? members "value" Json.uint32?
  let unit ← Json.Members.defaulted? members "unit" TimeUnit.ofJson? .years
  let description ← Json.Members.optional? members "description" Json.string?
  return { value, unit, description }

end DeletionPolicy

/-- One comparison between a field of this schema and a field of another one. -/
structure JoinCondition where
  /-- The field of this schema. -/
  left : String
  /-- The field of the other schema. -/
  right : String
  /-- The comparison operator. -/
  operator : String := "="
deriving DecidableEq, Repr

namespace JoinCondition

/-- A stored join condition. -/
def toJson (c : JoinCondition) : Json :=
  .object [("condition", .string c.operator), ("left_field_name", .string c.left),
    ("right_field_name", .string c.right)]

/-- Reads a stored join condition. -/
def ofJson? (j : Json) : Option JoinCondition := do
  let members ← j.structure? ["left_field_name", "right_field_name", "condition"] 3
  let left ← Json.Members.required? members "left_field_name" Json.string?
  let right ← Json.Members.required? members "right_field_name" Json.string?
  let operator ← Json.Members.required? members "condition" Json.string?
  return { left, right, operator }

end JoinCondition

/-- A relationship to another schema. -/
structure ForeignKey where
  /-- The fully qualified name of the other schema. -/
  schema : String
  /-- The name of the relationship. -/
  name : Option String := none
  /-- The comparisons that join the two schemas. -/
  conditions : List JoinCondition := []
deriving DecidableEq, Repr

namespace ForeignKey

/-- A stored foreign key. -/
def toJson (k : ForeignKey) : Json :=
  .object [("conditions", .array (k.conditions.map JoinCondition.toJson)),
    ("fk_name", .ofString? k.name), ("fk_schema_fqn", .string k.schema)]

/-- Reads a stored foreign key. -/
def ofJson? (j : Json) : Option ForeignKey := do
  let members ← j.structure? ["fk_schema_fqn", "fk_name", "conditions"] 1
  let schema ← Json.Members.required? members "fk_schema_fqn" Json.string?
  let name ← Json.Members.optional? members "fk_name" Json.string?
  let conditions ←
    Json.Members.defaulted? members "conditions" (Json.list? JoinCondition.ofJson?) []
  return { schema, name, conditions }

end ForeignKey

/-- The governance metadata of a value schema. -/
structure Governance where
  /-- The names of the primary key fields, in order. -/
  primaryKeys : List String := []
  /-- Relationships to other schemas. -/
  foreignKeys : List ForeignKey := []
  /-- The mail address of the owner of the data product. -/
  owner : Option String := none
  /-- How long the data is kept. -/
  retention : Option Period := none
  /-- When the data has to be deleted. -/
  deletion : Option DeletionPolicy := none
  /-- Free classifications of the data. -/
  classifications : TextSet := .empty
  /-- Where tickets are filed. -/
  tickets : Option String := none
  /-- Where the sources are kept. -/
  repository : Option String := none
deriving DecidableEq

namespace Governance

/-- The metadata with a primary key at the end, unless it is there already. -/
def addPrimaryKey (g : Governance) (name : String) : Governance :=
  if name ∈ g.primaryKeys then g else { g with primaryKeys := g.primaryKeys ++ [name] }

/-- The metadata without a primary key. -/
def removePrimaryKey (g : Governance) (name : String) : Governance :=
  { g with primaryKeys := g.primaryKeys.filter (· != name) }

/-- The metadata with the given primary keys in place of the old ones. -/
def setPrimaryKeys (g : Governance) (names : List String) : Governance :=
  names.foldl addPrimaryKey { g with primaryKeys := [] }

/-- The metadata with a further classification. -/
def addClassification (g : Governance) (text : String) : Governance :=
  { g with classifications := g.classifications.insert text }

/-- The metadata without a classification. -/
def removeClassification (g : Governance) (text : String) : Governance :=
  { g with classifications := g.classifications.erase text }

/-- The stored members of the metadata. -/
def members (g : Governance) : List (String × Json) :=
  [("pks", .array (g.primaryKeys.map .string)),
    ("fks", .array (g.foreignKeys.map ForeignKey.toJson)),
    ("data_product_owner_email", .ofString? g.owner),
    ("retention_period", (g.retention.map Period.toJson).getD .null),
    ("deletion_policy", (g.deletion.map DeletionPolicy.toJson).getD .null),
    ("data_classifications", .array (g.classifications.toList.map .string)),
    ("tickets_url", .ofString? g.tickets),
    ("repo_url", .ofString? g.repository)]

/-- Reads stored metadata; whatever is absent or null is left out. The first member of another
shape is refused. -/
def ofMembers (members : Json.Members) : Except Json.Misfit Governance := do
  let primaryKeys ← Json.Members.stored members "pks" (Json.list? Json.string?)
  let foreignKeys ← Json.Members.stored members "fks" (Json.list? ForeignKey.ofJson?)
  let owner ← Json.Members.stored members "data_product_owner_email" Json.string?
  let retention ← Json.Members.stored members "retention_period" Period.ofJson?
  let deletion ← Json.Members.stored members "deletion_policy" DeletionPolicy.ofJson?
  let classifications ←
    Json.Members.stored members "data_classifications" (Json.list? Json.string?)
  let tickets ← Json.Members.stored members "tickets_url" Json.string?
  let repository ← Json.Members.stored members "repo_url" Json.string?
  return {
    primaryKeys := primaryKeys.getD []
    foreignKeys := foreignKeys.getD []
    owner
    retention
    deletion
    classifications := TextSet.ofList (classifications.getD [])
    tickets
    repository }

end Governance

end AvroSchema
