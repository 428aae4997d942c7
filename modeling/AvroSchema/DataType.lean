import AvroSchema.Primitive
import AvroSchema.Sensitivity

/-!
# Data Types, Fields and Records

The types that a field can hold: primitive types, unions, arrays, maps and records, nested in any
way. Nullability belongs to the field and not to its type. Types are compared structurally, with
default values compared as JSON values.
-/

namespace AvroSchema

mutual

/-- A type that a field can hold. -/
inductive DataType where
  | primitive (type : Primitive)
  /-- One of several types; the order of the members counts. -/
  | union (members : List UnionMember)
  /-- A list of items of one type. -/
  | array (items : DataType)
  /-- Values of one type under string keys. -/
  | map (values : DataType)
  | record (record : Record)

/-- A member of a union. -/
structure UnionMember where
  /-- The name of the branch, which is resolved once when the union is built. -/
  tag : String
  /-- The type of the values of the branch. -/
  type : DataType

/-- A named slot of a record. -/
structure Field where
  /-- The logical name, which may be any text. -/
  name : String
  /-- The type of its values. -/
  type : DataType
  /-- Whether the field may be null. -/
  nullable : Bool := true
  /-- A description. -/
  doc : Option String := none
  /-- The default value; it counts only if the field is not nullable. -/
  defaultValue : Option Json := none
  /-- Whether the field is outside the official payload. -/
  internal : Bool := false
  /-- Whether the pipeline sets the field. -/
  technical : Bool := false
  /-- The type of the field in the source system, for information. -/
  sourceType : Option String := none
  /-- How sensitive the content is. -/
  sensitivity : Sensitivity := .internalData

/-- A named list of fields. -/
structure Record where
  /-- The logical name, which may be any text. -/
  name : String
  /-- The namespace that qualifies the names of the record and of the types inside it. -/
  space : Option String := none
  /-- A description. -/
  doc : Option String := none
  /-- The fields, in order. -/
  fields : List Field := []

end

namespace DataType

/-- The type of a plain kind. -/
def plain (kind : Kind) (h : kind.isPlain = true := by rfl) : DataType :=
  .primitive (.plain kind h)

/-- The name of a type, which also tags the member that it makes of a union. -/
def typeName : DataType → String
  | .primitive p => p.name
  | .union _ => "Union"
  | .array _ => "Array"
  | .map _ => "Map"
  | .record r => r.name

/-- Whether a type is a union; `AnyPrimitive` is one. -/
def isUnion : DataType → Bool
  | .union _ | .primitive (.plain .anyPrimitive _) => true
  | _ => false

/-- The record that a type is. -/
def record? : DataType → Option Record
  | .record r => some r
  | _ => none

/-- The members of `AnyPrimitive`. -/
def anyPrimitiveMembers : List DataType := Primitive.anyPrimitiveMembers.map .primitive

/-- Whether some types are exactly the members of `AnyPrimitive`, in their order. -/
def areAnyPrimitive (types : List DataType) : Bool :=
  -- types with parameters are no members, whatever their kind
  let plainKinds := types.map fun
    | .primitive (.plain kind _) => some kind
    | _ => none
  plainKinds == Kind.anyPrimitiveMembers.map some

/-- The member that a type makes of a union. -/
def tagged (type : DataType) : UnionMember where
  tag := type.typeName
  type

/-- The union of at least two types, none of them a union. The members of `AnyPrimitive` are
refused, because that union has a type of its own. -/
def strictUnion (types : List DataType) : Except SchemaError DataType :=
  if types.length < 2 then .error (.invalidParameter .union (.tooFewMembers types.length))
  else if types.any isUnion then .error (.invalidParameter .union .nestedUnion)
  else if areAnyPrimitive types then .error (.invalidParameter .union .anyPrimitiveMembers)
  else .ok (.union (types.map tagged))

/-- The union of some types, which is `AnyPrimitive` for exactly its members. -/
def unionOf (types : List DataType) : Except SchemaError DataType :=
  if areAnyPrimitive types then .ok (plain .anyPrimitive) else strictUnion types

end DataType

mutual

/-- Equality of types. -/
def DataType.beq : DataType → DataType → Bool
  | .primitive p, .primitive q => p == q
  | .union ms, .union ns => UnionMember.beqAll ms ns
  | .array a, .array b => a.beq b
  | .map a, .map b => a.beq b
  | .record r, .record s => r.beq s
  | _, _ => false

/-- Equality of members. -/
def UnionMember.beq : UnionMember → UnionMember → Bool
  | ⟨tag, type⟩, m => tag == m.tag && type.beq m.type

/-- Equality of the members of two unions. -/
def UnionMember.beqAll : List UnionMember → List UnionMember → Bool
  | [], [] => true
  | m :: ms, n :: ns => m.beq n && UnionMember.beqAll ms ns
  | _, _ => false

/-- Equality of fields; default values are compared as JSON values. -/
def Field.beq : Field → Field → Bool
  | ⟨name, type, nullable, doc, defaultValue, internal, technical, sourceType, sensitivity⟩, f =>
    name == f.name && type.beq f.type && nullable == f.nullable && doc == f.doc &&
      defaultValue == f.defaultValue && internal == f.internal && technical == f.technical &&
      sourceType == f.sourceType && sensitivity == f.sensitivity

/-- Equality of the fields of two records. -/
def Field.beqAll : List Field → List Field → Bool
  | [], [] => true
  | f :: fs, g :: gs => f.beq g && Field.beqAll fs gs
  | _, _ => false

/-- Equality of records. -/
def Record.beq : Record → Record → Bool
  | ⟨name, space, doc, fields⟩, r =>
    name == r.name && space == r.space && doc == r.doc && Field.beqAll fields r.fields

end

instance : BEq DataType := ⟨DataType.beq⟩

instance : BEq Field := ⟨Field.beq⟩

instance : BEq Record := ⟨Record.beq⟩

end AvroSchema
