import AvroSchema.Config
import AvroSchema.Digest.Sha256
import AvroSchema.Governance
import AvroSchema.Technical
import AvroSchema.Wire.Reader
import AvroSchema.Wire.Writer

/-!
# Schema Trees

The three roles of a schema. A root schema is a bare record. A value schema describes the rows of a
data set: it has the technical fields before its own ones, and governance metadata. A key schema is
derived from a value schema: it holds the fields of the primary key, all mandatory, or a synthetic
field if there is no primary key.

Every schema has a document, and the digest of its compact text is the fingerprint of the schema.
-/

namespace AvroSchema

/-- What plays the role of a schema. -/
class SchemaTree (σ : Type) where
  /-- The record of a schema. -/
  record : σ → Record
  /-- The wire document of a schema. -/
  document : σ → Json

namespace SchemaTree

variable {σ : Type} [SchemaTree σ]

/-- The compact text of the document. -/
def text (s : σ) : String := (document s).compact

/-- The indented text of the document. -/
def prettyText (s : σ) : String := (document s).pretty

/-- The SHA-256 digest of the compact text. -/
def fingerprint (s : σ) : String := Sha256.ofText (text s)

end SchemaTree

/-- A bare record. -/
structure RootSchema where
  record : Record

/-- A record with technical fields and governance metadata. -/
structure ValueSchema where
  record : Record
  governance : Governance := {}

/-- The key of a value schema. -/
structure KeySchema where
  record : Record
  /-- Whether the key is a field of its own, for want of a primary key. -/
  synthetic : Bool

namespace RootSchema

instance : SchemaTree RootSchema where
  record s := s.record
  document s := s.record.wire

instance : BEq RootSchema := ⟨fun s t => s.record == t.record⟩

/-- A schema without fields. -/
def empty (name : String) : RootSchema := ⟨{ name }⟩

/-- A schema without fields, in the default namespace. -/
def emptyWith (name : String) (config : Config) : RootSchema :=
  ⟨{ name, space := config.defaultNamespace }⟩

/-- The schema in another namespace. -/
def withNamespace (s : RootSchema) (space : String) : RootSchema :=
  ⟨{ s.record with space := some space }⟩

/-- The schema with another description. -/
def withDoc (s : RootSchema) (doc : String) : RootSchema := ⟨{ s.record with doc := some doc }⟩

/-- The schema with a further field. -/
def addField (s : RootSchema) (f : Field) : Except SchemaError RootSchema := do
  return ⟨← s.record.addField f⟩

/-- The schema that a document describes. -/
def ofWire (document : Json) : Except SchemaError RootSchema := do
  return ⟨← Record.ofWire Config.defaults.maxNestingDepth document⟩

/-- The schema that the text of a document describes. -/
def ofJson (text : String) : Except SchemaError RootSchema :=
  match Json.parse text with
  | .ok document => ofWire document
  | .error fault => .error (.json (.text text fault))

end RootSchema

namespace ValueSchema

instance : SchemaTree ValueSchema where
  record s := s.record
  document s :=
    .object (s.governance.members.foldl (fun members e => Json.Members.insert e.1 e.2 members)
      s.record.wireMembers)

instance : BEq ValueSchema := ⟨fun s t => s.record == t.record && s.governance == t.governance⟩

/-- A schema with only the technical fields. -/
def empty (name : String) : ValueSchema := { record := { name, fields := Technical.fields } }

/-- A schema with only the technical fields, in the default namespace. -/
def emptyWith (name : String) (config : Config) : ValueSchema :=
  { record := { name, space := config.defaultNamespace, fields := Technical.fields } }

/-- The schema in another namespace. -/
def withNamespace (s : ValueSchema) (space : String) : ValueSchema :=
  { s with record := { s.record with space := some space } }

/-- The schema with another description. -/
def withDoc (s : ValueSchema) (doc : String) : ValueSchema :=
  { s with record := { s.record with doc := some doc } }

/-- The schema with a further field. -/
def addField (s : ValueSchema) (f : Field) : Except SchemaError ValueSchema := do
  return { s with record := ← s.record.addField f }

/-- The schema with changed governance metadata. -/
def govern (s : ValueSchema) (change : Governance → Governance) : ValueSchema :=
  { s with governance := change s.governance }

/-- The fields that are not technical. -/
def payload (s : ValueSchema) : List Field :=
  s.record.fields.filter fun f => !Technical.names.contains f.name

/-- The fields that the primary keys name, in their order. -/
def primaryKeyFields (s : ValueSchema) : Except SchemaError (List Field) :=
  s.governance.primaryKeys.mapM fun name =>
    match s.record.field? name with
    | some f => .ok f
    | none => .error (.unknownField s.record.name name)

/-- Checks that there is a primary key and that every one names a field. -/
def checkPrimaryKeys (s : ValueSchema) : Except SchemaError Unit :=
  if s.governance.primaryKeys.isEmpty then .error (.missingPrimaryKey s.record.name)
  else do
    let _ ← s.primaryKeyFields

/-- The schema that a document describes. Its fields are taken as they are, and its metadata are
read after its record. -/
def ofWire (limit : Nat) (document : Json) : Except SchemaError ValueSchema :=
  match document with
  | .object members => do
    -- the technical fields are among those of the record, and are not added again
    let record ← Record.ofMembers limit members
    match Governance.ofMembers members with
    | .ok governance => return { record, governance }
    | .error misfit => throw (.json (.member misfit))
  | _ => .error (.unrecognized .recordNotObject)

/-- The schema that the text of a document describes. -/
def ofJson (text : String) : Except SchemaError ValueSchema :=
  match Json.parse text with
  | .ok document => ofWire Config.defaults.maxNestingDepth document
  | .error fault => .error (.json (.text text fault))

end ValueSchema

namespace KeySchema

instance : SchemaTree KeySchema where
  record s := s.record
  document s := s.record.wire

instance : BEq KeySchema := ⟨fun s t => s.record == t.record && s.synthetic == t.synthetic⟩

/-- The key of a value schema: the fields of its primary keys, made mandatory, or a synthetic field
if it has none. Name, namespace and description follow the value schema. -/
def derive (config : Config) (value : ValueSchema) : Except SchemaError KeySchema := do
  let empty : Record :=
    { value.record with name := value.record.name ++ config.keySuffix, fields := [] }
  if value.governance.primaryKeys.isEmpty then
    -- the time of the change stands in for a key
    return { record := ← empty.addField Technical.keyTime, synthetic := true }
  else
    let fields ← value.primaryKeyFields
    return { record := ← empty.addFields (fields.map Field.notNull), synthetic := false }

/-- The record of the key as a schema of its own. -/
def toRoot (s : KeySchema) : RootSchema := ⟨s.record⟩

end KeySchema

end AvroSchema
