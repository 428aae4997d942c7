/-!
# Kinds of Primitive Types

The closed catalog of primitive types, without their parameters. Several kinds share an Avro type;
the logical type tells them apart. `AnyPrimitive` alone has no tag of its own: it is written as the
union of its members.
-/

namespace AvroSchema

/-- A kind of primitive type. -/
inductive Kind where
  | null
  | boolean
  | byte
  | short
  | int
  | long
  | float
  | double
  | bytes
  | string
  | varchar
  | nvarchar
  | clob
  | nclob
  | uri
  | geometry
  | point
  | date
  | timeMillis
  | timeMicros
  | timestampMillis
  | timestampMicros
  | localTimestampMillis
  | localTimestampMicros
  | decimal
  | fixed
  | enum
  | uuid
  | anyPrimitive
deriving DecidableEq, Repr

/-- How a kind is tagged in a document. -/
structure WireTag where
  /-- The Avro type. -/
  avro : String
  /-- The logical type. -/
  logical : String
deriving DecidableEq, Repr

namespace Kind

/-- All kinds, in catalog order. -/
def all : List Kind :=
  [.null, .boolean, .byte, .short, .int, .long, .float, .double, .bytes, .string, .varchar,
    .nvarchar, .clob, .nclob, .uri, .geometry, .point, .date, .timeMillis, .timeMicros,
    .timestampMillis, .timestampMicros, .localTimestampMillis, .localTimestampMicros, .decimal,
    .fixed, .enum, .uuid, .anyPrimitive]

/-- The name of a kind, which also names the branches of a union. -/
def name : Kind → String
  | .null => "Null"
  | .boolean => "Boolean"
  | .byte => "Byte"
  | .short => "Short"
  | .int => "Int"
  | .long => "Long"
  | .float => "Float"
  | .double => "Double"
  | .bytes => "Bytes"
  | .string => "String"
  | .varchar => "Varchar"
  | .nvarchar => "NVarchar"
  | .clob => "CLOB"
  | .nclob => "NCLOB"
  | .uri => "URI"
  | .geometry => "Geometry"
  | .point => "Point"
  | .date => "Date"
  | .timeMillis => "Time"
  | .timeMicros => "TimeMicros"
  | .timestampMillis => "Timestamp"
  | .timestampMicros => "TimestampMicros"
  | .localTimestampMillis => "LocalTimestamp"
  | .localTimestampMicros => "LocalTimestampMicros"
  | .decimal => "Decimal"
  | .fixed => "Fixed"
  | .enum => "Enum"
  | .uuid => "UUID"
  | .anyPrimitive => "AnyPrimitive"

/-- The tags of a kind; none for `AnyPrimitive`. -/
def tag? : Kind → Option WireTag
  | .null => some ⟨"null", "NULL"⟩
  | .boolean => some ⟨"boolean", "BOOLEAN"⟩
  | .byte => some ⟨"int", "BYTE"⟩
  | .short => some ⟨"int", "SHORT"⟩
  | .int => some ⟨"int", "INT"⟩
  | .long => some ⟨"long", "LONG"⟩
  | .float => some ⟨"float", "FLOAT"⟩
  | .double => some ⟨"double", "DOUBLE"⟩
  | .bytes => some ⟨"bytes", "BYTES"⟩
  | .string => some ⟨"string", "STRING"⟩
  | .varchar => some ⟨"string", "VARCHAR"⟩
  | .nvarchar => some ⟨"string", "NVARCHAR"⟩
  | .clob => some ⟨"string", "CLOB"⟩
  | .nclob => some ⟨"string", "NCLOB"⟩
  | .uri => some ⟨"string", "URI"⟩
  | .geometry => some ⟨"string", "ST_GEOMETRY"⟩
  | .point => some ⟨"string", "ST_POINT"⟩
  | .date => some ⟨"int", "date"⟩
  | .timeMillis => some ⟨"int", "time-millis"⟩
  | .timeMicros => some ⟨"long", "time-micros"⟩
  | .timestampMillis => some ⟨"long", "timestamp-millis"⟩
  | .timestampMicros => some ⟨"long", "timestamp-micros"⟩
  | .localTimestampMillis => some ⟨"long", "local-timestamp-millis"⟩
  | .localTimestampMicros => some ⟨"long", "local-timestamp-micros"⟩
  | .decimal => some ⟨"bytes", "decimal"⟩
  | .fixed => some ⟨"fixed", "FIXED"⟩
  | .enum => some ⟨"enum", "ENUM"⟩
  | .uuid => some ⟨"fixed", "uuid"⟩
  | .anyPrimitive => none

/-- The kind with a logical type. -/
def ofLogical? (logical : String) : Option Kind :=
  all.find? fun k => k.tag?.any (·.logical == logical)

/-- The kind that an Avro type means when no logical type is given. -/
def ofAvro? : String → Option Kind
  | "null" => some .null
  | "boolean" => some .boolean
  | "int" => some .int
  | "long" => some .long
  | "float" => some .float
  | "double" => some .double
  | "bytes" => some .bytes
  | "string" => some .string
  | "enum" => some .enum
  | "fixed" => some .fixed
  | _ => none

/-- The kinds whose types have no parameters. -/
def isPlain : Kind → Bool
  | .varchar | .nvarchar | .decimal | .fixed | .enum => false
  | _ => true

/-- The kinds that are exported as text columns. -/
def isText : Kind → Bool
  | .string | .varchar | .nvarchar | .clob | .nclob | .uri | .geometry | .point | .enum => true
  | _ => false

/-- The members of `AnyPrimitive`, in union order. -/
def anyPrimitiveMembers : List Kind := [.boolean, .bytes, .double, .float, .int, .long, .string]

end Kind

end AvroSchema
