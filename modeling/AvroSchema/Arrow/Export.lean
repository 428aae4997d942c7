import AvroSchema.Arrow.Column
import AvroSchema.Record

/-!
# Export to Arrow

The columns of a record. Every type has one column type, whatever surrounds it; a UUID is
sixteen bytes of binary data, and the column that holds it carries the name of the extension type.
Items of lists, values of maps and branches of unions are always nullable.

The export fails where a number does not fit its machine word. Branch numbers are signed bytes that
count up from zero, so a union has at most 128 branches.
-/

namespace AvroSchema

/-- Why an export fails. -/
inductive ExportError where
  /-- A fixed size does not fit 32 bits. -/
  | sizeTooLarge (size : Nat)
  /-- A precision or a scale does not fit a byte. -/
  | digitsTooMany (precision scale : Nat)
  /-- Some branch numbers are negative or repeated. -/
  | branchNumbers (numbers : List Int8)
deriving DecidableEq, Repr

namespace Arrow

/-- The time zone of all exported timestamps. -/
def zone : String := "UTC"

/-- The note on columns that hold UUIDs. -/
def uuidNote : List (String × String) := [("ARROW:extension:name", "arrow.uuid")]

/-- The narrowest decimal column for a precision. -/
def decimalWidth (precision : Nat) : DecimalWidth :=
  if precision ≤ 18 then .bits64 else if precision ≤ 38 then .bits128 else .bits256

/-- A decimal column. -/
def decimal (precision scale : Nat) : Except ExportError ColumnType :=
  -- the precision is an unsigned byte and the scale a signed one
  if precision < 256 ∧ scale < 128 then
    .ok (.decimal (decimalWidth precision) (UInt8.ofNat precision) (Int8.ofNat scale))
  else .error (.digitsTooMany precision scale)

/-- A column of binary data of a fixed size. -/
def fixedSize (size : Nat) : Except ExportError ColumnType :=
  if size < 0x80000000 then .ok (.fixedSizeBinary (Int32.ofNat size))
  else .error (.sizeTooLarge size)

/-- A union of branches, numbered in order. Numbers are signed bytes, and none may be negative or
occur twice. -/
def union (branches : List Column) : Except ExportError ColumnType :=
  let numbered := branches.zipIdx.map fun (branch, i) => (Int8.ofNat i, branch)
  -- with more than 128 branches the numbers wrap around
  let numbers := numbered.map (·.1)
  if numbers.all (0 ≤ ·) ∧ numbers.Nodup then .ok (.denseUnion numbered)
  else .error (.branchNumbers numbers)

/-- The column type of a plain kind other than `AnyPrimitive`. -/
def plainType : Kind → ColumnType
  | .null => .null
  | .boolean => .boolean
  | .byte => .int8
  | .short => .int16
  | .int => .int32
  | .long => .int64
  | .float => .float32
  | .double => .float64
  | .bytes => .largeBinary
  | .date => .date32
  | .timeMillis => .time32 .millisecond
  | .timeMicros => .time64 .microsecond
  | .timestampMillis | .localTimestampMillis => .timestamp .millisecond zone
  | .timestampMicros | .localTimestampMicros => .timestamp .microsecond zone
  | .uuid => .fixedSizeBinary 16
  | _ => .utf8

end Arrow

/-- The column type of a primitive type. -/
def Primitive.columnType : Primitive → Except ExportError Arrow.ColumnType
  | .varchar _ | .nvarchar _ | .enum _ _ => .ok .utf8
  | .decimal precision scale => Arrow.decimal precision scale
  | .fixed size _ => Arrow.fixedSize size
  | .plain .anyPrimitive _ =>
    Arrow.union <| Kind.anyPrimitiveMembers.map fun kind =>
      { name := kind.name, type := Arrow.plainType kind, nullable := true }
  | .plain kind _ => .ok (Arrow.plainType kind)

/-- A column of a type, whose column type is given. -/
def DataType.column (type : DataType) (name : String) (nullable : Bool)
    (columnType : Arrow.ColumnType) : Arrow.Column where
  name
  type := columnType
  nullable
  metadata := match type with
    | .primitive (.plain .uuid _) => Arrow.uuidNote
    | _ => []

mutual

/-- The column type of a type. -/
def DataType.columnType : DataType → Except ExportError Arrow.ColumnType
  | .primitive p => p.columnType
  | .union members => do Arrow.union (← UnionMember.columns members)
  | .array items => do return .list (items.column "item" true (← items.columnType))
  | .map values => do
    -- the entries of a map are pairs of a key and a value
    let key : Arrow.Column := { name := "key", type := .utf8, nullable := false }
    let value := values.column "value" true (← values.columnType)
    return .map { name := "entries", type := .struct [key, value], nullable := false } false
  | .record ⟨_, _, _, fields⟩ => do return .struct (← Field.columns fields)

/-- The columns of the members of a union, each under its tag. -/
def UnionMember.columns : List UnionMember → Except ExportError (List Arrow.Column)
  | [] => .ok []
  | ⟨tag, type⟩ :: rest => do
    let column := type.column tag true (← type.columnType)
    return column :: (← UnionMember.columns rest)

/-- The columns of some fields, each under its logical name. -/
def Field.columns : List Field → Except ExportError (List Arrow.Column)
  | [] => .ok []
  | ⟨name, type, nullable, _, _, _, _, _, _⟩ :: rest => do
    let column := type.column name nullable (← type.columnType)
    return column :: (← Field.columns rest)

end

/-- The column of a field. -/
def Field.column (f : Field) : Except ExportError Arrow.Column := do
  return f.type.column f.name f.nullable (← f.type.columnType)

/-- The columns of a record, one for each field. -/
def Record.columns (r : Record) : Except ExportError (List Arrow.Column) := Field.columns r.fields

end AvroSchema
