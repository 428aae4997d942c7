import AvroSchema.Record

/-!
# Technical Fields

The fields that every value schema has before its own ones: audit information, how and when a row
changed, where it came from, and an extension point. Beside them stands the key field of value
schemas without a primary key.
-/

namespace AvroSchema.Technical

/-- A field that is outside the payload and set by the pipeline. -/
def systemField (name : String) (type : DataType) (doc : String) : Field :=
  { name, type, doc := some doc, internal := true, technical := true }

/-- The details of one transformation. -/
def auditDetails : Record where
  name := "__audit_details"
  fields := [
    { name := "__transformationname"
      type := .primitive (.nvarchar 1024)
      doc := some "A name identifying the applied transformation" },
    { name := "__transformresult"
      type := .primitive (.varchar 4)
      doc := some "Is the record PASS, FAIL or WARN?" },
    { name := "__transformresult_text"
      type := .primitive (.nvarchar 1024)
      doc := some "Transforms can optionally describe what they did" },
    { name := "__transformresult_quality"
      type := .plain .byte
      doc := some
        "Transforms can optionally return a percent value from 0 (FAIL) to 100 (PASS)" }]

/-- The outcome of all transformations. -/
def audit : Record where
  name := "__audit"
  fields := [
    { name := "__transformresult"
      type := .primitive (.varchar 4)
      doc := some "Is the record PASS, FAIL or WARN?" },
    { name := "__details"
      type := .array (.record auditDetails)
      doc := some "Details of all transformations" }]

/-- A value outside the logical data model, under a path. -/
def extension : Record where
  name := "__extension"
  doc := some "Extension point to add custom values to each record"
  fields := [
    { name := "__path"
      type := .plain .string
      nullable := false
      doc := some "An unique identifier, e.g. \"street\".\"house number component\"" },
    { name := "__value"
      type := .plain .string
      nullable := false
      doc := some "The value of any primitive datatype of Avro" }]

/-- The technical fields, in order. -/
def fields : List Field := [
  { name := "__audit", type := .record audit },
  systemField "__change_type" (.primitive (.varchar 1))
    "Indicates how the row is to be processed: Insert, Update, Delete, upsert/Autocorrect, eXterminate, Truncate,...",
  systemField "__change_time" (.plain .timestampMillis)
    "Timestamp of the transaction. All rows of the transaction have the same value.",
  systemField "__source_rowid" (.primitive (.varchar 30))
    "Optional unique and static pointer to the row, e.g. Oracle rowid",
  systemField "__source_transaction" (.primitive (.varchar 30))
    "Optional source transaction information for auditing",
  systemField "__source_system" (.primitive (.varchar 30))
    "Optional source system information for auditing",
  { name := "__truncate"
    type := .map (.plain .string)
    doc := some
      "In case of a change type of TRUNCATE, this map contains the fields to identify the set of rows to be deleted" },
  { name := "__extension"
    type := .record extension
    doc := some "Add more columns beyond the official logical data model"
    internal := true }]

/-- The names of the technical fields. -/
def names : List String := fields.map (·.name)

/-- The key field of a value schema without a primary key. -/
def keyTime : Field :=
  { systemField "__key_time" (.plain .timestampMicros)
      "Synthetic key, the value schema declares no primary key" with nullable := false }

end AvroSchema.Technical
