import AvroSchema.Json.Shape

/-!
# Row Changes

How a row changed in its source system. Each change has a one-letter code, which consumers of the
rows rely on.
-/

namespace AvroSchema

/-- How a row changed. -/
inductive RowChange where
  /-- A new row. -/
  | insert
  /-- A changed row. -/
  | update
  /-- The row as it was before an update. -/
  | before
  /-- A deleted row with all its values. -/
  | delete
  /-- A row to insert or to overwrite. -/
  | upsert
  /-- A deleted row of which only the primary key is known. -/
  | exterminate
  /-- All rows that match some values are deleted. -/
  | truncate
  /-- A row that is inserted again after a truncation. -/
  | replace
  /-- A row that was deleted in the source and is kept in the target. -/
  | archive
deriving DecidableEq, Repr

namespace RowChange

/-- All changes. -/
def all : List RowChange :=
  [.insert, .update, .before, .delete, .upsert, .exterminate, .truncate, .replace, .archive]

/-- The code of a change. -/
def code : RowChange → Char
  | .insert => 'I'
  | .update => 'U'
  | .before => 'B'
  | .delete => 'D'
  | .upsert => 'A'
  | .exterminate => 'X'
  | .truncate => 'T'
  | .replace => 'R'
  | .archive => 'P'

/-- The change with a code. -/
def ofCode? (code : Char) : Option RowChange := all.find? (·.code == code)

/-- A change in words. -/
def description : RowChange → String
  | .insert => "insert"
  | .update => "update"
  | .before => "before image of an update"
  | .delete => "delete with full payload"
  | .upsert => "upsert"
  | .exterminate => "delete by primary key"
  | .truncate => "bulk delete by non-key predicate"
  | .replace => "truncate and reinsert"
  | .archive => "archive"

/-- Whether the truncation map of the row says which rows are deleted. -/
def usesTruncateMap (c : RowChange) : Bool := c == .truncate

/-- A stored change. -/
def toJson (c : RowChange) : Json := .string c.code.toString

/-- Reads a stored change. -/
def ofJson? (j : Json) : Option RowChange :=
  j.variant?.bind fun name => all.find? (·.code.toString == name)

end RowChange

end AvroSchema
