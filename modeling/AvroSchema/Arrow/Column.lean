/-!
# Arrow Columns

The part of the Arrow type system that schemas are exported to. Widths, scales and branch numbers
are machine words of the sizes that Arrow gives them.
-/

namespace AvroSchema.Arrow

/-- The resolution of a time. -/
inductive Resolution where
  | millisecond
  | microsecond
deriving DecidableEq, Repr

/-- The width of a decimal column. -/
inductive DecimalWidth where
  | bits64
  | bits128
  | bits256
deriving DecidableEq, Repr

mutual

/-- The type of a column. -/
inductive ColumnType where
  | null
  | boolean
  | int8
  | int16
  | int32
  | int64
  | float32
  | float64
  | largeBinary
  | utf8
  | date32
  | time32 (resolution : Resolution)
  | time64 (resolution : Resolution)
  | timestamp (resolution : Resolution) (zone : String)
  | decimal (width : DecimalWidth) (precision : UInt8) (scale : Int8)
  | fixedSizeBinary (size : Int32)
  | list (item : Column)
  /-- A map, whose entries are pairs of a key and a value. -/
  | map (entries : Column) (sorted : Bool)
  | struct (fields : List Column)
  /-- A union whose branches are stored densely, each with its number. -/
  | denseUnion (branches : List (Int8 × Column))

/-- A named column. -/
structure Column where
  /-- The name. -/
  name : String
  /-- The type of its values. -/
  type : ColumnType
  /-- Whether values may be null. -/
  nullable : Bool
  /-- Notes for readers of the column. -/
  metadata : List (String × String) := []

end

end AvroSchema.Arrow
