import AvroSchema.Wire.Definitions

/-!
# Writing Wire Documents

A wire document is an Avro schema as a JSON value, with further keys for what Avro cannot say.
The first occurrence of a named type defines it; a later equal occurrence is written as its full
name, and a different type under a name that is taken is written out again. A record counts as
defined before its fields are written.

Writing goes through the types with the table of definitions; the namespace of the innermost
enclosing record that has one is an argument. The members of every object are listed in the order
of their keys.
-/

namespace AvroSchema

namespace Primitive

/-- The node of a type other than `AnyPrimitive`, written out. -/
def node (p : Primitive) : Json :=
  let avro := (p.kind.tag?.map (·.avro)).getD ""
  let logical := (p.kind.tag?.map (·.logical)).getD ""
  match p with
  | .varchar length | .nvarchar length =>
    .object [("length", .int length), ("logicalType", .string logical), ("type", .string avro)]
  | .decimal precision scale =>
    .object [("logicalType", .string logical), ("precision", .int precision),
      ("scale", .int scale), ("type", .string avro)]
  | .fixed size name =>
    .object [("__originalname", .string name), ("logicalType", .string logical),
      ("name", .string (Name.escape name)), ("size", .int size), ("type", .string avro)]
  | .enum name symbols =>
    .object [("__originalname", .string name), ("logicalType", .string logical),
      ("name", .string (Name.escape name)), ("symbols", .array (symbols.map .string)),
      ("type", .string avro)]
  | .plain .uuid _ =>
    .object [("logicalType", .string logical), ("name", .string "uuid"), ("size", .int 16),
      ("type", .string avro)]
  | .plain _ _ => .object [("logicalType", .string logical), ("type", .string avro)]

/-- A type written out; `AnyPrimitive` is the list of its members. -/
def wire : Primitive → Json
  | .plain .anyPrimitive _ => .array (anyPrimitiveMembers.map node)
  | p => p.node

/-- Writes a type in a namespace: by reference if an equal type has its full name. -/
def write (space : Option String) (p : Primitive) (table : Definitions) : Json × Definitions :=
  match p.wireName? with
  | none => (p.wire, table)
  | some name =>
    let full := fullName space name
    if table.standsFor full (.primitive p) then (.string full, table)
    else (p.wire, table.define full (.primitive p))

end Primitive

/-- The type of a nullable field: a list with a leading null branch, which takes up the branches
of a type that is a list already. -/
def nullableNode : Json → Json
  | .array branches => .array (.string "null" :: branches)
  | node => .array [.string "null", node]

/-- The node of a field, from the node of its type. -/
def Field.node (f : Field) (type : Json) : Json :=
  -- null is the only default value that the first branch of a nullable type admits
  let default := if f.nullable then some .null else f.defaultValue
  .object ([("__internal", .bool f.internal),
      ("__originalname", .string f.name),
      ("__sensitivity", .string f.sensitivity.name),
      ("__source_data_type", .ofString? f.sourceType),
      ("__technical", .bool f.technical)] ++
    (default.map (Prod.mk "default")).toList ++
    (f.doc.map fun doc => ("doc", .string doc)).toList ++
    [("name", .string f.wireName),
      ("type", if f.nullable then nullableNode type else type)])

/-- The members of the node of a record, from the nodes of its fields. -/
def Record.members (r : Record) (fields : List Json) : Json.Members :=
  [("__originalname", .string r.name),
    ("doc", .ofString? r.doc),
    ("fields", .array fields),
    ("name", .string (Name.escape r.name)),
    ("namespace", .ofString? r.space),
    ("type", .string "record")]

/-- The full name of a record inside a namespace; its own namespace goes before. -/
def Record.fullName (space : Option String) (r : Record) : String :=
  AvroSchema.fullName (r.space <|> space) (Name.escape r.name)

mutual

/-- Writes a type in a namespace. -/
def DataType.write (space : Option String) :
    DataType → Definitions → Json × Definitions
  | .primitive p, table => p.write space table
  | .union members, table =>
    let (branches, table) := UnionMember.writeAll space members table
    (.array branches, table)
  | .array items, table =>
    let (node, table) := items.write space table
    (.object [("items", node), ("type", .string "array")], table)
  | .map values, table =>
    let (node, table) := values.write space table
    (.object [("logicalType", .string "MAP"), ("type", .string "map"), ("values", node)], table)
  | .record r, table =>
    let full := r.fullName space
    if table.standsFor full (.record r) then (.string full, table)
    else
      -- if the name is taken, the table stays as it is
      let (members, table) := r.write space (table.define full (.record r))
      (.object members, table)

/-- Writes the members of a union; no tag is written. -/
def UnionMember.writeAll (space : Option String) :
    List UnionMember → Definitions → List Json × Definitions
  | [], table => ([], table)
  | ⟨_, type⟩ :: rest, table =>
    let (node, table) := type.write space table
    let (nodes, table) := UnionMember.writeAll space rest table
    (node :: nodes, table)

/-- Writes a field. -/
def Field.write (space : Option String) : Field → Definitions → Json × Definitions
  | f@⟨_, type, _, _, _, _, _, _, _⟩, table =>
    let (node, table) := type.write space table
    (f.node node, table)

/-- Writes the fields of a record. -/
def Field.writeAll (space : Option String) :
    List Field → Definitions → List Json × Definitions
  | [], table => ([], table)
  | f :: rest, table =>
    let (node, table) := f.write space table
    let (nodes, table) := Field.writeAll space rest table
    (node :: nodes, table)

/-- Writes the definition of a record, inside whose fields its own namespace holds. -/
def Record.write (space : Option String) : Record → Definitions → Json.Members × Definitions
  | r@⟨_, own, _, fields⟩, table =>
    let (nodes, table) := Field.writeAll (own <|> space) fields table
    (r.members nodes, table)

end

/-- The document of a type. -/
def DataType.wire (type : DataType) : Json := (type.write none []).1

/-- The document of a field. -/
def Field.wire (f : Field) : Json := (f.write none []).1

/-- The members of the document of a record, which is the first definition in it. -/
def Record.wireMembers (r : Record) : Json.Members :=
  (r.write none (Definitions.define [] (r.fullName none) (.record r))).1

/-- The document of a record. -/
def Record.wire (r : Record) : Json := .object r.wireMembers

end AvroSchema
