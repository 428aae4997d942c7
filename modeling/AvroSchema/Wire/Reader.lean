import AvroSchema.Wire.Definitions

/-!
# Reading Wire Documents

The types, fields and records that wire documents describe. A node is resolved by its logical type
first, then by its Avro type, and then as the name of a type that the document has defined before;
a name is tried in the enclosing namespace first. Fixed types, enumerations, UUID types and records
are defined when they have been read completely.

The nesting limit is the recursion argument: a reader that may go `levels` levels deep is built
from the readers that may go one level less deep (`Inner`), and readers without a level left refuse
everything. The table of definitions is the state of a reading and outlives a refusal.
-/

namespace AvroSchema

/-- A reading: it may fail, and it extends the table of definitions. -/
abbrev Reading := EStateM SchemaError Definitions

namespace Wire

/-- The readers for what lies one level further inside, in a namespace. A type is read together
with its nullability. -/
structure Inner where
  /-- Reads a type node. -/
  node : Option String → Json → Reading (DataType × Bool)
  /-- Reads a list of branches. -/
  branches : Option String → List Json → Reading (DataType × Bool)
  /-- Reads a field. -/
  field : Option String → Json → Reading Field

/-- Fails because a node is no schema. -/
def refuse {α : Type} (fault : NodeFault) : Except SchemaError α := .error (.unrecognized fault)

/-- Takes over a result that needs no table. -/
def lift {α : Type} : Except SchemaError α → Reading α
  | .ok a => pure a
  | .error e => throw e

/-- The text under a key. -/
def text? (members : Json.Members) (key : String) : Option String :=
  (Json.Members.get? members key).bind Json.string?

/-- The flag under a key; anything but a boolean counts as false. -/
def flag (members : Json.Members) (key : String) : Bool :=
  ((Json.Members.get? members key).bind Json.bool?).getD false

/-- The signed 64-bit integer under a key. -/
def integer (members : Json.Members) (key : String) : Except SchemaError Int :=
  match (Json.Members.get? members key).bind Json.int64? with
  | some n => .ok n
  | none => refuse (.integerMissing key)

/-- The logical name of a named node: given as it is, or to be unescaped. -/
def logicalName (members : Json.Members) : Except SchemaError String :=
  match text? members "__originalname" with
  | some name => .ok name
  | none =>
    match text? members "name" with
    | some name => .ok (Name.unescape name)
    | none => refuse .nameMissing

/-- The symbols of an enumeration. -/
def symbols (members : Json.Members) : Except SchemaError (List String) :=
  match (Json.Members.get? members "symbols").bind Json.array? with
  | none => refuse .symbolsMissing
  | some items => items.mapM fun item =>
    match item.string? with
    | some symbol => .ok symbol
    | none => refuse .symbolNotString

/-- The primitive type of a kind, with the parameters that its node gives. -/
def primitive (kind : Kind) (members : Json.Members) : Except SchemaError Primitive :=
  match Primitive.ofKind? kind, kind with
  | some p, _ => .ok p
  | none, .varchar => do Primitive.varcharOf (← integer members "length")
  | none, .nvarchar => do Primitive.nvarcharOf (← integer members "length")
  | none, .decimal => do
    -- a scale that is absent is zero, but one that is no integer is a fault
    let scale ← match Json.Members.get? members "scale" with
      | some _ => integer members "scale"
      | none => pure 0
    Primitive.decimalOf (← integer members "precision") scale
  | none, .enum => do
    let symbols ← symbols members
    Primitive.enumOf (← logicalName members) symbols
  -- only fixed types are left
  | none, _ => do
    let size ← integer members "size"
    Primitive.fixedOf size (← logicalName members)

/-- Defines a type under the escaped name of its node, in its own namespace or else in the
enclosing one. -/
def define (members : Json.Members) (space : Option String) (type : DataType) : Reading Unit :=
  match text? members "name" with
  | some name => modify fun table => Definitions.define table (fullName space name) type
  | none => pure ()

/-- Reads a primitive type and defines it if its kind is named. -/
def readPrimitive (space : Option String) (kind : Kind) (members : Json.Members) :
    Reading DataType := do
  let type := DataType.primitive (← lift (primitive kind members))
  match kind with
  | .fixed | .enum | .uuid => define members space type
  | _ => pure ()
  return type

/-- Reads a map. -/
def readMap (inner : Inner) (space : Option String) (members : Json.Members) :
    Reading DataType :=
  match Json.Members.get? members "values" with
  | none => lift (refuse .valuesMissing)
  | some values => do return .map (← inner.node space values).1

/-- The type that a name stands for: a full name, or a name in the enclosing namespace. -/
def resolve? (table : Definitions) (space : Option String) (name : String) : Option DataType :=
  table.find? (fullName space name) <|> table.find? name

/-- Reads a reference to a defined type. -/
def readReference (space : Option String) (members : Json.Members) (name : String) :
    Reading DataType := do
  match resolve? (← get) space name with
  | some type => return type
  | none => lift (refuse (.unknownType name (Json.Members.get? members "logicalType")))

/-- Reads a node whose type is a name other than that of a record or an array. -/
def readNamed (inner : Inner) (space : Option String) (members : Json.Members) (name : String) :
    Reading DataType :=
  let byName : Reading DataType :=
    if name = "map" then readMap inner space members
    else match Kind.ofAvro? name with
      | some kind => readPrimitive space kind members
      | none => readReference space members name
  -- several kinds share one Avro type, so the logical type goes before the name
  match text? members "logicalType" with
  | none => byName
  | some logical =>
    if logical = "MAP" then readMap inner space members
    else match Kind.ofLogical? logical with
      | some kind => readPrimitive space kind members
      | none => byName

/-- Whether a branch is the null branch. -/
def isNullBranch (node : Json) : Bool := node.string? == some "null"

/-- Reads a list of branches. A null branch makes the type nullable; a single other branch is the
type itself, and several make a union. -/
def readBranches (inner : Inner) (space : Option String) (items : List Json) :
    Reading (DataType × Bool) := do
  let nullable := items.any isNullBranch
  match items.filter (!isNullBranch ·) with
  | [] => lift (refuse .noBranch)
  | [single] => do
    -- the branch may be nullable by itself
    let (type, innerNullable) ← inner.node space single
    return (type, nullable || innerNullable)
  | several => do
    let types ← several.mapM fun branch => return (← inner.node space branch).1
    return (← lift (DataType.unionOf types), nullable)

/-- Reads the fields of a record, adding them one by one. -/
def readFields (inner : Inner) (space : Option String) :
    Record → List Json → Reading Record
  | r, [] => pure r
  | r, node :: rest => do
    let f ← inner.field space node
    readFields inner space (← lift (r.addField f)) rest

/-- Reads a record and defines it. -/
def readRecord (inner : Inner) (space : Option String) (members : Json.Members) :
    Reading Record := do
  let name ← lift (logicalName members)
  let own := text? members "namespace"
  let empty : Record := { name, space := own, doc := text? members "doc" }
  match (Json.Members.get? members "fields").bind Json.array? with
  | none => lift (refuse (.fieldsMissing name))
  | some fields => do
    let r ← readFields inner (own <|> space) empty fields
    -- fields that refer to the record by its name are read before it is defined
    define members (own <|> space) (.record r)
    return r

/-- Reads the type that an object describes, be it a type node or a field. -/
def readObject (inner : Inner) (space : Option String) (members : Json.Members) :
    Reading (DataType × Bool) :=
  match Json.Members.get? members "type" with
  | none => lift (refuse .typeMissing)
  -- a list or an object under this key is the type of a field
  | some (.array items) => inner.branches space items
  | some (.object type) => inner.node space (.object type)
  | some (.string "record") => do return (.record (← readRecord inner space members), false)
  | some (.string "array") =>
    match Json.Members.get? members "items" with
    | none => lift (refuse .itemsMissing)
    | some items => do return (.array (← inner.node space items).1, false)
  | some (.string name) => do return (← readNamed inner space members name, false)
  | some other => lift (refuse (.unexpectedType other))

/-- Reads a type node. -/
def readNode (inner : Inner) (space : Option String) : Json → Reading (DataType × Bool)
  | .string name => do return (← readNamed inner space [] name, false)
  | .array items => readBranches inner space items
  | .object members => readObject inner space members
  | other => lift (refuse (.unexpectedNode other))

/-- Reads a field. -/
def readField (inner : Inner) (space : Option String) : Json → Reading Field
  | .object members => do
    let name ← lift (logicalName members)
    let (type, nullable) ← readObject inner space members
    return {
      name
      type
      nullable
      doc := text? members "doc"
      -- the default value of a nullable field is always written as null
      defaultValue := if nullable then none else Json.Members.get? members "default"
      internal := flag members "__internal"
      technical := flag members "__technical"
      sourceType := text? members "__source_data_type"
      sensitivity :=
        ((text? members "__sensitivity").bind Sensitivity.ofName?).getD .internalData }
  | _ => lift (refuse .fieldNotObject)

mutual

/-- Reads a type node that may go some levels deep. -/
def node (limit : Nat) : (levels : Nat) → Option String → Json → Reading (DataType × Bool)
  | 0, _, _ => throw (.nestingTooDeep limit)
  | levels + 1, space, json =>
    readNode ⟨node limit levels, branches limit levels, field limit levels⟩ space json

/-- Reads a list of branches that may go some levels deep. -/
def branches (limit : Nat) :
    (levels : Nat) → Option String → List Json → Reading (DataType × Bool)
  | 0, _, _ => throw (.nestingTooDeep limit)
  | levels + 1, space, items =>
    readBranches ⟨node limit levels, branches limit levels, field limit levels⟩ space items

/-- Reads a field that may go some levels deep. -/
def field (limit : Nat) : (levels : Nat) → Option String → Json → Reading Field
  | 0, _, _ => throw (.nestingTooDeep limit)
  | levels + 1, space, json =>
    readField ⟨node limit levels, branches limit levels, field limit levels⟩ space json

end

/-- The readers that may go some levels deep. -/
def inner (limit levels : Nat) : Inner :=
  ⟨node limit levels, branches limit levels, field limit levels⟩

/-- The result of a reading that starts without definitions. -/
def run {α : Type} (reading : Reading α) : Except SchemaError α :=
  match reading [] with
  | .ok a _ => .ok a
  | .error e _ => .error e

end Wire

/-- The type that a document describes, and whether it is nullable. -/
def DataType.ofWire (limit : Nat) (document : Json) : Except SchemaError (DataType × Bool) :=
  Wire.run (Wire.node limit (limit + 1) none document)

/-- The type that the text of a document describes, and whether it is nullable. -/
def DataType.ofJson (limit : Nat) (text : String) : Except SchemaError (DataType × Bool) :=
  match Json.parse text with
  | .ok document => ofWire limit document
  | .error fault => .error (.json (.text text fault))

/-- The field that a document describes. -/
def Field.ofWire (limit : Nat) (document : Json) : Except SchemaError Field :=
  Wire.run (Wire.field limit (limit + 1) none document)

/-- The record that the members of a document describe. -/
def Record.ofMembers (limit : Nat) (members : Json.Members) : Except SchemaError Record :=
  match Wire.text? members "type" with
  | some "record" => Wire.run (Wire.readRecord (Wire.inner limit limit) none members)
  | found => Wire.refuse (.notRecord found)

/-- The record that a document describes. -/
def Record.ofWire (limit : Nat) : Json → Except SchemaError Record
  | .object members => ofMembers limit members
  | _ => Wire.refuse .recordNotObject

end AvroSchema
