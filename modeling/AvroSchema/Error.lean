import AvroSchema.Json.Reader
import AvroSchema.Json.Shape
import AvroSchema.Text.Quoted

/-!
# Refusals

Why a schema operation refuses its input, as data. `SchemaError.message` words every cause in one
place. How a refusal of a JSON text or value is worded is up to the JSON library, so that wording
is a parameter.
-/

namespace AvroSchema

/-- The types that are built from checked parameters. -/
inductive Parametric where
  | varchar
  | nvarchar
  | decimal
  | fixed
  | enum
  | union
deriving DecidableEq, Repr

/-- The name of a parametric type in messages. -/
def Parametric.name : Parametric → String
  | .varchar => "Varchar"
  | .nvarchar => "NVarchar"
  | .decimal => "Decimal"
  | .fixed => "Fixed"
  | .enum => "Enum"
  | .union => "Union"

/-- Why parameters are refused. -/
inductive ParameterFault where
  /-- A quantity that has to be positive is zero or negative. -/
  | notPositive (quantity : String) (value : Int)
  /-- A quantity needs more than 32 bits. -/
  | outOfRange (quantity : String) (value : Int)
  /-- A decimal has more digits than any column type holds. -/
  | precisionTooLarge (precision limit : Int)
  /-- A decimal has a negative scale, or more decimal places than digits. -/
  | scaleOutOfRange (precision scale : Int)
  /-- A fixed type is larger than any column type holds. -/
  | sizeTooLarge (size limit : Int)
  | nameMissing
  | symbolsMissing
  | symbolEmpty
  | symbolRepeated (symbol : String)
  /-- A union has fewer than two members. -/
  | tooFewMembers (count : Nat)
  | nestedUnion
  /-- A union has exactly the members of `AnyPrimitive`. -/
  | anyPrimitiveMembers
deriving DecidableEq, Repr

/-- The wording of a parameter fault. -/
def ParameterFault.message : ParameterFault → String
  | .notPositive quantity value => s!"{quantity} must be a positive integer, got {value}"
  | .outOfRange quantity value => s!"{quantity} {value} is out of range"
  | .precisionTooLarge precision limit => s!"precision {precision} exceeds {limit}"
  | .scaleOutOfRange precision scale => s!"scale must be between 0 and {precision}, got {scale}"
  | .sizeTooLarge size limit => s!"size {size} exceeds {limit}"
  | .nameMissing => "a name is required"
  | .symbolsMissing => "at least one symbol is required"
  | .symbolEmpty => "symbols must not be empty"
  | .symbolRepeated symbol => "duplicate symbol '" ++ symbol ++ "'"
  | .tooFewMembers count => s!"at least two members are required, got {count}"
  | .nestedUnion => "a union cannot contain another union"
  | .anyPrimitiveMembers =>
    "the AnyPrimitive member list must be built as PrimitiveType::AnyPrimitive"

/-- Why a document node is no schema. -/
inductive NodeFault where
  /-- A node is neither a name, a list nor an object. -/
  | unexpectedNode (node : Json)
  | typeMissing
  /-- The type of a node is neither a name, a list nor an object. -/
  | unexpectedType (value : Json)
  | itemsMissing
  | valuesMissing
  /-- A list has no branch but null. -/
  | noBranch
  | fieldsMissing (record : String)
  | fieldNotObject
  | integerMissing (key : String)
  | nameMissing
  | symbolsMissing
  | symbolNotString
  | recordNotObject
  /-- A record was expected. -/
  | notRecord (found : Option String)
  /-- A type name that is neither built in nor defined before. -/
  | unknownType (name : String) (logical : Option Json)

/-- The wording of a node fault. -/
def NodeFault.message : NodeFault → String
  | .unexpectedNode node => "unexpected schema node " ++ node.compact
  | .typeMissing => "schema node without 'type'"
  | .unexpectedType value => "unexpected 'type' value " ++ value.compact
  | .itemsMissing => "array without 'items'"
  | .valuesMissing => "map without 'values'"
  | .noBranch => "union without a non-null member"
  | .fieldsMissing record => "record '" ++ record ++ "' without a 'fields' list"
  | .fieldNotObject => "a field must be an object"
  | .integerMissing key => "missing integer '" ++ key ++ "'"
  | .nameMissing => "named schema node without 'name'"
  | .symbolsMissing => "enum without 'symbols'"
  | .symbolNotString => "enum symbols must be strings"
  | .recordNotObject => "a record schema must be an object"
  | .notRecord found => "expected a record schema, found type " ++ Quoted.optionalText found
  | .unknownType name logical =>
    "unknown type '" ++ name ++ "' with logicalType " ++ Quoted.optionalValue logical

/-- What is refused as JSON. -/
inductive JsonRefusal where
  /-- A text is no JSON. -/
  | text (text : String) (fault : Json.Fault)
  /-- A member of a document has not the shape of what is stored there. -/
  | member (misfit : Json.Misfit)

/-- Why a schema operation fails. -/
inductive SchemaError where
  | invalidParameter (type : Parametric) (fault : ParameterFault)
  /-- A record already has a field with this name. -/
  | duplicateField (name : String)
  | missingPrimaryKey (schema : String)
  /-- A primary key names no field. -/
  | unknownField (schema field : String)
  | unrecognized (fault : NodeFault)
  /-- A document is nested deeper than the limit. -/
  | nestingTooDeep (limit : Nat)
  /-- A JSON text or value was refused. -/
  | json (refusal : JsonRefusal)

/-- The wording of an error, with that of the JSON library for what it refuses. -/
def SchemaError.message (refused : JsonRefusal → String) : SchemaError → String
  | .invalidParameter type fault => "Invalid parameter for " ++ type.name ++ ": " ++ fault.message
  | .duplicateField name => "Duplicate field '" ++ name ++ "'"
  | .missingPrimaryKey schema => "Value schema '" ++ schema ++ "' has no primary key defined"
  | .unknownField schema field => "Schema '" ++ schema ++ "' has no field '" ++ field ++ "'"
  | .unrecognized fault => "Unrecognized schema: " ++ fault.message
  | .nestingTooDeep limit => s!"Schema nesting exceeds the limit of {limit} levels"
  | .json refusal => "JSON error: " ++ refused refusal

end AvroSchema
