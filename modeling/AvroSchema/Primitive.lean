import AvroSchema.Kind
import AvroSchema.Error
import AvroSchema.Name

/-!
# Primitive Types

A primitive type is a plain kind or a kind with parameters. The functions whose names end in `Of`
check the parameters; the first parameter that is not admitted decides the refusal.
-/

namespace AvroSchema

/-- A primitive type. -/
inductive Primitive where
  /-- A kind without parameters. -/
  | plain (kind : Kind) (isPlain : kind.isPlain = true)
  /-- ASCII text of a bounded length. -/
  | varchar (length : Nat)
  /-- Unicode text of a bounded length. -/
  | nvarchar (length : Nat)
  /-- A decimal number with `precision` digits, `scale` of them after the point. -/
  | decimal (precision scale : Nat)
  /-- Binary data of a fixed size under a name. -/
  | fixed (size : Nat) (name : String)
  /-- One of some symbols, under a name. -/
  | enum (name : String) (symbols : List String)
deriving DecidableEq, Repr

namespace Primitive

/-- The kind of a type. -/
def kind : Primitive → Kind
  | .plain kind _ => kind
  | .varchar _ => .varchar
  | .nvarchar _ => .nvarchar
  | .decimal _ _ => .decimal
  | .fixed _ _ => .fixed
  | .enum _ _ => .enum

/-- The type of a plain kind. -/
def ofKind? (kind : Kind) : Option Primitive :=
  if h : kind.isPlain = true then some (.plain kind h) else none

/-- The largest precision of a decimal. -/
def maxPrecision : Int := 76

/-- The largest size of a fixed type. -/
def maxFixedSize : Int := 0x7fffffff

/-- A quantity that has to be positive and to fit 32 bits. -/
def positive (type : Parametric) (quantity : String) (value : Int) : Except SchemaError Nat :=
  if value ≤ 0 then .error (.invalidParameter type (.notPositive quantity value))
  else if 0x100000000 ≤ value then .error (.invalidParameter type (.outOfRange quantity value))
  else .ok value.toNat

/-- A name that has to be there. -/
def requiredName (type : Parametric) (name : String) : Except SchemaError String :=
  if name = "" then .error (.invalidParameter type .nameMissing) else .ok name

/-- ASCII text with a positive length. -/
def varcharOf (length : Int) : Except SchemaError Primitive := do
  return .varchar (← positive .varchar "length" length)

/-- Unicode text with a positive length. -/
def nvarcharOf (length : Int) : Except SchemaError Primitive := do
  return .nvarchar (← positive .nvarchar "length" length)

/-- A decimal with `1 ≤ precision ≤ 76` and `0 ≤ scale ≤ precision`. -/
def decimalOf (precision scale : Int) : Except SchemaError Primitive := do
  let digits ← positive .decimal "precision" precision
  if maxPrecision < precision then
    throw (.invalidParameter .decimal (.precisionTooLarge precision maxPrecision))
  if scale < 0 ∨ precision < scale then
    throw (.invalidParameter .decimal (.scaleOutOfRange precision scale))
  return .decimal digits scale.toNat

/-- Fixed size data with a positive size and a name. -/
def fixedOf (size : Int) (name : String) : Except SchemaError Primitive := do
  if maxFixedSize < size then
    throw (.invalidParameter .fixed (.sizeTooLarge size maxFixedSize))
  let size ← positive .fixed "size" size
  return .fixed size (← requiredName .fixed name)

/-- The first fault of some symbols that follow the symbols in `before`. -/
def symbolFault? (before : List String) : List String → Option ParameterFault
  | [] => none
  | symbol :: rest =>
    if symbol = "" then some .symbolEmpty
    else if before.contains symbol then some (.symbolRepeated symbol)
    else symbolFault? (symbol :: before) rest

/-- An enumeration with a name and distinct symbols, none of them empty. -/
def enumOf (name : String) (symbols : List String) : Except SchemaError Primitive := do
  let name ← requiredName .enum name
  if symbols.isEmpty then throw (.invalidParameter .enum .symbolsMissing)
  match symbolFault? [] symbols with
  | some fault => throw (.invalidParameter .enum fault)
  | none => return .enum name symbols

/-- The plain types that `AnyPrimitive` is the union of. -/
def anyPrimitiveMembers : List Primitive := Kind.anyPrimitiveMembers.filterMap ofKind?

/-- The catalog name of a type. -/
def name (p : Primitive) : String := p.kind.name

/-- The type as shown to people: upper-case, with its parameters. -/
def display : Primitive → String
  | .varchar length => s!"VARCHAR({length})"
  | .nvarchar length => s!"NVARCHAR({length})"
  | .decimal precision scale => s!"DECIMAL({precision}, {scale})"
  | .fixed size name => s!"FIXED({size}, {name})"
  | .enum name _ => s!"ENUM({name})"
  | .plain kind _ => kind.name.map Char.toUpper

/-- The name under which a type is defined in a document; only fixed types, enumerations and the
UUID type have one. -/
def wireName? : Primitive → Option String
  | .fixed _ name | .enum name _ => some (Name.escape name)
  | .plain .uuid _ => some "uuid"
  | _ => none

end Primitive

end AvroSchema
