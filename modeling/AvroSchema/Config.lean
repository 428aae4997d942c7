import AvroSchema.Json.Shape
import AvroSchema.Toml.Reader

/-!
# Configuration

The settings of schema work, and how they are stored: as a JSON value, as TOML text, and in a
settings file. Settings that are absent take their default.
-/

namespace AvroSchema

/-- The settings. -/
structure Config where
  /-- What the name of a key schema has after the name of its value schema. -/
  keySuffix : String := "_key"
  /-- How deep the documents may be nested that are read. -/
  maxNestingDepth : Nat := 64
  /-- The namespace of new schemas. -/
  defaultNamespace : Option String := none
deriving DecidableEq, Repr

/-- Why settings cannot be loaded or saved. -/
inductive ConfigError where
  /-- The file cannot be read or written. -/
  | io
  /-- The text is no TOML document, or holds a setting of a wrong type. -/
  | parse
  /-- A setting has no representation in TOML. -/
  | serialize
deriving DecidableEq, Repr

namespace Config

/-- The settings that hold if nothing else is said. -/
def defaults : Config := {}

/-- Settings as a JSON value. -/
def toJson (c : Config) : Json :=
  .object [("default_namespace", .ofString? c.defaultNamespace),
    ("key_suffix", .string c.keySuffix), ("max_nesting_depth", .int c.maxNestingDepth)]

/-- Reads settings from a JSON value. -/
def ofJson? (j : Json) : Option Config := do
  let members ← j.structure? ["key_suffix", "max_nesting_depth", "default_namespace"] 0
  let keySuffix ← Json.Members.defaulted? members "key_suffix" Json.string? "_key"
  let maxNestingDepth ←
    Json.Members.defaulted? members "max_nesting_depth" (Json.natBelow? 0x10000000000000000) 64
  let defaultNamespace ← Json.Members.optional? members "default_namespace" Json.string?
  return { keySuffix, maxNestingDepth, defaultNamespace }

/-- A setting of a document, or its default if it is absent. -/
def setting {α : Type} (root : Toml.Entries) (key : String) (read : Toml → Option α)
    (absent : α) : Except ConfigError α :=
  match root.lookup key with
  | none => .ok absent
  | some value =>
    match read value with
    | some a => .ok a
    | none => .error .parse

/-- The value of an integer that is not negative. -/
def natural? (value : Toml) : Option Nat :=
  value.integer?.bind fun n => if 0 ≤ n then some n.toNat else none

/-- Reads settings from TOML text; other keys and tables are ignored. -/
def ofToml (text : String) : Except ConfigError Config :=
  match Toml.parse text with
  | none => .error .parse
  | some root => do
    let keySuffix ← setting root "key_suffix" Toml.string? "_key"
    let maxNestingDepth ← setting root "max_nesting_depth" natural? 64
    let defaultNamespace ←
      setting root "default_namespace" (fun value => value.string?.map some) none
    return { keySuffix, maxNestingDepth, defaultNamespace }

/-- A line that gives a key its value. -/
def line (key : String) (value : List Char) : List Char :=
  key.toList ++ [' ', '=', ' '] ++ value ++ ['\n']

/-- Settings as TOML text, whose integers have 64 bits. -/
def toToml (c : Config) : Except ConfigError String :=
  if c.maxNestingDepth < 0x8000000000000000 then
    .ok <| String.ofList <|
      line "key_suffix" (Toml.quote c.keySuffix.toList) ++
      line "max_nesting_depth" (Nat.toDigits 10 c.maxNestingDepth) ++
      match c.defaultNamespace with
      | some space => line "default_namespace" (Toml.quote space.toList)
      | none => []
  else .error .serialize

end Config

/-- A place for a settings file. -/
structure ConfigFile where
  /-- Whether the directory of the file exists. -/
  hasDirectory : Bool := true
  /-- The text of the file, if it exists. -/
  text : Option String := none
deriving DecidableEq, Repr

namespace ConfigFile

/-- The settings in a file. -/
def load (file : ConfigFile) : Except ConfigError Config :=
  match file.text with
  | some text => Config.ofToml text
  | none => .error .io

/-- The file after saving settings in it, or the reason why it stays as it is. -/
def save (file : ConfigFile) (c : Config) : Except ConfigError ConfigFile :=
  match c.toToml with
  | .error e => .error e
  | .ok text => if file.hasDirectory then .ok { file with text := some text } else .error .io

end ConfigFile

end AvroSchema
