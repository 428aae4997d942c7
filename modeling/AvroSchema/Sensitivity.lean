import AvroSchema.Json.Shape

/-!
# Sensitivity Classes

How sensitive the content of a field is. Each class has a fixed name in documents.
-/

namespace AvroSchema

/-- The sensitivity of a field's content. -/
inductive Sensitivity where
  /-- Data for use inside the company. -/
  | internalData
  /-- Data that everybody may see. -/
  | publicData
  /-- Harmless alone, but personal in combination. -/
  | sensitiveData
  /-- Personal by itself. -/
  | privateData
  /-- Subject to regulations. -/
  | regulated
  /-- Personally identifiable information. -/
  | pii
  /-- Protected health information. -/
  | phi
  | gbuOnly
  | itar
  | dualUse
deriving DecidableEq, Repr

namespace Sensitivity

instance : Inhabited Sensitivity := ⟨.internalData⟩

/-- All classes. -/
def all : List Sensitivity :=
  [.internalData, .publicData, .sensitiveData, .privateData, .regulated, .pii, .phi, .gbuOnly, .itar, .dualUse]

/-- The name of a class in documents. -/
def name : Sensitivity → String
  | .internalData => "INTERNAL"
  | .publicData => "PUBLIC"
  | .sensitiveData => "SENSITIVE"
  | .privateData => "PRIVATE"
  | .regulated => "REGULATED"
  | .pii => "PII"
  | .phi => "PHI"
  | .gbuOnly => "GBU_ONLY"
  | .itar => "ITAR"
  | .dualUse => "DUAL_USE"

/-- The class with a name. -/
def ofName? (name : String) : Option Sensitivity := all.find? (·.name == name)

/-- A stored class. -/
def toJson (s : Sensitivity) : Json := .string s.name

/-- Reads a stored class. -/
def ofJson? (j : Json) : Option Sensitivity := j.variant?.bind ofName?

end Sensitivity

end AvroSchema
