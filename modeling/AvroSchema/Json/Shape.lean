import AvroSchema.Json.Value

/-!
# Shapes of Stored Data

Reading plain data from JSON values. A structure is an object, whose unknown members are ignored,
or the array of its fields in order, of which the last ones may be left out. An enumerated value is
its name, or an object with that name as its only key and null as its value. What does not fit the
shape has no reading; a member of a document that does not is told by its key and its value.
-/

namespace AvroSchema.Json

/-- A value that has not the shape of what is stored under its key. -/
structure Misfit where
  /-- The key. -/
  key : String
  /-- The value, as it stands in the document. -/
  value : Json

/-- The members of a structure with the given keys. An array must hold the first `required`
fields and no more than there are keys. -/
def structure? (keys : List String) (required : Nat) : Json → Option Members
  | .object members => some members
  | .array items =>
    if required ≤ items.length ∧ items.length ≤ keys.length then some (keys.zip items) else none
  | _ => none

/-- The name of an enumerated value. -/
def variant? : Json → Option String
  | .string name => some name
  | .object [(name, .null)] => some name
  | _ => none

/-- A value that may be null. -/
def nullable? {α : Type} (read : Json → Option α) : Json → Option (Option α)
  | .null => some none
  | j => (read j).map some

/-- The items of an array, all of which have to be readable. -/
def list? {α : Type} (read : Json → Option α) : Json → Option (List α)
  | .array items => items.mapM read
  | _ => none

namespace Members

/-- A member that has to be there. -/
def required? {α : Type} (members : Members) (key : String) (read : Json → Option α) : Option α :=
  (members.get? key).bind read

/-- A member that may be absent or null. -/
def optional? {α : Type} (members : Members) (key : String) (read : Json → Option α) :
    Option (Option α) :=
  match members.get? key with
  | some j => nullable? read j
  | none => some none

/-- A member that may be absent, for which another value then stands. -/
def defaulted? {α : Type} (members : Members) (key : String) (read : Json → Option α)
    (absent : α) : Option α :=
  match members.get? key with
  | some j => read j
  | none => some absent

/-- A member of a document, which may be absent or null. -/
def stored {α : Type} (members : Members) (key : String) (read : Json → Option α) :
    Except Misfit (Option α) :=
  match members.get? key with
  | some value =>
    match nullable? read value with
    | some a => .ok a
    | none => .error { key, value }
  | none => .ok none

section

variable {α : Type} {members : Members} {key : String} {read : Json → Option α}

/-- A member of a document is read as one that may be absent or null. -/
theorem stored_eq_ok_iff {a : Option α} :
    stored members key read = .ok a ↔ optional? members key read = some a := by
  unfold stored optional?
  cases get? members key with
  | none => simp
  | some value => cases h : nullable? read value <;> simp [h]

/-- A member of a document is refused exactly if it is there and cannot be read. -/
theorem stored_eq_error_iff {misfit : Misfit} :
    stored members key read = .error misfit ↔
      misfit.key = key ∧ get? members key = some misfit.value ∧
        nullable? read misfit.value = none := by
  constructor
  · intro h
    unfold stored at h
    split at h
    next value hget =>
      split at h
      · cases h
      next hread =>
        cases h
        exact ⟨rfl, hget, hread⟩
    · cases h
  · rintro ⟨rfl, hget, hread⟩
    simp only [stored, hget, hread]

end

end Members

end AvroSchema.Json
