import AvroSchema.Record

/-!
# Full Names and Definitions

Named types are records, fixed types, enumerations and the UUID type. A document defines such a
type once, under its full name, and refers to it by that name afterwards. The table of the types
that were defined so far keeps the first type of each name.
-/

namespace AvroSchema

/-- The full name of a name in a namespace; no namespace and the empty one qualify nothing. -/
def fullName (space : Option String) (name : String) : String :=
  match space with
  | some space => if space = "" then name else space ++ "." ++ name
  | none => name

/-- The types defined so far, each under its full name. -/
abbrev Definitions := List (String × DataType)

namespace Definitions

/-- The type defined under a full name. -/
def find? (table : Definitions) (name : String) : Option DataType := table.lookup name

/-- Defines a name, unless it is defined already. -/
def define (table : Definitions) (name : String) (type : DataType) : Definitions :=
  match find? table name with
  | some _ => table
  | none => (name, type) :: table

/-- Whether a name stands for a type equal to the given one. -/
def standsFor (table : Definitions) (name : String) (type : DataType) : Bool :=
  (find? table name).any (· == type)

@[simp]
theorem find?_nil (name : String) : find? [] name = none := rfl

/-- A definition is never overwritten. -/
theorem find?_define (table : Definitions) (name other : String) (type : DataType) :
    find? (define table name type) other =
      if other = name then some ((find? table name).getD type) else find? table other := by
  unfold define
  cases h : find? table name with
  | some t => split <;> simp_all
  | none =>
    by_cases hn : other = name
    · simp [hn, find?]
    · simp [hn, find?, List.lookup_cons, beq_eq_false_iff_ne.2 hn]

end Definitions

end AvroSchema
