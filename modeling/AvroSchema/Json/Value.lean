import AvroSchema.Json.Binary64

/-!
# JSON Values

JSON values with integers and floating numbers kept apart. The members of an object are listed
in the order of their keys, each key once, so an object has one representation whatever order
its members were written in.

* `Json.Members.get?_insert_self`: a member that was put in is found.
* `Json.Members.get?_insert_of_ne`: the other members are not disturbed by it.
* `Json.Members.get?_cons`: members are looked up one after the other.
-/

namespace AvroSchema

/-- A JSON value. -/
inductive Json where
  | null
  | bool (value : Bool)
  | int (value : Int)
  | float (value : Binary64)
  | string (value : String)
  | array (items : List Json)
  | object (members : List (String × Json))

namespace Json

instance : Inhabited Json := ⟨.null⟩

/-- The members of an object, in the order of their keys. -/
abbrev Members := List (String × Json)

namespace Members

/-- The value under a key. -/
def get? (members : Members) (key : String) : Option Json := members.lookup key

/-- Puts a member at its place; a member with the same key is replaced. -/
def insert (key : String) (value : Json) : Members → Members
  | [] => [(key, value)]
  | (k, v) :: rest =>
    if key = k then (key, value) :: rest
    else if key < k then (key, value) :: (k, v) :: rest
    else (k, v) :: insert key value rest

/-- The members of a list, of which a later one replaces an earlier one with the same key. -/
def ofList (entries : List (String × Json)) : Members :=
  entries.foldl (fun members e => insert e.1 e.2 members) []

@[simp]
theorem get?_insert_self (key : String) (value : Json) (members : Members) :
    get? (insert key value members) key = some value := by
  induction members with
  | nil => simp [insert, get?]
  | cons e rest ih =>
    obtain ⟨k, v⟩ := e
    simp only [insert]
    split
    · simp [get?]
    · split
      · simp [get?]
      · next h _ => simpa [get?, List.lookup_cons, beq_eq_false_iff_ne.2 h] using ih

theorem get?_insert_of_ne {key other : String} (value : Json) (members : Members)
    (h : other ≠ key) : get? (insert key value members) other = get? members other := by
  have hb : (other == key) = false := beq_eq_false_iff_ne.2 h
  induction members with
  | nil => simp [insert, get?, List.lookup_cons, hb]
  | cons e rest ih =>
    obtain ⟨k, v⟩ := e
    simp only [insert]
    split
    · next he => subst he; simp [get?, List.lookup_cons, hb]
    · split
      · simp [get?, List.lookup_cons, hb]
      · simp only [get?, List.lookup_cons] at ih ⊢
        split
        · rfl
        · exact ih

@[simp]
theorem get?_nil (key : String) : get? [] key = none := rfl

@[simp]
theorem get?_cons (key other : String) (value : Json) (members : Members) :
    get? ((other, value) :: members) key =
      if key = other then some value else get? members key := by
  by_cases h : key = other
  · simp [get?, h]
  · simp [get?, List.lookup_cons, h, beq_eq_false_iff_ne.2 h]

end Members

/-- An object with the given members, in any order. -/
def ofMembers (entries : List (String × Json)) : Json := .object (Members.ofList entries)

/-- The text of a string value. -/
def string? : Json → Option String
  | .string s => some s
  | _ => none

/-- The truth value of a boolean. -/
def bool? : Json → Option Bool
  | .bool b => some b
  | _ => none

/-- The items of an array. -/
def array? : Json → Option (List Json)
  | .array items => some items
  | _ => none

/-- The integer of a number that is a signed 64-bit integer. -/
def int64? : Json → Option Int
  | .int n => if -0x8000000000000000 ≤ n ∧ n < 0x8000000000000000 then some n else none
  | _ => none

/-- The natural number of an integer below a bound. -/
def natBelow? (bound : Nat) : Json → Option Nat
  | .int (.ofNat n) => if n < bound then some n else none
  | _ => none

/-- The string, or null for none. -/
def ofString? : Option String → Json
  | some s => .string s
  | none => .null

mutual

/-- Equality of JSON values: an integer never equals a floating number, and the two floating
zeros are equal. -/
def beq : Json → Json → Bool
  | .null, .null => true
  | .bool a, .bool b => a == b
  | .int a, .int b => a == b
  | .float a, .float b => a.beq b
  | .string a, .string b => a == b
  | .array a, .array b => beqItems a b
  | .object a, .object b => beqMembers a b
  | _, _ => false

/-- Equality of arrays, item by item. -/
def beqItems : List Json → List Json → Bool
  | [], [] => true
  | a :: as, b :: bs => beq a b && beqItems as bs
  | _, _ => false

/-- Equality of objects, member by member. -/
def beqMembers : List (String × Json) → List (String × Json) → Bool
  | [], [] => true
  | (k, a) :: as, (l, b) :: bs => k == l && beq a b && beqMembers as bs
  | _, _ => false

end

instance : BEq Json := ⟨beq⟩

end Json

end AvroSchema
