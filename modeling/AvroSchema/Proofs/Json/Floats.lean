import AvroSchema.Json.Printer
import AvroSchema.Proofs.Types.Equality

/-!
# Doubles in JSON Values

The doubles in a value, and the value with another double in the place of each. The canonical form
is one such change. It only replaces zeros, so two equal values without zeros are the same; and a
zero has a longer text with a minus sign than without, so values with zeros have equal ones of
another text.

* `Json.eq_of_canonical_eq_of_noZeros`: equal values without zeros are the same.
* `Json.length_chars_signZeros`: the sign of its zeros counts for the length of a text.
-/

namespace AvroSchema

namespace Json

mutual

/-- The doubles in a value. -/
def floats : Json → List Binary64
  | .float x => [x]
  | .array items => floatsItems items
  | .object members => floatsMembers members
  | .null | .bool _ | .int _ | .string _ => []

/-- The doubles in the items of an array. -/
def floatsItems : List Json → List Binary64
  | [] => []
  | item :: rest => item.floats ++ floatsItems rest

/-- The doubles in the members of an object. -/
def floatsMembers : List (String × Json) → List Binary64
  | [] => []
  | (_, value) :: rest => value.floats ++ floatsMembers rest

end

mutual

/-- The value with every double in it changed. -/
def mapFloats (g : Binary64 → Binary64) : Json → Json
  | .float x => .float (g x)
  | .array items => .array (mapFloatsItems g items)
  | .object members => .object (mapFloatsMembers g members)
  | .null => .null
  | .bool b => .bool b
  | .int n => .int n
  | .string s => .string s

/-- The items of an array with every double in them changed. -/
def mapFloatsItems (g : Binary64 → Binary64) : List Json → List Json
  | [] => []
  | item :: rest => item.mapFloats g :: mapFloatsItems g rest

/-- The members of an object with every double in them changed. -/
def mapFloatsMembers (g : Binary64 → Binary64) : List (String × Json) → List (String × Json)
  | [] => []
  | (key, value) :: rest => (key, value.mapFloats g) :: mapFloatsMembers g rest

end

/-- The text of a value has no sign of zero to show. -/
def NoZeros (json : Json) : Prop := ∀ x ∈ json.floats, x.magnitude.significand ≠ 0

instance (json : Json) : Decidable json.NoZeros :=
  inferInstanceAs (Decidable (∀ x ∈ json.floats, x.magnitude.significand ≠ 0))

section

variable (f g : Binary64 → Binary64)

theorem mapFloatsItems_eq_map (items : List Json) :
    mapFloatsItems g items = items.map (mapFloats g) := by
  induction items with
  | nil => rfl
  | cons item rest ih => rw [mapFloatsItems, ih, List.map_cons]

theorem mapFloatsMembers_eq_map (members : List (String × Json)) :
    mapFloatsMembers g members = members.map fun e => (e.1, e.2.mapFloats g) := by
  induction members with
  | nil => rfl
  | cons e rest ih =>
    obtain ⟨key, value⟩ := e
    rw [mapFloatsMembers, ih, List.map_cons]

mutual

/-- The doubles of a changed value are the changed doubles of the value. -/
theorem floats_mapFloats : ∀ json : Json, (json.mapFloats g).floats = json.floats.map g
  | .float _ => rfl
  | .array items => floatsItems_mapFloatsItems items
  | .object members => floatsMembers_mapFloatsMembers members
  | .null | .bool _ | .int _ | .string _ => rfl

theorem floatsItems_mapFloatsItems : ∀ items : List Json,
    floatsItems (mapFloatsItems g items) = (floatsItems items).map g
  | [] => rfl
  | item :: rest => by
    rw [mapFloatsItems, floatsItems, floatsItems, List.map_append, floats_mapFloats item,
      floatsItems_mapFloatsItems rest]

theorem floatsMembers_mapFloatsMembers : ∀ members : List (String × Json),
    floatsMembers (mapFloatsMembers g members) = (floatsMembers members).map g
  | [] => rfl
  | (_, value) :: rest => by
    rw [mapFloatsMembers, floatsMembers, floatsMembers, List.map_append, floats_mapFloats value,
      floatsMembers_mapFloatsMembers rest]

end

mutual

/-- Changing the doubles twice is changing them once. -/
theorem mapFloats_mapFloats : ∀ json : Json,
    (json.mapFloats g).mapFloats f = json.mapFloats fun x => f (g x)
  | .float _ => rfl
  | .array items => congrArg array (mapFloatsItems_mapFloatsItems items)
  | .object members => congrArg object (mapFloatsMembers_mapFloatsMembers members)
  | .null | .bool _ | .int _ | .string _ => rfl

theorem mapFloatsItems_mapFloatsItems : ∀ items : List Json,
    mapFloatsItems f (mapFloatsItems g items) = mapFloatsItems (fun x => f (g x)) items
  | [] => rfl
  | item :: rest => by
    rw [mapFloatsItems, mapFloatsItems, mapFloatsItems, mapFloats_mapFloats item,
      mapFloatsItems_mapFloatsItems rest]

theorem mapFloatsMembers_mapFloatsMembers : ∀ members : List (String × Json),
    mapFloatsMembers f (mapFloatsMembers g members) = mapFloatsMembers (fun x => f (g x)) members
  | [] => rfl
  | (_, value) :: rest => by
    rw [mapFloatsMembers, mapFloatsMembers, mapFloatsMembers, mapFloats_mapFloats value,
      mapFloatsMembers_mapFloatsMembers rest]

end

variable {g}

mutual

/-- A value keeps its form if its doubles do. -/
theorem mapFloats_eq_self : ∀ json : Json, (∀ x ∈ json.floats, g x = x) → json.mapFloats g = json
  | .float x, h => congrArg float (h x (List.mem_singleton_self x))
  | .array items, h => congrArg array (mapFloatsItems_eq_self items h)
  | .object members, h => congrArg object (mapFloatsMembers_eq_self members h)
  | .null, _ | .bool _, _ | .int _, _ | .string _, _ => rfl

theorem mapFloatsItems_eq_self : ∀ items : List Json,
    (∀ x ∈ floatsItems items, g x = x) → mapFloatsItems g items = items
  | [], _ => rfl
  | item :: rest, h => by
    rw [floatsItems, List.forall_mem_append] at h
    rw [mapFloatsItems, mapFloats_eq_self item h.1, mapFloatsItems_eq_self rest h.2]

theorem mapFloatsMembers_eq_self : ∀ members : List (String × Json),
    (∀ x ∈ floatsMembers members, g x = x) → mapFloatsMembers g members = members
  | [], _ => rfl
  | (_, value) :: rest, h => by
    rw [floatsMembers, List.forall_mem_append] at h
    rw [mapFloatsMembers, mapFloats_eq_self value h.1, mapFloatsMembers_eq_self rest h.2]

end

end

mutual

/-- The canonical form changes every double to its own canonical form. -/
theorem canonical_eq_mapFloats : ∀ json : Json, json.canonical = json.mapFloats Binary64.canonical
  | .float _ => rfl
  | .array items => congrArg array (canonicalItems_eq_mapFloatsItems items)
  | .object members => congrArg object (canonicalMembers_eq_mapFloatsMembers members)
  | .null | .bool _ | .int _ | .string _ => rfl

theorem canonicalItems_eq_mapFloatsItems : ∀ items : List Json,
    canonicalItems items = mapFloatsItems Binary64.canonical items
  | [] => rfl
  | item :: rest => by
    rw [canonicalItems, mapFloatsItems, canonical_eq_mapFloats item,
      canonicalItems_eq_mapFloatsItems rest]

theorem canonicalMembers_eq_mapFloatsMembers : ∀ members : List (String × Json),
    canonicalMembers members = mapFloatsMembers Binary64.canonical members
  | [] => rfl
  | (_, value) :: rest => by
    rw [canonicalMembers, mapFloatsMembers, canonical_eq_mapFloats value,
      canonicalMembers_eq_mapFloatsMembers rest]

end

end Json

/-! ## Zeros -/

namespace Binary64

theorem canonical_of_ne_zero {x : Binary64} (h : x.magnitude.significand ≠ 0) : x.canonical = x :=
  if_neg h

theorem canonical_canonical (x : Binary64) : x.canonical.canonical = x.canonical := by
  unfold canonical
  split
  · rfl
  · rfl

/-- The number with a given sign if it is a zero. -/
def signZero (negative : Bool) (x : Binary64) : Binary64 :=
  if x.magnitude.significand = 0 then { x with negative } else x

theorem canonical_signZero (negative : Bool) (x : Binary64) :
    (x.signZero negative).canonical = x.canonical := by
  unfold signZero canonical
  split
  · rfl
  · rfl

/-- A negative zero has one character more than a positive one. -/
theorem length_text_signZero (x : Binary64) :
    (x.signZero true).text.length = (x.signZero false).text.length +
      if x.magnitude.significand = 0 then 1 else 0 := by
  unfold signZero
  split
  · next h => simp [text, h]
  · rfl

end Binary64

namespace Json

/-- Equal values are the same if there is no zero in one of them. -/
theorem eq_of_canonical_eq_of_noZeros {a b : Json} (h : a.canonical = b.canonical)
    (hb : b.NoZeros) : a = b := by
  have hself : ∀ {json : Json}, json.NoZeros → json.canonical = json := by
    intro json hn
    rw [canonical_eq_mapFloats]
    exact mapFloats_eq_self json fun x hx => Binary64.canonical_of_ne_zero (hn x hx)
  have hfloats : a.floats.map Binary64.canonical = b.floats.map Binary64.canonical := by
    rw [← floats_mapFloats, ← floats_mapFloats, ← canonical_eq_mapFloats, h,
      canonical_eq_mapFloats]
  have ha : a.NoZeros := by
    intro x hx hz
    -- a zero would be a zero on the other side too
    have hm := List.mem_map_of_mem hx (f := Binary64.canonical)
    rw [hfloats] at hm
    obtain ⟨y, hy, he⟩ := List.mem_map.1 hm
    rw [Binary64.canonical_of_ne_zero (hb y hy), Binary64.canonical, if_pos hz] at he
    exact hb y hy (he ▸ rfl)
  rw [← hself ha, h, hself hb]

/-- The number of zeros in a list of doubles. -/
def zeros (xs : List Binary64) : Nat := xs.countP (·.magnitude.significand = 0)

theorem zeros_append (xs ys : List Binary64) : zeros (xs ++ ys) = zeros xs + zeros ys :=
  List.countP_append

theorem noZeros_iff_zeros {json : Json} : json.NoZeros ↔ zeros json.floats = 0 := by
  simp [NoZeros, zeros, List.countP_eq_zero]

mutual

/-- Every negative zero makes a text longer by one character than a positive one. -/
theorem length_chars_signZeros : ∀ json : Json,
    (json.mapFloats (Binary64.signZero true)).chars.length =
      (json.mapFloats (Binary64.signZero false)).chars.length + zeros json.floats
  | .float x => by
    simp only [mapFloats, chars, scalarText, floats, Binary64.length_text_signZero]
    simp [zeros, List.countP_cons]
  | .array items => by
    have h := length_charsItems_signZeros items
    simp only [mapFloats, chars, floats, List.length_append, List.length_cons]
    omega
  | .object members => by
    have h := length_charsMembers_signZeros members
    simp only [mapFloats, chars, floats, List.length_append, List.length_cons]
    omega
  | .null | .bool _ | .int _ | .string _ => rfl

theorem length_charsItems_signZeros : ∀ items : List Json,
    (charsItems (mapFloatsItems (Binary64.signZero true) items)).length =
      (charsItems (mapFloatsItems (Binary64.signZero false) items)).length +
        zeros (floatsItems items)
  | [] => rfl
  | [item] => by
    have h := length_chars_signZeros item
    simpa [mapFloatsItems, charsItems, floatsItems] using h
  | item :: next :: rest => by
    have h := length_chars_signZeros item
    have hs := length_charsItems_signZeros (next :: rest)
    rw [floatsItems, zeros_append]
    simp only [mapFloatsItems, charsItems, List.length_append, List.length_cons] at hs ⊢
    omega

theorem length_charsMembers_signZeros : ∀ members : List (String × Json),
    (charsMembers (mapFloatsMembers (Binary64.signZero true) members)).length =
      (charsMembers (mapFloatsMembers (Binary64.signZero false) members)).length +
        zeros (floatsMembers members)
  | [] => rfl
  | [(key, value)] => by
    have h := length_chars_signZeros value
    simp only [mapFloatsMembers, charsMembers, floatsMembers, List.length_append,
      List.length_cons, List.append_nil]
    omega
  | (key, value) :: next :: rest => by
    have h := length_chars_signZeros value
    have hs := length_charsMembers_signZeros (next :: rest)
    obtain ⟨other, second⟩ := next
    rw [floatsMembers, zeros_append]
    simp only [mapFloatsMembers, charsMembers, List.length_append, List.length_cons] at hs ⊢
    omega

end

/-- A value with zeros has equal ones of another text. -/
theorem noZeros_of_chars_eq {json : Json}
    (h : (json.mapFloats (Binary64.signZero true)).chars =
      (json.mapFloats (Binary64.signZero false)).chars) : json.NoZeros := by
  have hl := length_chars_signZeros json
  rw [h] at hl
  exact noZeros_iff_zeros.2 (by omega)

end Json

end AvroSchema
