import AvroSchema.Record

/-!
# Equality of Types and Their Default Values

Types, fields and records are compared structurally, except for default values, which are compared
as JSON values. This module turns that comparison into an equation: two values are equal exactly if
their canonical forms are the same, and the canonical form differs from the value only inside the
default values (`DataType.canonical`, with `0.0` for both floating zeros).

Canonical forms and the removal of the default values of nullable fields are both instances of one
traversal, `mapDefaults`, so every fact about the rest of a type is proved for both at once.

* `Json.beq_iff`, `DataType.beq_iff`, `Record.beq_eq_true_iff`: equality is equality of canonical
  forms.
* `DataType.mapDefaults_mapDefaults`: two traversals in a row are one.
* `DataType.dropDefaults_beq_iff`: comparing without the defaults of nullable fields is comparing
  the `outline`.
-/

namespace AvroSchema

/-! ## JSON values -/

namespace Binary64

/-- The number with one representation for both zeros. -/
def canonical (x : Binary64) : Binary64 :=
  if x.magnitude.significand = 0 then .zero false else x

/-- Two numbers are equal exactly if their canonical forms are the same. -/
theorem beq_iff {x y : Binary64} : x.beq y = true ↔ x.canonical = y.canonical := by
  unfold beq canonical
  -- a zero of either sign is the positive zero in canonical form, and no other number is
  by_cases hx : x.magnitude.significand = 0 <;> by_cases hy : y.magnitude.significand = 0
  · simp [hx, hy]
  · have hne : x ≠ y := fun h => hy (h ▸ hx)
    have hz : zero false ≠ y := fun h => hy (h ▸ rfl)
    simp [hx, hy, hne, hz]
  · have hne : x ≠ y := fun h => hx (h ▸ hy)
    have hz : x ≠ zero false := fun h => hx (h ▸ rfl)
    simp [hx, hy, hne, hz]
  · simp [hx, hy]

end Binary64

namespace Json

mutual

/-- The value with one representation for both floating zeros. -/
def canonical : Json → Json
  | .float x => .float x.canonical
  | .array items => .array (canonicalItems items)
  | .object members => .object (canonicalMembers members)
  | .null => .null
  | .bool b => .bool b
  | .int n => .int n
  | .string s => .string s

/-- The canonical forms of the items of an array. -/
def canonicalItems : List Json → List Json
  | [] => []
  | item :: rest => item.canonical :: canonicalItems rest

/-- The canonical forms of the members of an object. -/
def canonicalMembers : List (String × Json) → List (String × Json)
  | [] => []
  | (key, value) :: rest => (key, value.canonical) :: canonicalMembers rest

end

mutual

/-- Two JSON values are equal exactly if their canonical forms are the same. -/
theorem beq_iff : ∀ a b : Json, a.beq b = true ↔ a.canonical = b.canonical
  | .null, b => by cases b <;> simp [beq, canonical]
  | .bool a, b => by cases b <;> simp [beq, canonical]
  | .int a, b => by cases b <;> simp [beq, canonical]
  | .float a, b => by cases b <;> simp [beq, canonical, Binary64.beq_iff]
  | .string a, b => by cases b <;> simp [beq, canonical]
  | .array as, b => by cases b <;> simp [beq, canonical, beqItems_iff as]
  | .object as, b => by cases b <;> simp [beq, canonical, beqMembers_iff as]

/-- Two lists of items are equal exactly if their canonical forms are the same. -/
theorem beqItems_iff : ∀ as bs : List Json,
    beqItems as bs = true ↔ canonicalItems as = canonicalItems bs
  | [], bs => by cases bs <;> simp [beqItems, canonicalItems]
  | a :: as, [] => by simp [beqItems, canonicalItems]
  | a :: as, b :: bs => by
    simp [beqItems, canonicalItems, beq_iff a b, beqItems_iff as bs]

/-- Two lists of members are equal exactly if their canonical forms are the same. -/
theorem beqMembers_iff : ∀ as bs : List (String × Json),
    beqMembers as bs = true ↔ canonicalMembers as = canonicalMembers bs
  | [], bs => by cases bs <;> simp [beqMembers, canonicalMembers]
  | (k, a) :: as, [] => by simp [beqMembers, canonicalMembers]
  | (k, a) :: as, (l, b) :: bs => by
    simp [beqMembers, canonicalMembers, beq_iff a b, beqMembers_iff as bs, and_assoc]

end

/-- Two JSON values compare equal exactly if their canonical forms are the same. -/
theorem beq_eq_true_iff {a b : Json} : (a == b) = true ↔ a.canonical = b.canonical :=
  beq_iff a b

/-- Two optional JSON values compare equal exactly if their canonical forms are the same. -/
theorem optionBeq_eq_true_iff {a b : Option Json} :
    (a == b) = true ↔ a.map canonical = b.map canonical := by
  cases a <;> cases b <;> simp [beq_eq_true_iff]

end Json

/-! ## Induction over types -/

/-- Induction over types: a union is reached from its members, and a record from the types of its
fields. -/
@[elab_as_elim, induction_eliminator]
theorem DataType.induction {motive : DataType → Prop}
    (primitive : ∀ p, motive (.primitive p))
    (union : ∀ members : List UnionMember, (∀ m ∈ members, motive m.type) →
      motive (.union members))
    (array : ∀ items, motive items → motive (.array items))
    (map : ∀ values, motive values → motive (.map values))
    (record : ∀ r : Record, (∀ f ∈ r.fields, motive f.type) → motive (.record r)) :
    ∀ t, motive t :=
  -- what is proved of a record, on the way, is the motive for the types of its fields
  @DataType.rec motive (fun m => motive m.type) (fun f => motive f.type)
    (fun r => ∀ f ∈ r.fields, motive f.type)
    (fun members => ∀ m ∈ members, motive m.type) (fun fields => ∀ f ∈ fields, motive f.type)
    primitive union array map record
    (fun _ _ ih => ih)
    (fun _ _ _ _ _ _ _ _ _ ih => ih)
    (fun _ _ _ _ ih => ih)
    (fun _ h => absurd h List.not_mem_nil)
    (fun _ _ ih ihs => List.forall_mem_cons.2 ⟨ih, ihs⟩)
    (fun _ h => absurd h List.not_mem_nil)
    (fun _ _ ih ihs => List.forall_mem_cons.2 ⟨ih, ihs⟩)

/-! ## Changing default values -/

mutual

/-- The type with the default value of every field inside it changed by a function, which is told
whether the field is nullable. -/
def DataType.mapDefaults (f : Bool → Option Json → Option Json) : DataType → DataType
  | .primitive p => .primitive p
  | .union members => .union (UnionMember.mapDefaultsAll f members)
  | .array items => .array (items.mapDefaults f)
  | .map values => .map (values.mapDefaults f)
  | .record r => .record (r.mapDefaults f)

/-- The member of a union with changed default values, under its tag. -/
def UnionMember.mapDefaults (f : Bool → Option Json → Option Json) : UnionMember → UnionMember
  | ⟨tag, type⟩ => ⟨tag, type.mapDefaults f⟩

/-- The members of a union with changed default values. -/
def UnionMember.mapDefaultsAll (f : Bool → Option Json → Option Json) :
    List UnionMember → List UnionMember
  | [] => []
  | member :: rest => member.mapDefaults f :: UnionMember.mapDefaultsAll f rest

/-- The field with its default value changed, and those inside its type. -/
def Field.mapDefaults (f : Bool → Option Json → Option Json) : Field → Field
  | ⟨name, type, nullable, doc, defaultValue, internal, technical, sourceType, sensitivity⟩ =>
    ⟨name, type.mapDefaults f, nullable, doc, f nullable defaultValue, internal, technical,
      sourceType, sensitivity⟩

/-- The fields of a record with changed default values. -/
def Field.mapDefaultsAll (f : Bool → Option Json → Option Json) : List Field → List Field
  | [] => []
  | field :: rest => field.mapDefaults f :: Field.mapDefaultsAll f rest

/-- The record with the default values of its fields changed, and those inside their types. -/
def Record.mapDefaults (f : Bool → Option Json → Option Json) : Record → Record
  | ⟨name, space, doc, fields⟩ => ⟨name, space, doc, Field.mapDefaultsAll f fields⟩

end

section

variable (f g : Bool → Option Json → Option Json)

theorem UnionMember.mapDefaultsAll_eq_map (members : List UnionMember) :
    UnionMember.mapDefaultsAll f members = members.map (UnionMember.mapDefaults f) := by
  induction members with
  | nil => rfl
  | cons member rest ih => rw [UnionMember.mapDefaultsAll, ih, List.map_cons]

theorem Field.mapDefaultsAll_eq_map (fields : List Field) :
    Field.mapDefaultsAll f fields = fields.map (Field.mapDefaults f) := by
  induction fields with
  | nil => rfl
  | cons field rest ih => rw [Field.mapDefaultsAll, ih, List.map_cons]

@[simp]
theorem DataType.mapDefaults_primitive (p : Primitive) :
    (DataType.primitive p).mapDefaults f = .primitive p := rfl

@[simp]
theorem DataType.mapDefaults_union (members : List UnionMember) :
    (DataType.union members).mapDefaults f = .union (members.map (UnionMember.mapDefaults f)) := by
  rw [DataType.mapDefaults, UnionMember.mapDefaultsAll_eq_map]

@[simp]
theorem DataType.mapDefaults_array (items : DataType) :
    (DataType.array items).mapDefaults f = .array (items.mapDefaults f) := rfl

@[simp]
theorem DataType.mapDefaults_map (values : DataType) :
    (DataType.map values).mapDefaults f = .map (values.mapDefaults f) := rfl

@[simp]
theorem DataType.mapDefaults_record (r : Record) :
    (DataType.record r).mapDefaults f = .record (r.mapDefaults f) := rfl

/-- The name of a type does not depend on default values. -/
@[simp]
theorem DataType.typeName_mapDefaults (t : DataType) : (t.mapDefaults f).typeName = t.typeName := by
  cases t with
  | record r => cases r; rfl
  | _ => rfl

/-- A member of a union keeps its tag. -/
theorem UnionMember.mapDefaults_eq (m : UnionMember) :
    m.mapDefaults f = { m with type := m.type.mapDefaults f } := by
  cases m
  rfl

/-- The default values in the members of a union are those in their types. -/
theorem DataType.map_type_mapDefaults (members : List UnionMember) :
    (members.map (UnionMember.mapDefaults f)).map UnionMember.type =
      (members.map UnionMember.type).map (DataType.mapDefaults f) := by
  simp [UnionMember.mapDefaults_eq, Function.comp_def]

/-- Types that are tagged stay so when their default values are changed. -/
theorem DataType.map_mapDefaults_tagged (ts : List DataType) :
    (ts.map DataType.tagged).map (UnionMember.mapDefaults f) =
      (ts.map (DataType.mapDefaults f)).map DataType.tagged := by
  simp [UnionMember.mapDefaults_eq, DataType.tagged, Function.comp_def]

/-- A field keeps everything but its type and its default value. -/
theorem Field.mapDefaults_eq (x : Field) :
    x.mapDefaults f =
      { x with type := x.type.mapDefaults f, defaultValue := f x.nullable x.defaultValue } := by
  cases x
  rfl

/-- A record keeps everything but its fields. -/
theorem Record.mapDefaults_eq (r : Record) :
    r.mapDefaults f = { r with fields := r.fields.map (Field.mapDefaults f) } := by
  cases r
  rw [Record.mapDefaults, Field.mapDefaultsAll_eq_map]

/-- Changing default values twice is changing them once by both functions. -/
theorem DataType.mapDefaults_mapDefaults (t : DataType) :
    (t.mapDefaults g).mapDefaults f =
      t.mapDefaults fun nullable d => f nullable (g nullable d) := by
  induction t with
  | primitive p => rfl
  | union members ih => simpa [UnionMember.mapDefaults_eq] using ih
  | array items ih => simpa using ih
  | map values ih => simpa using ih
  | record r ih => simpa [Record.mapDefaults_eq, Field.mapDefaults_eq] using ih

end

/-! ## Equality -/

/-- The type with the default values in it in canonical form. -/
def DataType.canonical (t : DataType) : DataType := t.mapDefaults fun _ d => d.map Json.canonical

/-- The member of a union with the default values in it in canonical form. -/
def UnionMember.canonical (m : UnionMember) : UnionMember :=
  m.mapDefaults fun _ d => d.map Json.canonical

/-- The field with its default values in canonical form. -/
def Field.canonical (f : Field) : Field := f.mapDefaults fun _ d => d.map Json.canonical

/-- The record with its default values in canonical form. -/
def Record.canonical (r : Record) : Record := r.mapDefaults fun _ d => d.map Json.canonical

/-- The type without the default values of nullable fields, at every level. -/
def DataType.dropDefaults (t : DataType) : DataType :=
  t.mapDefaults fun nullable d => if nullable then none else d

/-- The field without the default values of nullable fields, at every level. -/
def Field.dropDefaults (f : Field) : Field :=
  f.mapDefaults fun nullable d => if nullable then none else d

/-- The record without the default values of nullable fields, at every level. -/
def Record.dropDefaults (r : Record) : Record :=
  r.mapDefaults fun nullable d => if nullable then none else d

/-- What is compared when the defaults of nullable fields do not count: the canonical form without
them. -/
def DataType.outline (t : DataType) : DataType :=
  t.mapDefaults fun nullable d => if nullable then none else d.map Json.canonical

/-- The outline of a field. -/
def Field.outline (f : Field) : Field :=
  f.mapDefaults fun nullable d => if nullable then none else d.map Json.canonical

/-- The outline of a record. -/
def Record.outline (r : Record) : Record :=
  r.mapDefaults fun nullable d => if nullable then none else d.map Json.canonical

@[simp]
theorem DataType.canonical_primitive (p : Primitive) :
    (DataType.primitive p).canonical = .primitive p := rfl

@[simp]
theorem DataType.canonical_union (ts : List DataType) :
    (DataType.union (ts.map DataType.tagged)).canonical =
      .union ((ts.map DataType.canonical).map DataType.tagged) :=
  (DataType.mapDefaults_union _ _).trans (congrArg _ (DataType.map_mapDefaults_tagged _ ts))

@[simp]
theorem DataType.canonical_array (items : DataType) :
    (DataType.array items).canonical = .array items.canonical := rfl

@[simp]
theorem DataType.canonical_map (values : DataType) :
    (DataType.map values).canonical = .map values.canonical := rfl

@[simp]
theorem DataType.canonical_record (r : Record) :
    (DataType.record r).canonical = .record r.canonical := rfl

@[simp]
theorem DataType.outline_primitive (p : Primitive) :
    (DataType.primitive p).outline = .primitive p := rfl

@[simp]
theorem DataType.outline_union (ts : List DataType) :
    (DataType.union (ts.map DataType.tagged)).outline =
      .union ((ts.map DataType.outline).map DataType.tagged) :=
  (DataType.mapDefaults_union _ _).trans (congrArg _ (DataType.map_mapDefaults_tagged _ ts))

@[simp]
theorem DataType.outline_array (items : DataType) :
    (DataType.array items).outline = .array items.outline := rfl

@[simp]
theorem DataType.outline_map (values : DataType) :
    (DataType.map values).outline = .map values.outline := rfl

@[simp]
theorem DataType.outline_record (r : Record) :
    (DataType.record r).outline = .record r.outline := rfl

/-- Members are equal exactly if their canonical forms are, once this is known of their types. -/
private theorem UnionMember.beq_iff_of_type {m n : UnionMember}
    (h : m.type.beq n.type = true ↔ m.type.canonical = n.type.canonical) :
    m.beq n = true ↔ m.canonical = n.canonical := by
  cases m
  cases n
  simp [UnionMember.beq, UnionMember.canonical, UnionMember.mapDefaults_eq, h, DataType.canonical]

/-- Members are equal in order exactly if their canonical forms are, once this is known of the type
of each. -/
private theorem UnionMember.beqAll_iff {ms ns : List UnionMember}
    (h : ∀ m ∈ ms, ∀ u, m.type.beq u = true ↔ m.type.canonical = u.canonical) :
    UnionMember.beqAll ms ns = true ↔
      ms.map UnionMember.canonical = ns.map UnionMember.canonical := by
  induction ms generalizing ns with
  | nil => cases ns <;> simp [UnionMember.beqAll]
  | cons m ms ih =>
    cases ns with
    | nil => simp [UnionMember.beqAll]
    | cons n ns =>
      obtain ⟨hm, hms⟩ := List.forall_mem_cons.1 h
      simp [UnionMember.beqAll, UnionMember.beq_iff_of_type (hm n.type), ih hms]

/-- Fields are equal exactly if their canonical forms are, once this is known of their types. -/
private theorem Field.beq_iff_of_type {x y : Field}
    (h : x.type.beq y.type = true ↔ x.type.canonical = y.type.canonical) :
    x.beq y = true ↔ x.canonical = y.canonical := by
  cases x
  cases y
  simp [Field.beq, Field.canonical, Field.mapDefaults_eq, h, Json.optionBeq_eq_true_iff,
    DataType.canonical, and_assoc]

/-- Fields are equal in order exactly if their canonical forms are, once this is known of the type
of each. -/
private theorem Field.beqAll_iff {xs ys : List Field}
    (h : ∀ x ∈ xs, ∀ u, x.type.beq u = true ↔ x.type.canonical = u.canonical) :
    Field.beqAll xs ys = true ↔ xs.map Field.canonical = ys.map Field.canonical := by
  induction xs generalizing ys with
  | nil => cases ys <;> simp [Field.beqAll]
  | cons x xs ih =>
    cases ys with
    | nil => simp [Field.beqAll]
    | cons y ys =>
      obtain ⟨hx, hxs⟩ := List.forall_mem_cons.1 h
      simp [Field.beqAll, Field.beq_iff_of_type (hx y.type), ih hxs]

/-- The canonical form of a record has the canonical forms of its fields. -/
private theorem Record.canonical_eq (r : Record) :
    r.canonical = { r with fields := r.fields.map Field.canonical } := Record.mapDefaults_eq _ r

/-- Two types are equal exactly if their canonical forms are the same. -/
theorem DataType.beq_iff (t u : DataType) : t.beq u = true ↔ t.canonical = u.canonical := by
  -- types of two constructors differ, and so do their canonical forms
  induction t generalizing u with
  | primitive p => cases u <;> simp [DataType.beq, DataType.canonical]
  | union members ih =>
    cases u with
    | union others =>
      -- the members are compared in order
      rw [DataType.beq, UnionMember.beqAll_iff ih]
      simp only [DataType.canonical, DataType.mapDefaults_union, DataType.union.injEq]
      rfl
    | _ => simp [DataType.beq, DataType.canonical]
  | array items ih =>
    cases u with
    | array other => simpa [DataType.beq, DataType.canonical] using ih other
    | _ => simp [DataType.beq, DataType.canonical]
  | map values ih =>
    cases u with
    | map other => simpa [DataType.beq, DataType.canonical] using ih other
    | _ => simp [DataType.beq, DataType.canonical]
  | record r ih =>
    cases u with
    | record s =>
      rw [DataType.canonical_record, DataType.canonical_record, DataType.record.injEq,
        Record.canonical_eq, Record.canonical_eq]
      cases r
      cases s
      simp [DataType.beq, Record.beq, Field.beqAll_iff ih, and_assoc]
    | _ => simp [DataType.beq, DataType.canonical]

/-- Two types compare equal exactly if their canonical forms are the same. -/
theorem DataType.beq_eq_true_iff {t u : DataType} :
    (t == u) = true ↔ t.canonical = u.canonical := DataType.beq_iff t u

/-- Two records compare equal exactly if their canonical forms are the same. -/
theorem Record.beq_eq_true_iff {r s : Record} : (r == s) = true ↔ r.canonical = s.canonical := by
  -- records are compared like the types that they make
  have h := DataType.beq_iff (.record r) (.record s)
  rw [DataType.beq] at h
  change r.beq s = true ↔ _
  simpa using h

/-! ## Comparing without the defaults of nullable fields -/

namespace DataType

/-- The outline is the canonical form of what is left without the defaults of nullable fields. -/
theorem canonical_dropDefaults (t : DataType) : t.dropDefaults.canonical = t.outline := by
  rw [dropDefaults, canonical, mapDefaults_mapDefaults, outline]
  congr 1
  -- for one field, nullable or not, both sides are the same function of its default value
  funext nullable d
  cases nullable <;> rfl

/-- The outline depends on the canonical form only. -/
theorem dropDefaults_canonical (t : DataType) : t.canonical.dropDefaults = t.outline := by
  rw [dropDefaults, canonical, mapDefaults_mapDefaults, outline]

/-- Equal types have the same outline. -/
theorem outline_eq_of_canonical_eq {t u : DataType} (h : t.canonical = u.canonical) :
    t.outline = u.outline := by
  rw [← dropDefaults_canonical, h, dropDefaults_canonical]

/-- Two types are equal up to the defaults of nullable fields exactly if they have one outline. -/
theorem dropDefaults_beq_iff {t u : DataType} :
    (t.dropDefaults == u.dropDefaults) = true ↔ t.outline = u.outline := by
  rw [beq_eq_true_iff, canonical_dropDefaults, canonical_dropDefaults]

end DataType

namespace Record

/-- The outline is the canonical form of what is left without the defaults of nullable fields. -/
theorem canonical_dropDefaults (r : Record) : r.dropDefaults.canonical = r.outline := by
  have h := DataType.canonical_dropDefaults (.record r)
  exact DataType.record.inj h

/-- A record equals another one without the defaults of nullable fields exactly if its canonical
form is the outline of the other one. -/
theorem beq_dropDefaults_iff {s r : Record} :
    (s == r.dropDefaults) = true ↔ s.canonical = r.outline := by
  rw [beq_eq_true_iff, canonical_dropDefaults]

end Record

end AvroSchema
