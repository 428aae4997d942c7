import AvroSchema.Proofs.Wire.Outlines

/-!
# Null Branches

The type of a nullable field is written as a list that starts with a null branch. Nothing keeps the
null type from being a member of a union as well, or the whole type of a nullable field; then the
list has another null branch, which is an object and no name, so that the reader does not take it
for the nullability of the field.

* `DataType.exists_unionOf_iff`, `DataType.alternatives_of_unionOf`: which types make a union, and
  that it has them as its members.
* `Field.countP_isNullType`: the list of a field has one null branch if the field is nullable, and
  one for every alternative of its type that is the null type.
-/

namespace AvroSchema

open Wire

/-! ## Alternatives -/

namespace DataType

/-- The types that a value of a type may have: those of the members of a union, or else the type
itself. -/
def alternatives (t : DataType) : List DataType := t.members?.getD [t]

/-- Whether a type is the null type. -/
def isNull : DataType → Bool
  | .primitive p => p.kind == .null
  | _ => false

/-- A union is made from some types, which a constructor is given, or which a reader finds in a list
of at least two branches other than null. -/
inductive MadeFrom (ts : List DataType) (t : DataType) : Prop where
  | strictUnion (h : DataType.strictUnion ts = .ok t)
  | unionOf (h : DataType.unionOf ts = .ok t)
  | branches {limit levels : Nat} {space : Option String} {items : List Json}
    {table between left : Definitions} {nullable : Bool}
    (hs : 2 ≤ (items.filter (!isNullBranch ·)).length)
    (hm : Gives ((items.filter (!isNullBranch ·)).mapM (readType (Wire.inner limit levels) space))
      table ts between)
    (h : Gives (Wire.branches limit (levels + 1) space items) table (t, nullable) left)

/-- The kind of a primitive type without parameters. -/
def plainKind? : DataType → Option Kind
  | .primitive (.plain kind _) => some kind
  | _ => none

theorem plainKind?_eq_some_iff {t : DataType} {kind : Kind} :
    t.plainKind? = some kind ↔ ∃ h, t = .plain kind h := by
  constructor
  · intro ht
    unfold plainKind? at ht
    split at ht
    · obtain rfl := Option.some.inj ht
      exact ⟨_, rfl⟩
    · cases ht
  · rintro ⟨h, rfl⟩
    rfl

/-- Types of plain kinds are determined by these kinds. -/
theorem eq_of_map_plainKind? {ts us : List DataType} (hu : ∀ u ∈ us, u.plainKind?.isSome = true)
    (h : ts.map plainKind? = us.map plainKind?) : ts = us := by
  induction us generalizing ts with
  | nil => exact List.map_eq_nil_iff.1 h
  | cons u us ih =>
    obtain ⟨t, rest, rfl, ht, hrest⟩ := List.map_eq_cons_iff.1 h
    rw [List.forall_mem_cons] at hu
    -- a type of a plain kind is nothing but that kind
    obtain ⟨kind, hkind⟩ := Option.isSome_iff_exists.1 hu.1
    obtain ⟨_, rfl⟩ := plainKind?_eq_some_iff.1 hkind
    obtain ⟨_, rfl⟩ := plainKind?_eq_some_iff.1 (ht.trans hkind)
    rw [ih hu.2 hrest]

/-- Only the members of `AnyPrimitive` are taken for them. -/
theorem eq_of_areAnyPrimitive {ts : List DataType} (h : areAnyPrimitive ts = true) :
    ts = anyPrimitiveMembers := by
  have hkinds : ts.map plainKind? = anyPrimitiveMembers.map plainKind? := eq_of_beq h
  exact eq_of_map_plainKind? (by decide) hkinds

/-- Any types make a union if there are at least two of them and none is a union itself. -/
theorem exists_unionOf_iff {ts : List DataType} :
    (∃ t, DataType.unionOf ts = .ok t) ↔ 2 ≤ ts.length ∧ ∀ m ∈ ts, m.isUnion = false := by
  have hself : 2 ≤ anyPrimitiveMembers.length ∧ ∀ m ∈ anyPrimitiveMembers, m.isUnion = false := by
    decide
  -- whatever the fault is, it keeps the types from making a union
  have hfault {e : SchemaError} : ¬ ∃ t : DataType, Except.error e = .ok t := by
    rintro ⟨t, ht⟩
    cases ht
  unfold DataType.unionOf DataType.strictUnion
  split
  · next hany =>
    rw [eq_of_areAnyPrimitive hany]
    exact iff_of_true ⟨_, rfl⟩ hself
  split
  · next hlen => exact iff_of_false hfault fun h => Nat.not_lt.2 h.1 hlen
  split
  · next hunion =>
    obtain ⟨m, hm, hu⟩ := List.any_eq_true.1 hunion
    refine iff_of_false hfault fun h => ?_
    rw [h.2 m hm] at hu
    cases hu
  · next hlen hunion =>
    refine iff_of_true ⟨_, rfl⟩ ⟨Nat.not_lt.1 hlen, fun m hm => ?_⟩
    exact Bool.eq_false_iff.2 fun hu => hunion (List.any_eq_true.2 ⟨m, hm, hu⟩)

/-- A union has members of the types that it was made from. -/
theorem alternatives_of_unionOf {ts : List DataType} {t : DataType}
    (h : DataType.unionOf ts = .ok t) : t.alternatives = ts := by
  unfold DataType.unionOf DataType.strictUnion at h
  split at h
  · next hany =>
    -- the members of `AnyPrimitive` are not kept, but they are those of that type
    rw [← Except.ok.inj h, eq_of_areAnyPrimitive hany]
    rfl
  split at h
  · cases h
  split at h
  · cases h
  rw [← Except.ok.inj h]
  exact map_type_tagged ts

/-- All ways to make a union from some types come to the same. -/
theorem madeFrom_iff {ts : List DataType} {t : DataType} :
    MadeFrom ts t ↔ DataType.unionOf ts = .ok t := by
  refine ⟨fun h => ?_, .unionOf⟩
  cases h with
  | strictUnion h => exact unionOf_of_strictUnion h
  | unionOf h => exact h
  | branches hs hm h =>
    obtain ⟨us, hus, hu, -⟩ := (gives_readBranches_several hs).1 h
    -- a list of branches is read in one way only
    cases hm.symm.trans hus
    exact hu

end DataType

/-! ## Null branches of fields -/

/-- Whether a node is a null branch: the name of the null type, or an object of that type. -/
def Json.isNullType (json : Json) : Bool := isNullBranch json || json.typeTag? == some "null"

namespace DataType

section

variable {t : DataType} {ts : List DataType} {space : Option String} {table : Definitions}

theorem tag?_eq_null_iff : t.tag? = some "null" ↔ t.isNull = true := by
  cases t with
  | primitive p =>
    rw [tag?, isNull, beq_iff_eq]
    cases p.kind <;> simp [Kind.tag?]
  | _ => simp [tag?, isNull]

/-- Apart from types of the full name null, the null type is the only one that is written as a null
branch. -/
theorem isNullType_write (hn : "null" ∉ t.names space) :
    (t.write space table).1.isNullType = t.isNull := by
  by_cases hw : ∃ name, (t.write space table).1 = .string name
  · -- a type that is written as a name has that full name, which the null type has not
    obtain ⟨name, hw⟩ := hw
    have hfull := fullName?_of_write_eq_string hw
    rw [names_of_fullName? hfull, List.mem_cons, not_or] at hn
    have hnull : t.isNull = false := by
      cases t with
      | primitive p =>
        obtain ⟨n, hp, -⟩ := Option.map_eq_some_iff.1 hfull
        rcases Primitive.kind_of_wireName? hp with hk | hk | hk <;> simp [isNull, hk]
      | _ => rfl
    rw [hw, hnull]
    simp [Json.isNullType, isNullBranch, Json.string?, Json.typeTag?, Ne.symm hn.1]
  · have hw : ∀ name, (t.write space table).1 ≠ .string name := fun name he => hw ⟨name, he⟩
    have hbranch : isNullBranch (t.write space table).1 = false := by
      rw [Bool.eq_false_iff, ne_eq, isNullBranch_iff]
      exact hw "null"
    rw [Json.isNullType, hbranch, typeTag?_write hw, Bool.false_or, Bool.eq_iff_iff, beq_iff_eq]
    exact tag?_eq_null_iff

/-- Members are written as null branches where they are the null type. -/
theorem countP_isNullType_writeAll (hn : ∀ t ∈ ts, "null" ∉ t.names space) :
    (writeAll space ts table).1.countP Json.isNullType = ts.countP isNull := by
  induction ts generalizing table with
  | nil => rfl
  | cons t ts ih =>
    -- the members are written with different tables, which null branches do not depend on
    rw [List.forall_mem_cons] at hn
    rw [writeAll, List.countP_cons, List.countP_cons, isNullType_write hn.1, ih hn.2]

end

end DataType

/-- The list of a field has one null branch if the field is nullable, and one for every alternative
of its type that is the null type. -/
theorem Field.countP_isNullType {f : Field} {space : Option String} {table : Definitions}
    {branches : List Json} (hn : "null" ∉ f.type.names space)
    (hb : Json.Members.get? (f.members (f.type.write space table).1) "type" =
      some (.array branches)) :
    branches.countP Json.isNullType = f.nullable.toNat + f.type.alternatives.countP (·.isNull) := by
  rw [get?_members_type, Option.some.injEq] at hb
  -- the branches of the type itself, which the field takes up
  have hcount : (branchesOf (f.type.write space table).1).countP Json.isNullType =
      f.type.alternatives.countP (·.isNull) := by
    cases hm : f.type.members? with
    | some ts =>
      have hts : ∀ t ∈ ts, "null" ∉ t.names space := by
        intro t ht hmem
        rw [DataType.names_of_members? hm] at hn
        exact hn (List.mem_flatMap.2 ⟨t, ht, hmem⟩)
      rw [DataType.write_of_members? hm, branchesOf, DataType.alternatives, hm, Option.getD_some]
      exact DataType.countP_isNullType_writeAll hts
    | none =>
      rw [branchesOf_of_ne, DataType.alternatives, hm, Option.getD_none]
      · simp [List.countP_cons, DataType.isNullType_write hn]
      · -- only unions are written as lists
        intro items he
        have hs := DataType.isSome_array?_write f.type space table
        rw [← DataType.isSome_members?, hm, he] at hs
        cases hs
  cases hf : f.nullable with
  | true =>
    rw [hf, if_pos rfl, nullableNode_eq, Json.array.injEq] at hb
    rw [← hb, List.countP_cons, hcount, Nat.add_comm]
    rfl
  | false =>
    rw [hf, if_neg Bool.false_ne_true] at hb
    rw [hb, branchesOf] at hcount
    rw [hcount, Bool.toNat_false, Nat.zero_add]

/-! ## Main result -/

/-- Any types make a union if there are at least two of them and none is a union itself, so the null
type may be one of them, and a union has exactly the members that it was made from. The list that
is written as the type of a field has one null branch if the field is nullable, and one for every
alternative that is the null type. So nullability is in the field alone exactly if there is no such
alternative. -/
theorem null_members_and_branches (ts : List DataType) :
    ((∃ t, DataType.MadeFrom ts t) ↔ 2 ≤ ts.length ∧ ∀ t ∈ ts, t.isUnion = false) ∧
    (∀ t, DataType.MadeFrom ts t → t.alternatives = ts) ∧
    ∀ (f : Field) (space : Option String) (table : Definitions) (members : Json.Members)
      (branches : List Json), f.type.alternatives = ts → "null" ∉ f.type.names space →
      (f.write space table).1 = .object members →
      Json.Members.get? members "type" = some (.array branches) →
      branches.countP Json.isNullType = f.nullable.toNat + ts.countP DataType.isNull ∧
      (branches.countP Json.isNullType = f.nullable.toNat ↔ ∀ t ∈ ts, t.isNull = false) := by
  refine ⟨?made, fun t h => DataType.alternatives_of_unionOf (DataType.madeFrom_iff.1 h), ?fields⟩
  case made =>
    simp only [DataType.madeFrom_iff]
    exact DataType.exists_unionOf_iff
  case fields =>
    rintro f space table members branches rfl hn hw hb
    rw [Field.write_eq, Field.node_eq, Json.object.injEq] at hw
    have hcount := Field.countP_isNullType hn (hw ▸ hb)
    refine ⟨hcount, ?_⟩
    -- no alternative is counted exactly if none is the null type
    rw [hcount, Nat.add_eq_left, List.countP_eq_zero]
    simp only [Bool.not_eq_true]

/-- An amount that is null or a number, in a field that is nullable by itself. -/
def amount : Field where
  name := "amount"
  type := .union (List.map DataType.tagged [.plain .null, .plain .int])

/-- The branches of the amount. -/
def amountBranches : List Json :=
  [.string "null", .object [("logicalType", .string "NULL"), ("type", .string "null")],
    .object [("logicalType", .string "INT"), ("type", .string "int")]]

/-- The amount has one null branch for itself and one for the member of its union. -/
theorem amount_null_branches :
    amount.type.alternatives = [.plain .null, .plain .int] ∧
      "null" ∉ amount.type.names none ∧
      Json.Members.get? (amount.members amount.type.wire) "type" = some (.array amountBranches) ∧
      amountBranches.countP Json.isNullType =
        amount.nullable.toNat + [.plain .null, .plain .int].countP DataType.isNull := by
  obtain ⟨-, hmembers, hfields⟩ := null_members_and_branches [.plain .null, .plain .int]
  have halternatives := hmembers amount.type (.unionOf rfl)
  have hn : "null" ∉ amount.type.names none := by decide
  have hb : Json.Members.get? (amount.members amount.type.wire) "type" =
      some (.array amountBranches) := by rfl
  obtain ⟨hcount, -⟩ := hfields amount none [] _ amountBranches halternatives hn rfl hb
  exact ⟨halternatives, hn, hb, hcount⟩

/-- Both constructors and the reader make a union with the null type as a member, and then the list
of a nullable field has two null branches. -/
theorem amount_two_null_branches :
    DataType.strictUnion [.plain .null, .plain .int] = .ok amount.type ∧
      DataType.unionOf [.plain .null, .plain .int] = .ok amount.type ∧
      DataType.ofWire 64 (.array [.object [("type", .string "null")],
        .object [("type", .string "int")]]) = .ok (amount.type, false) ∧
      Json.Members.get? (amount.members amount.type.wire) "type" = some (.array amountBranches) ∧
      amountBranches.countP Json.isNullType = 2 := by
  exact ⟨rfl, rfl, rfl, rfl, by decide⟩

end AvroSchema
