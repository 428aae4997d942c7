import AvroSchema.Proofs.Types.Built
import AvroSchema.Proofs.Wire.NullBranches

/-!
# Flat Unions

Unions are written as lists, `AnyPrimitive` among them, and so are the types of nullable fields.
Avro has no unions inside unions. Documents keep to this for two reasons: whoever makes a union is
refused unions as members, and the list of a nullable field takes up the branches of a list instead
of holding the list as one branch. Which of these it does is decided by the node, not by the type.

Where types stand in a document is read off the document itself (`Json.TypeNode`).

* `Json.flatUnions_array_iff`, `Json.flatUnions_object_iff`: documents are flat if their nodes are.
* `DataType.flatUnions_write`: the invariant of the writer, by induction over types.
* `flatUnions_of_unionsChecked`: documents of types, fields, records and schemas.
-/

namespace AvroSchema

open Wire

/-! ## Type positions -/

namespace Json

/-- The keys under which a node has the node of a type. -/
def typeKeys : List String := ["type", "items", "values"]

/-- A node stands in a type position of a document: it is the document, or a branch of a list, the
type of a field, the type of items or the type of values, at any level. -/
inductive TypeNode (node : Json) : Json → Prop where
  | self : TypeNode node node
  | branch {items : List Json} {item : Json} (hi : item ∈ items) (h : TypeNode node item) :
      TypeNode node (.array items)
  | member {members : Members} {key : String} {value : Json} (hk : key ∈ typeKeys)
      (hv : Members.get? members key = some value) (h : TypeNode node value) :
      TypeNode node (.object members)
  /-- The list of the fields of a record is no type itself. -/
  | field {members : Members} {fields : List Json} {field : Json}
      (hv : Members.get? members "fields" = some (.array fields)) (hf : field ∈ fields)
      (h : TypeNode node field) : TypeNode node (.object members)

/-- Every list in a type position has at least two branches, and none of them is a list. -/
def FlatUnions (json : Json) : Prop :=
  ∀ branches, TypeNode (.array branches) json →
    2 ≤ branches.length ∧ ∀ branch ∈ branches, branch.array? = none

section

variable {items fields : List Json} {members : Members} {json : Json}

/-- No type stands inside a name. -/
theorem flatUnions_string (text : String) : (string text).FlatUnions := by
  intro branches h
  cases h

theorem flatUnions_array_iff :
    (array items).FlatUnions ↔
      2 ≤ items.length ∧ ∀ item ∈ items, item.array? = none ∧ item.FlatUnions := by
  constructor
  · intro h
    obtain ⟨hlen, hflat⟩ := h items .self
    exact ⟨hlen, fun item hi => ⟨hflat item hi, fun branches hb => h branches (.branch hi hb)⟩⟩
  · rintro ⟨hlen, hitems⟩ branches h
    cases h with
    | self => exact ⟨hlen, fun item hi => (hitems item hi).1⟩
    | branch hi h => exact (hitems _ hi).2 branches h

theorem flatUnions_object_iff :
    (object members).FlatUnions ↔
      (∀ key ∈ typeKeys, ∀ value, Members.get? members key = some value → value.FlatUnions) ∧
      ∀ fields, Members.get? members "fields" = some (.array fields) →
        ∀ field ∈ fields, field.FlatUnions := by
  constructor
  · intro h
    exact ⟨fun key hk value hv branches hb => h branches (.member hk hv hb),
      fun fields hv field hf branches hb => h branches (.field hv hf hb)⟩
  · rintro ⟨hmembers, hfields⟩ branches h
    cases h with
    | member hk hv h => exact hmembers _ hk _ hv branches h
    | field hv hf h => exact hfields _ hv _ hf branches h

/-- Only what stands under some keys decides whether the unions in an object are flat. -/
theorem FlatUnions.congr {others : Members} (h : (object members).FlatUnions)
    (hkeys : ∀ key ∈ "fields" :: typeKeys, Members.get? others key = Members.get? members key) :
    (object others).FlatUnions := by
  obtain ⟨hfields, htypes⟩ := List.forall_mem_cons.1 hkeys
  obtain ⟨hmembers, hnodes⟩ := flatUnions_object_iff.1 h
  refine flatUnions_object_iff.2 ⟨fun key hk value hv => ?_, fun fields hv => ?_⟩
  · exact hmembers key hk value (htypes key hk ▸ hv)
  · exact hnodes fields (hfields ▸ hv)

/-- The list of a nullable field is flat if the node of its type is. -/
theorem flatUnions_nullableNode (h : json.FlatUnions) : (nullableNode json).FlatUnions := by
  have hnull : (string "null").array? = none ∧ (string "null").FlatUnions :=
    ⟨rfl, flatUnions_string "null"⟩
  cases ha : json.array? with
  | some items =>
    -- the branches are taken up one by one
    obtain rfl : json = .array items := by
      cases json <;> cases ha
      rfl
    obtain ⟨hlen, hitems⟩ := flatUnions_array_iff.1 h
    exact flatUnions_array_iff.2 ⟨Nat.le_succ_of_le hlen, List.forall_mem_cons.2 ⟨hnull, hitems⟩⟩
  | none =>
    have hbranches : branchesOf json = [json] := branchesOf_of_ne fun items he => by
      rw [he] at ha
      cases ha
    rw [nullableNode_eq, hbranches, flatUnions_array_iff]
    exact ⟨Nat.le_refl 2, List.forall_mem_cons.2 ⟨hnull, List.forall_mem_singleton.2 ⟨ha, h⟩⟩⟩

end

end Json

/-! ## Checked unions -/

namespace DataType

/-- Every union in a type was made by the function that checks its members. Unions are made in no
other way. -/
def UnionsChecked (t : DataType) : Prop :=
  ∀ members, (union members).Within t →
    strictUnion (members.map UnionMember.type) = .ok (union members)

section

variable {t m : DataType} {ts : List DataType} {space : Option String}
  {table : Definitions}

theorem UnionsChecked.of_child (h : t.UnionsChecked) (hm : m ∈ t.children) : m.UnionsChecked :=
  fun members hu => h members (.child hm hu)

/-- What is built from checked parameters, or read from a document, has checked unions only. -/
theorem Built.unionsChecked (h : t.Built) : t.UnionsChecked := by
  intro members hu
  have ha := admissible_of_within hu h.admissible
  obtain ⟨ts, rfl⟩ := exists_tagged_of_admissible ha
  have hunion := unionOf_of_admissible ha
  obtain ⟨-, -, hany, -⟩ := admissible_union_iff.1 ha
  rw [unionOf, hany, if_neg Bool.false_ne_true] at hunion
  rwa [map_type_tagged]

/-- A union that was checked has at least two members, and none of them is a union. -/
theorem UnionsChecked.of_members? (h : t.UnionsChecked) (hm : t.members? = some ts) :
    2 ≤ ts.length ∧ ∀ m ∈ ts, m.isUnion = false := by
  rcases members?_cases hm with ⟨members, rfl, rfl⟩ | ⟨rfl, rfl⟩
  · exact exists_unionOf_iff.1 ⟨_, unionOf_of_strictUnion (h members .refl)⟩
  · decide

/-- The parts of a named type are among the types that it is made of. -/
theorem UnionsChecked.of_mem_parts (h : t.UnionsChecked) (hm : m ∈ t.parts) : m.UnionsChecked := by
  cases t with
  | record r => exact h.of_child hm
  | _ => cases hm

end

end DataType

/-! ## Written documents -/

open Json

/-- The node of a primitive type names its Avro type, and there are no other types inside. -/
theorem Primitive.flatUnions_node (p : Primitive) : p.node.FlatUnions := by
  cases p with
  | plain kind h => cases kind <;> simp [node, flatUnions_object_iff, typeKeys, flatUnions_string]
  | _ => simp [node, flatUnions_object_iff, typeKeys, flatUnions_string]

/-- `AnyPrimitive` is written as the list of its members, and no other primitive type as a list. -/
theorem Primitive.flatUnions_wire (p : Primitive) : p.wire.FlatUnions := by
  rcases p.wire_cases with rfl | ⟨-, hw⟩
  · refine flatUnions_array_iff.2 ⟨by decide, List.forall_mem_map.2 fun q _ => ?_⟩
    exact ⟨by rw [node_eq]; rfl, q.flatUnions_node⟩
  · rw [hw]
    exact p.flatUnions_node

/-- Only the type of a field is a type in its node. -/
theorem Field.flatUnions_node (f : Field) {type : Json} (h : type.FlatUnions) :
    (f.node type).FlatUnions := by
  rw [node_eq, flatUnions_object_iff]
  refine ⟨fun key hk value hv => ?types, fun fields hv => ?fields⟩
  case types =>
    simp only [typeKeys, List.mem_cons, List.not_mem_nil, or_false] at hk
    rcases hk with rfl | rfl | rfl
    · rw [get?_members_type, Option.some.injEq] at hv
      rw [← hv]
      split
      · exact flatUnions_nullableNode h
      · exact h
    · rw [get?_members_of_mem f type (by simp)] at hv
      cases hv
    · rw [get?_members_of_mem f type (by simp)] at hv
      cases hv
  case fields =>
    rw [get?_members_of_mem f type (by simp)] at hv
    cases hv

/-- The nodes of fields are flat if the nodes of their types are. -/
theorem Field.flatUnions_zipWith_node {fields : List Field} {types : List Json}
    (h : ∀ type ∈ types, type.FlatUnions) :
    ∀ node ∈ List.zipWith Field.node fields types, node.FlatUnions := by
  induction fields generalizing types with
  | nil => nofun
  | cons f rest ih =>
    cases types with
    | nil => nofun
    | cons type others =>
      obtain ⟨htype, hothers⟩ := List.forall_mem_cons.1 h
      exact List.forall_mem_cons.2 ⟨f.flatUnions_node htype, ih hothers⟩

/-- The fields of a record are all that has types in its node. -/
theorem Record.flatUnions_members (r : Record) {nodes : List Json}
    (h : ∀ node ∈ nodes, node.FlatUnions) : (Json.object (r.members nodes)).FlatUnions := by
  simpa [members, flatUnions_object_iff, typeKeys, flatUnions_string] using h

namespace DataType

/-- The definition of a type has no other types inside than its parts. -/
theorem flatUnions_definition (t : DataType) {nodes : List Json}
    (h : ∀ node ∈ nodes, node.FlatUnions) : (t.definition nodes).FlatUnions := by
  cases t with
  | primitive p => exact p.flatUnions_wire
  | record r => exact r.flatUnions_members (Field.flatUnions_zipWith_node h)
  | _ => nofun

/-- What is written for a type is flat, whatever was written before, if its unions were checked. -/
theorem flatUnions_write {t : DataType} (hu : t.UnionsChecked) (space : Option String)
    (table : Definitions) : (t.write space table).1.FlatUnions := by
  induction t using namedInduction generalizing space table with
  | unnamed p hp =>
    rw [write_unnamed hp]
    exact p.flatUnions_wire
  | union members ih =>
    obtain ⟨hlen, hunions⟩ := hu.of_members? rfl
    rw [write_of_members? rfl, flatUnions_array_iff, length_writeAll]
    refine ⟨hlen, fun node hnode => ?_⟩
    obtain ⟨m, hm, before, rfl⟩ := exists_write_of_mem_writeAll hnode
    -- a member is written as a list only if it is a union
    have hlist := isSome_array?_write m space before
    rw [hunions m hm] at hlist
    exact ⟨Option.not_isSome_iff_eq_none.1 (by simp [hlist]), ih m hm (hu.of_child hm) space before⟩
  | array items ih =>
    have hitems := ih (hu.of_child (List.mem_singleton_self items)) space table
    simp [write, flatUnions_object_iff, typeKeys, flatUnions_string, hitems]
  | map values ih =>
    have hvalues := ih (hu.of_child (List.mem_singleton_self values)) space table
    simp [write, flatUnions_object_iff, typeKeys, flatUnions_string, hvalues]
  | named t ht ih =>
    obtain ⟨name, hn⟩ := exists_fullName? ht space
    cases hs : table.standsFor name t with
    | true =>
      rw [write_of_standsFor hn hs]
      exact flatUnions_string name
    | false =>
      rw [write_of_not_standsFor hn hs]
      refine t.flatUnions_definition fun node hnode => ?_
      obtain ⟨u, hmem, before, rfl⟩ := exists_write_of_mem_writeAll hnode
      exact ih u hmem (hu.of_mem_parts hmem) _ before

end DataType

/-! ## Documents of fields, records and schemas -/

theorem Field.flatUnions_wire {f : Field} (hu : f.type.UnionsChecked) : f.wire.FlatUnions := by
  rw [wire, write_eq]
  exact f.flatUnions_node (DataType.flatUnions_write hu none [])

theorem Record.flatUnions_wire {r : Record} (hu : (DataType.record r).UnionsChecked) :
    r.wire.FlatUnions := by
  rw [wire, wireMembers_eq]
  refine r.flatUnions_members (Field.flatUnions_zipWith_node fun type htype => ?_)
  obtain ⟨t, ht, before, rfl⟩ := DataType.exists_write_of_mem_writeAll htype
  exact DataType.flatUnions_write (hu.of_mem_parts ht) _ before

/-- The keys of governance metadata are not among those under which types stand. -/
theorem Governance.key_notMem_typeKeys (g : Governance) :
    ∀ e ∈ g.members, e.1 ∉ "fields" :: typeKeys := by
  simp [members, typeKeys]

theorem ValueSchema.flatUnions_document {s : ValueSchema}
    (hu : (DataType.record s.record).UnionsChecked) : (SchemaTree.document s).FlatUnions := by
  refine (Record.flatUnions_wire hu).congr fun key hk => Json.Members.get?_foldl_insert ?_ _
  rintro e he rfl
  exact s.governance.key_notMem_typeKeys e he hk

/-- A nullable field of a union has the list of its null branch and the branches of the members. -/
theorem Field.get?_type_of_members? {f : Field} {ts : List DataType} (hnull : f.nullable = true)
    (hm : f.type.members? = some ts) (space : Option String) (table : Definitions) :
    Members.get? (f.members (f.type.write space table).1) "type" =
      some (.array (.string "null" :: (DataType.writeAll space ts table).1)) := by
  rw [get?_members_type, hnull, if_pos rfl, DataType.write_of_members? hm, nullableNode_eq,
    branchesOf]

/-! ## Main result -/

/-- In the documents of types, fields, records and schemas no list in a type position has a list
among its branches, and every such list has at least two of them. All that this takes is that unions
are made by the function that checks their members; whatever is built is such. A nullable field of a
union, which may be `AnyPrimitive`, is written as one list: a null branch, and then the members in
their order. -/
theorem flatUnions_of_unionsChecked :
    (∀ t : DataType, t.Built → t.UnionsChecked) ∧
    (∀ t : DataType, t.UnionsChecked → t.wire.FlatUnions) ∧
    (∀ f : Field, f.type.UnionsChecked → f.wire.FlatUnions) ∧
    (∀ r : Record, (DataType.record r).UnionsChecked → r.wire.FlatUnions) ∧
    (∀ s : RootSchema, (DataType.record s.record).UnionsChecked →
      (SchemaTree.document s).FlatUnions) ∧
    (∀ s : ValueSchema, (DataType.record s.record).UnionsChecked →
      (SchemaTree.document s).FlatUnions) ∧
    (∀ s : KeySchema, (DataType.record s.record).UnionsChecked →
      (SchemaTree.document s).FlatUnions) ∧
    ∀ (f : Field) (ts : List DataType) (space : Option String) (table : Definitions),
      f.nullable = true → f.type.members? = some ts →
      ∃ members, (f.write space table).1 = .object members ∧
        Members.get? members "type" =
          some (.array (.string "null" :: (DataType.writeAll space ts table).1)) := by
  refine ⟨fun t ht => ht.unionsChecked, fun t hu => DataType.flatUnions_write hu none [],
    fun f hu => Field.flatUnions_wire hu, fun r hu => Record.flatUnions_wire hu,
    fun s hu => Record.flatUnions_wire hu, fun s hu => ValueSchema.flatUnions_document hu,
    fun s hu => Record.flatUnions_wire hu, fun f ts space table hnull hm => ?_⟩
  refine ⟨f.members (f.type.write space table).1, ?_, f.get?_type_of_members? hnull hm space table⟩
  rw [Field.write_eq, Field.node_eq]

/-- An answer that may be missing: a number, or any values under their topics. -/
def answer : Field where
  name := "answer"
  type := .union (List.map DataType.tagged [.plain .int (.refl true),
    .map (.plain .anyPrimitive (.refl true))])

/-- A remark of any primitive type. -/
def remark : Field := { name := "remark", type := .plain .anyPrimitive (.refl true) }

/-- An answer with a remark. -/
def survey : Record := { name := "survey", fields := [answer, remark] }

/-- The unions of the survey are flat, and the missing answer stands before the other two. -/
theorem survey_flatUnions :
    (DataType.record survey).Built ∧ survey.wire.FlatUnions ∧
      (SchemaTree.document ({ record := survey } : ValueSchema)).FlatUnions ∧
      answer.nullable = true ∧
      answer.type.members? = some [.plain .int, .map (.plain .anyPrimitive)] ∧
      ∃ members, (answer.write none []).1 = .object members ∧
        Members.get? members "type" = some (.array (.string "null" ::
          (DataType.writeAll none [.plain .int, .map (.plain .anyPrimitive)] []).1)) := by
  obtain ⟨hbuilt, -, -, hrecord, -, hvalue, -, hfield⟩ := flatUnions_of_unionsChecked
  have hanswer : answer.type.Built :=
    .union (List.forall_mem_cons.2 ⟨.plain .int rfl,
      List.forall_mem_singleton.2 (.map (.plain .anyPrimitive rfl))⟩) rfl
  have hremark : remark.type.Built := .plain .anyPrimitive rfl
  have hsurvey : (DataType.record survey).Built :=
    Record.built_of_addFields (.empty "survey" none none)
      (List.forall_mem_cons.2 ⟨hanswer, List.forall_mem_singleton.2 hremark⟩) rfl
  exact ⟨hsurvey, hrecord survey (hbuilt _ hsurvey), hvalue _ (hbuilt _ hsurvey), rfl, rfl,
    hfield answer _ none [] rfl rfl⟩

end AvroSchema
