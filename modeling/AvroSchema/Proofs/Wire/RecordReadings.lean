import AvroSchema.Proofs.Wire.Readings

/-!
# Reading Records and Fields

The members of a record document and of a field node are looked up by their keys, so what a reading
of them gives depends only on a few members: `Wire.Describes` names those of a record, and further
members, such as governance metadata, do not matter.

A field is read back with the type that its node gives. Its default value is the one that was
written, unless the field is nullable; then it is lost (`Field.reloaded`).

* `Wire.gives_readRecord`: a record is read from the readings of its fields.
* `Wire.exists_gives_node_of_gives_field`: a field is read from a reading of the node of its type.
* `Wire.gives_field_of_gives_node`: and from every reading of that node that is deep enough.
-/

namespace AvroSchema

namespace Wire

/-! ## Records -/

/-- Members that describe a record with some nodes as its fields. -/
structure Describes (members : Json.Members) (r : Record) (nodes : List Json) : Prop where
  /-- The kind of schema. -/
  type : text? members "type" = some "record"
  /-- The name. -/
  name : text? members "__originalname" = some r.name
  /-- The escaped name. -/
  wireName : text? members "name" = some (Name.escape r.name)
  /-- The namespace. -/
  space : text? members "namespace" = r.space
  /-- The description. -/
  doc : text? members "doc" = r.doc
  /-- The fields. -/
  fields : (Json.Members.get? members "fields").bind Json.array? = some nodes

/-- The keys of the members that describe a record. -/
def recordKeys : List String := ["__originalname", "doc", "fields", "name", "namespace", "type"]

/-- The members of the node of a record describe it. -/
theorem describes_members (r : Record) (nodes : List Json) :
    Describes (r.members nodes) r nodes where
  type := rfl
  name := rfl
  wireName := rfl
  space := by
    cases h : r.space <;>
      simp [text?, Record.members, Json.ofString?, h, Json.string?]
  doc := by
    cases h : r.doc <;>
      simp [text?, Record.members, Json.ofString?, h, Json.string?]
  fields := rfl

/-- Members under other keys do not matter for the description of a record. -/
theorem Describes.congr {members others : Json.Members} {r : Record} {nodes : List Json}
    (h : Describes members r nodes) (hk : ∀ key ∈ recordKeys,
      Json.Members.get? others key = Json.Members.get? members key) :
    Describes others r nodes := by
  have ht : ∀ key ∈ recordKeys, text? others key = text? members key := by
    intro key hm
    rw [text?, text?, hk key hm]
  refine ⟨?_, ?_, ?_, ?_, ?_, ?_⟩
  · rw [ht _ (by decide), h.type]
  · rw [ht _ (by decide), h.name]
  · rw [ht _ (by decide), h.wireName]
  · rw [ht _ (by decide), h.space]
  · rw [ht _ (by decide), h.doc]
  · rw [hk _ (by decide), h.fields]

section

variable {inner : Inner} {limit levels : Nat} {space : Option String} {members : Json.Members}
  {nodes : List Json} {r s : Record} {table left : Definitions}

/-- Fields are added to a record exactly if no name is repeated. -/
theorem gives_readFields (hr : r.fieldNames.Nodup) :
    Gives (readFields inner space r nodes) table s left ↔
      ∃ fs, Gives (nodes.mapM (inner.field space)) table fs left ∧
        s = { r with fields := r.fields ++ fs } ∧ s.fieldNames.Nodup := by
  induction nodes generalizing r table with
  | nil =>
    simp only [readFields, gives_pure, gives_mapM_nil]
    constructor
    · rintro ⟨rfl, rfl⟩
      exact ⟨[], ⟨rfl, rfl⟩, by cases s; simp, hr⟩
    · rintro ⟨_, ⟨rfl, rfl⟩, rfl, -⟩
      exact ⟨by cases r; simp, rfl⟩
  | cons node rest ih =>
    -- the invariant is that the names so far are distinct, which each new field has to keep
    simp only [readFields, gives_bind, gives_lift, gives_mapM_cons, Record.addField_eq_ok_iff]
    constructor
    · rintro ⟨f, between, hf, _, _, ⟨⟨hnew, rfl⟩, rfl⟩, h⟩
      have hnames : { r with fields := r.fields ++ [f] }.fieldNames = r.fieldNames ++ [f.name] := by
        simp [Record.fieldNames]
      have hd : { r with fields := r.fields ++ [f] }.fieldNames.Nodup := by
        rw [hnames, List.nodup_append]
        refine ⟨hr, by simp, ?_⟩
        rintro name hm _ ho rfl
        exact hnew (List.mem_singleton.1 ho ▸ hm)
      obtain ⟨fs, hfs, rfl, hs⟩ := (ih hd).1 h
      exact ⟨f :: fs, ⟨f, _, fs, hf, hfs, rfl⟩, by simp, hs⟩
    · rintro ⟨_, ⟨f, between, fs, hf, hfs, rfl⟩, rfl, hs⟩
      have hall : (r.fieldNames ++ f.name :: fs.map Field.name).Nodup := by
        simpa [Record.fieldNames] using hs
      obtain ⟨-, -, hdis⟩ := List.nodup_append.1 hall
      have hnew : f.name ∉ r.fieldNames := fun hm => hdis _ hm _ List.mem_cons_self rfl
      have hd : { r with fields := r.fields ++ [f] }.fieldNames.Nodup := by
        have h : (r.fieldNames ++ [f.name] ++ fs.map Field.name).Nodup := by simpa using hall
        simpa [Record.fieldNames] using (List.nodup_append.1 h).1
      refine ⟨f, between, hf, _, _, ⟨⟨hnew, rfl⟩, rfl⟩, ?_⟩
      exact (ih hd).2 ⟨fs, hfs, by simp, by simpa using hs⟩

/-- A record is read field by field, and is defined afterwards. -/
theorem gives_readRecord (h : Describes members r nodes) :
    Gives (readRecord inner space members) table s left ↔
      ∃ fs between, Gives (nodes.mapM (inner.field (r.space <|> space))) table fs between ∧
        (fs.map Field.name).Nodup ∧ s = { r with fields := fs } ∧
        left = between.define (r.fullName space) (.record s) := by
  have hname : logicalName members = .ok r.name := by simp [logicalName, h.name]
  have hempty : ({ name := r.name, space := r.space, doc := r.doc } : Record).fieldNames.Nodup :=
    List.nodup_nil
  unfold readRecord
  simp only [gives_bind, gives_lift, hname, h.space, h.doc, h.fields, define, h.wireName,
    gives_modify, gives_pure, Except.ok.injEq]
  constructor
  · rintro ⟨_, _, ⟨rfl, rfl⟩, _, _, hr, _, _, rfl, rfl, rfl⟩
    obtain ⟨fs, hfs, rfl, hd⟩ := (gives_readFields hempty).1 hr
    exact ⟨fs, _, hfs, by simpa [Record.fieldNames] using hd, by simp, rfl⟩
  · rintro ⟨fs, between, hfs, hd, rfl, rfl⟩
    have hr := (gives_readFields (s := { r with fields := fs }) hempty).2
      ⟨fs, hfs, by simp, by simpa [Record.fieldNames] using hd⟩
    exact ⟨r.name, table, ⟨rfl, rfl⟩, _, between, hr, (), _, rfl, rfl, rfl⟩

/-- The node of a record gives the record that it describes. -/
theorem gives_node_record {t : DataType} {nullable : Bool} :
    Gives (node limit (levels + 1) space (.object (r.members nodes))) table (t, nullable) left ↔
      ∃ s, Gives (readRecord (Wire.inner limit levels) space (r.members nodes)) table s left ∧
        t = .record s ∧ nullable = false := by
  have hread : node limit (levels + 1) space (.object (r.members nodes)) =
      Functor.map (fun s => (DataType.record s, false))
        (readRecord (Wire.inner limit levels) space (r.members nodes)) := by
    simp only [node, readNode, readObject, Record.members, Json.Members.get?_cons,
      bind_pure_comp]
    rfl
  rw [hread, gives_map]
  simp only [Prod.mk.injEq]

end

end Wire

/-! ## Fields -/

namespace Field

/-- The field as it is read back with some type: a nullable field has lost its default value. -/
def reloaded (f : Field) (t : DataType) : Field :=
  { f with type := t, defaultValue := if f.nullable then none else f.defaultValue }

/-- The members of the node of a field. -/
def members (f : Field) (type : Json) : Json.Members :=
  match f.node type with
  | .object members => members
  | _ => []

theorem node_eq (f : Field) (type : Json) : f.node type = .object (f.members type) := rfl

section

variable (f : Field) (type : Json)

/-- Keys that the nodes of fields do not use. -/
theorem get?_members_of_mem {key : String}
    (h : key ∈ ["logicalType", "values", "symbols", "size", "items", "fields"]) :
    Json.Members.get? (f.members type) key = none := by
  simp only [List.mem_cons, List.not_mem_nil, or_false] at h
  -- the default value and the description are members only if there are any
  rcases h with rfl | rfl | rfl | rfl | rfl | rfl <;>
    cases hd : (if f.nullable then some Json.null else f.defaultValue) <;>
    cases ho : f.doc <;>
    simp [members, node, hd, ho, Json.Members.get?_cons]

theorem get?_members_type :
    Json.Members.get? (f.members type) "type" =
      some (if f.nullable then nullableNode type else type) := by
  cases hd : (if f.nullable then some Json.null else f.defaultValue) <;>
    cases ho : f.doc <;>
    simp [members, node, hd, ho, Json.Members.get?_cons]

theorem get?_members_default :
    Json.Members.get? (f.members type) "default" =
      if f.nullable then some .null else f.defaultValue := by
  cases hd : (if f.nullable then some Json.null else f.defaultValue) <;>
    cases ho : f.doc <;>
    simp [members, node, hd, ho, Json.Members.get?_cons]

theorem text?_members_doc : Wire.text? (f.members type) "doc" = f.doc := by
  cases hd : (if f.nullable then some Json.null else f.defaultValue) <;>
    cases ho : f.doc <;>
    simp [Wire.text?, members, node, hd, ho, Json.string?]

theorem text?_members_sourceType :
    Wire.text? (f.members type) "__source_data_type" = f.sourceType := by
  cases h : f.sourceType <;>
    simp [Wire.text?, members, node, Json.string?, h,
      Json.ofString?]

end

end Field

/-- The name of a class of sensitivity tells it apart from all others. -/
theorem Sensitivity.ofName?_name (s : Sensitivity) : Sensitivity.ofName? s.name = some s := by
  cases s <;> rfl

namespace Wire

section

variable {inner : Inner} {limit levels : Nat} {space : Option String} {f g : Field} {json : Json}
  {table left : Definitions} {t : DataType} {nullable : Bool}

/-- The node of a field gives the field with the type and the nullability that are read. -/
theorem gives_readField :
    Gives (readField inner space (f.node json)) table g left ↔
      ∃ t nullable, Gives (readObject inner space (f.members json)) table (t, nullable) left ∧
        g = { f with
          type := t
          nullable
          defaultValue := if nullable then none
            else if f.nullable then some .null else f.defaultValue } := by
  have hname : logicalName (f.members json) = .ok f.name := rfl
  have hinternal : flag (f.members json) "__internal" = f.internal := rfl
  have htechnical : flag (f.members json) "__technical" = f.technical := rfl
  have hsens : (text? (f.members json) "__sensitivity").bind Sensitivity.ofName? =
      some f.sensitivity := f.sensitivity.ofName?_name
  rw [Field.node_eq]
  simp only [readField, gives_bind, gives_lift, hname, gives_pure, Prod.exists, Except.ok.injEq,
    Field.text?_members_doc, Field.get?_members_default, hinternal, htechnical,
    Field.text?_members_sourceType, hsens, Option.getD_some]
  constructor
  · rintro ⟨_, _, ⟨rfl, rfl⟩, t, nullable, _, ht, rfl, rfl⟩
    exact ⟨t, nullable, ht, rfl⟩
  · rintro ⟨t, nullable, ht, rfl⟩
    exact ⟨_, _, ⟨rfl, rfl⟩, t, nullable, left, ht, rfl, rfl⟩

end

/-! ## The type of a field -/

/-- The branches that a nullable field makes of the node of its type, without the null branch. -/
def branchesOf : Json → List Json
  | .array items => items
  | json => [json]

theorem nullableNode_eq (json : Json) :
    nullableNode json = .array (.string "null" :: branchesOf json) := by
  cases json <;> rfl

theorem branchesOf_of_ne {json : Json} (h : ∀ items, json ≠ .array items) :
    branchesOf json = [json] := by
  cases json with
  | array items => exact absurd rfl (h items)
  | _ => rfl

theorem isNullBranch_iff {json : Json} : isNullBranch json = true ↔ json = .string "null" := by
  cases json <;> simp [isNullBranch, Json.string?]

section

variable {inner : Inner} {limit levels : Nat} {space : Option String} {f g : Field} {json : Json}
  {members : Json.Members} {table left : Definitions} {t : DataType} {nullable : Bool}

theorem readObject_array {items : List Json}
    (h : Json.Members.get? members "type" = some (.array items)) :
    readObject inner space members = inner.branches space items := by
  simp [readObject, h]

theorem readObject_object {type : Json.Members}
    (h : Json.Members.get? members "type" = some (.object type)) :
    readObject inner space members = inner.node space (.object type) := by
  simp [readObject, h]

/-- A field whose type is a name has the type that the name means; no field is an array or a record
by itself. -/
theorem gives_readObject_string {name : String} (hf : f.nullable = false) :
    Gives (readObject inner space (f.members (.string name))) table (t, nullable) left ↔
      (name ≠ "record" ∧ name ≠ "array") ∧ meaning? table space name = some t ∧
        nullable = false ∧ left = table := by
  have htype : Json.Members.get? (f.members (.string name)) "type" = some (.string name) := by
    rw [Field.get?_members_type, hf]
    rfl
  have hnone : ∀ {key}, key ∈ ["logicalType", "values", "symbols", "size", "items", "fields"] →
      Json.Members.get? (f.members (.string name)) key = none := f.get?_members_of_mem _
  have hlogical : text? (f.members (.string name)) "logicalType" = none := by
    rw [text?, hnone (by simp), Option.bind_none]
  by_cases hr : name = "record"
  · -- the node is then taken for a record, but has no fields
    subst hr
    refine iff_of_false ?_ fun h => h.1.1 rfl
    have hfields : Json.Members.get? (f.members (.string "record")) "fields" = none :=
      hnone (by simp)
    simp only [readObject, htype, readRecord, hfields, Option.bind_none]
    simp [refuse]
  by_cases ha : name = "array"
  · -- the node is then taken for an array, but has no items
    subst ha
    refine iff_of_false ?_ fun h => h.1.2 rfl
    have hitems : Json.Members.get? (f.members (.string "array")) "items" = none :=
      hnone (by simp)
    simp [readObject, htype, hitems, refuse]
  have hread : readObject inner space (f.members (.string name)) =
      Functor.map (·, false) (readNamed inner space (f.members (.string name)) name) := by
    simp [readObject, htype]
  rw [hread, gives_map]
  simp only [gives_readNamed_bare hlogical (hnone (by simp)) (hnone (by simp)) (hnone (by simp)),
    Prod.mk.injEq]
  constructor
  · rintro ⟨_, ⟨hm, rfl⟩, rfl, rfl⟩
    exact ⟨⟨hr, ha⟩, hm, rfl, rfl⟩
  · rintro ⟨-, hm, rfl, rfl⟩
    exact ⟨t, ⟨hm, rfl⟩, rfl, rfl⟩

/-- What the branches of a nullable field give is given by the node of its type. -/
theorem exists_gives_node_of_gives_null_cons
    (h : Gives (branches limit levels space (.string "null" :: branchesOf json)) table
      (t, nullable) left) :
    ∃ levels other, Gives (node limit levels space json) table (t, other) left := by
  cases levels with
  | zero => exact absurd h not_gives_throw
  | succ levels =>
    obtain ⟨-, other, h⟩ := gives_readBranches_null_cons.1 h
    by_cases harray : ∃ items, json = .array items
    · -- a list is read as the branches of a node, on the same level
      obtain ⟨items, rfl⟩ := harray
      exact ⟨levels + 1, other, h⟩
    · -- any other node is the only branch besides null
      rw [branchesOf_of_ne fun items he => harray ⟨items, he⟩] at h
      by_cases hnull : isNullBranch json = true
      · exact absurd h (not_gives_readBranches_nil (by simp [hnull]))
      · have hfilter : [json].filter (!isNullBranch ·) = [json] := by simp [hnull]
        obtain ⟨other, h, -⟩ := (gives_readBranches_single hfilter).1 h
        exact ⟨levels, other, h⟩

/-- What the node of its type gives is given by the branches of a nullable field. -/
theorem gives_null_cons_of_gives_node {least : Nat}
    (h : ∀ levels, least ≤ levels → Gives (node limit levels space json) table (t, false) left)
    (hn : json ≠ .string "null") (hl : least + 1 ≤ levels) :
    Gives (branches limit levels space (.string "null" :: branchesOf json)) table (t, true)
      left := by
  obtain ⟨levels, rfl⟩ : ∃ n, levels = n + 1 := ⟨levels - 1, by omega⟩
  refine gives_readBranches_null_cons.2 ⟨rfl, ?_⟩
  by_cases harray : ∃ items, json = .array items
  · obtain ⟨items, rfl⟩ := harray
    exact ⟨false, h (levels + 1) (by omega)⟩
  · have hnull : isNullBranch json = false :=
      Bool.eq_false_iff.2 fun he => hn (isNullBranch_iff.1 he)
    rw [branchesOf_of_ne fun items he => harray ⟨items, he⟩]
    exact ⟨_, (gives_readBranches_single (by simp [hnull])).2 ⟨false, h levels (by omega), rfl⟩⟩

/-- Whether a field is taken for a record or an array itself, because the node of its type is that
name and stands alone. -/
def Mistaken (f : Field) (json : Json) : Prop :=
  f.nullable = false ∧ (json = .string "record" ∨ json = .string "array")

/-- What a field gives as its type is given by the node of its type. -/
theorem exists_gives_node_of_gives_readObject
    (h : Gives (readObject (Wire.inner limit levels) space (f.members json)) table (t, nullable)
      left) :
    ¬ Mistaken f json ∧
      ∃ levels other, Gives (node limit levels space json) table (t, other) left := by
  have htype := f.get?_members_type json
  by_cases hf : f.nullable = true
  · rw [if_pos hf, nullableNode_eq] at htype
    rw [readObject_array htype] at h
    exact ⟨by simp [Mistaken, hf], exists_gives_node_of_gives_null_cons h⟩
  rw [if_neg hf] at htype
  cases json with
  | array items =>
    rw [readObject_array htype] at h
    exact ⟨by simp [Mistaken], levels, nullable, by rwa [← branches_eq_node]⟩
  | object type =>
    rw [readObject_object htype] at h
    exact ⟨by simp [Mistaken], levels, nullable, h⟩
  | string name =>
    obtain ⟨hne, hm, -, rfl⟩ := (gives_readObject_string (Bool.eq_false_iff.2 hf)).1 h
    exact ⟨by simp [Mistaken, hne], 1, false, gives_node_string.2 ⟨hm, rfl, rfl⟩⟩
  | _ =>
    -- no other value is the type of a field
    rw [readObject, htype] at h
    cases (gives_lift.1 h).1

/-- A field is read back with the type that the node of its type gives. -/
theorem exists_gives_node_of_gives_field
    (h : Gives (field limit levels space (f.node json)) table g left)
    (hn : g.nullable = f.nullable) :
    g = f.reloaded g.type ∧ ¬ Mistaken f json ∧
      ∃ levels other, Gives (node limit levels space json) table (g.type, other) left := by
  cases levels with
  | zero => exact absurd h not_gives_throw
  | succ levels =>
    obtain ⟨t, nullable, ht, rfl⟩ := gives_readField.1 h
    obtain rfl : nullable = f.nullable := hn
    -- with the same nullability, the same default value is lost or kept
    refine ⟨?_, exists_gives_node_of_gives_readObject ht⟩
    cases hf : f.nullable <;> simp [Field.reloaded, hf]

/-- Every reading of the node of its type that is deep enough gives the type of a field. -/
theorem gives_readObject_of_gives_node {least : Nat}
    (h : ∀ levels, least ≤ levels → Gives (node limit levels space json) table (t, false) left)
    (hn : json ≠ .string "null") (hf : ¬ Mistaken f json) (hl : least + 1 ≤ levels) :
    Gives (readObject (Wire.inner limit levels) space (f.members json)) table (t, f.nullable)
      left := by
  have htype := f.get?_members_type json
  by_cases hnull : f.nullable = true
  · -- the null branch takes one level more than the node
    rw [if_pos hnull, nullableNode_eq] at htype
    rw [readObject_array htype, hnull]
    exact gives_null_cons_of_gives_node h hn hl
  rw [if_neg hnull] at htype
  have hfalse := Bool.eq_false_iff.2 hnull
  rw [hfalse]
  have hg := h levels (by omega)
  cases json with
  | array items =>
    rw [readObject_array htype]
    change Gives (branches limit levels space items) table (t, false) left
    rwa [branches_eq_node]
  | object type =>
    rw [readObject_object htype]
    exact hg
  | string name =>
    obtain ⟨levels, rfl⟩ : ∃ n, levels = n + 1 := ⟨levels - 1, by omega⟩
    obtain ⟨hm, -, rfl⟩ := gives_node_string.1 hg
    refine (gives_readObject_string hfalse).2 ⟨⟨?_, ?_⟩, hm, rfl, rfl⟩
    · rintro rfl
      exact hf ⟨hfalse, Or.inl rfl⟩
    · rintro rfl
      exact hf ⟨hfalse, Or.inr rfl⟩
  | _ =>
    obtain ⟨levels, rfl⟩ : ∃ n, levels = n + 1 := ⟨levels - 1, by omega⟩
    cases hg

/-- Every reading of the node of its type that is deep enough gives a field. -/
theorem gives_field_of_gives_node {least : Nat}
    (h : ∀ levels, least ≤ levels → Gives (node limit levels space json) table (t, false) left)
    (hn : json ≠ .string "null") (hf : ¬ Mistaken f json) (hl : least + 2 ≤ levels) :
    Gives (field limit levels space (f.node json)) table (f.reloaded t) left := by
  obtain ⟨levels, rfl⟩ : ∃ n, levels = n + 1 := ⟨levels - 1, by omega⟩
  refine gives_readField.2
    ⟨t, f.nullable, gives_readObject_of_gives_node h hn hf (by omega), ?_⟩
  cases hf : f.nullable <;> simp [Field.reloaded, hf]

end

end Wire

end AvroSchema
