import AvroSchema.Proofs.Wire.Documents

/-!
# What Nodes Determine

The node of a primitive type says everything about the type, the node of a field everything but the
default value of a nullable one, and the members of a record everything about the record but its
fields, which follow from theirs. The nodes are compared up to the sign of floating zeros in default
values, as types are.

A nullable field takes up the branches of a list, so its node can be told apart from that of a
mandatory one only if no branch of the list is null (`Json.Branching`).

* `Primitive.eq_of_node_eq`: primitive types.
* `Field.canonical_eq_of_node_eq`: fields.
* `Record.eq_of_get?_members`, `Record.outline_eq_of_fields`: records.
-/

namespace AvroSchema

/-! ## Members and their canonical forms -/

namespace Json

theorem string?_canonical (json : Json) : json.canonical.string? = json.string? := by
  cases json <;> rfl

theorem array?_canonical (json : Json) :
    json.canonical.array? = json.array?.map (·.map canonical) := by
  cases json <;> simp [canonical, array?, canonicalItems_eq_map]

/-- The text under a key does not depend on how floating zeros are written. -/
theorem text?_eq_of_get? {ms ns : Members} {key : String}
    (h : (Members.get? ms key).map canonical = (Members.get? ns key).map canonical) :
    Wire.text? ms key = Wire.text? ns key := by
  have hs := congrArg (Option.bind · string?) h
  simp only [Option.bind_map, Function.comp_def, string?_canonical] at hs
  exact hs

theorem ofString?_canonical_injective :
    Function.Injective fun text : Option String => (ofString? text).canonical := by
  intro text other h
  cases text <;> cases other <;> simp_all [ofString?, canonical]

/-- The type that an object names. -/
def typeTag? : Json → Option String
  | .object members => Wire.text? members "type"
  | _ => none

theorem typeTag?_eq_of_canonical_eq {a b : Json} (h : a.canonical = b.canonical) :
    a.typeTag? = b.typeTag? := by
  cases a with
  | object ms =>
    cases b with
    | object ns => exact text?_eq_of_get? (get?_eq_of_canonical_eq h "type")
    | _ => simp [canonical] at h
  | _ => cases b <;> simp_all [canonical, typeTag?]

end Json

/-! ## Primitive types -/

namespace Primitive

theorem canonical_node (p : Primitive) : p.node.canonical = p.node := by
  cases p with
  | plain kind h => cases kind <;> rfl
  | enum name symbols =>
    have hs : Json.canonicalItems (symbols.map .string) = symbols.map .string := by
      rw [Json.canonicalItems_eq_map, List.map_map]
      rfl
    simp [node, Json.canonical, Json.canonicalMembers, hs]
  | _ => rfl

/-- The node of a primitive type determines the type. -/
theorem eq_of_node_eq {p q : Primitive} (hp : p.Admissible) (hq : q.Admissible)
    (hany : p.kind ≠ .anyPrimitive) (hany' : q.kind ≠ .anyPrimitive) (h : p.node = q.node) :
    p = q := by
  have hm : p.members = q.members := by rw [members, members, h]
  have hk : q.kind = p.kind := by
    -- the logical type tells the kinds apart
    obtain ⟨tag, htag⟩ := Kind.exists_tag? hany
    obtain ⟨other, hother⟩ := Kind.exists_tag? hany'
    have hl := text?_members_logicalType htag
    rw [hm, text?_members_logicalType hother, Option.some.injEq] at hl
    have hf := Kind.ofLogical?_of_tag? hother
    rw [hl, Kind.ofLogical?_of_tag? htag] at hf
    exact (Option.some.inj hf).symm
  -- both types are what the reader makes of these members
  have hread := Wire.primitive_members hp
  rw [hm, ← hk, Wire.primitive_members hq] at hread
  exact (Except.ok.inj hread).symm

end Primitive

/-! ## Fields and records -/

namespace Json

/-- A node that is told apart from the type of a nullable field: if it is a list, it has at least
two branches, and none of them is null. -/
def Branching (json : Json) : Prop :=
  ∀ items, json = .array items → 2 ≤ items.length ∧ .string "null" ∉ items

theorem branching_of_array?_eq_none {json : Json} (h : json.array? = none) : json.Branching := by
  rintro items rfl
  cases h

section

variable {a b : Json}

/-- A node is determined by the branches that it makes in the type of a nullable field. -/
private theorem canonical_eq_of_branchesOf (ha : a.Branching) (hb : b.Branching)
    (h : (Wire.branchesOf a).map canonical = (Wire.branchesOf b).map canonical) :
    a.canonical = b.canonical := by
  -- a list of one branch would make the same branches as that branch alone
  have hlen := congrArg List.length h
  by_cases harray : ∃ items, a = .array items
  · obtain ⟨as, rfl⟩ := harray
    by_cases hother : ∃ items, b = .array items
    · obtain ⟨bs, rfl⟩ := hother
      simpa [Wire.branchesOf, canonical, canonicalItems_eq_map] using h
    · rw [Wire.branchesOf_of_ne fun items he => hother ⟨items, he⟩] at hlen
      have := (ha as rfl).1
      simp [Wire.branchesOf] at hlen
      omega
  · rw [Wire.branchesOf_of_ne fun items he => harray ⟨items, he⟩] at h hlen
    by_cases hother : ∃ items, b = .array items
    · obtain ⟨bs, rfl⟩ := hother
      have := (hb bs rfl).1
      simp [Wire.branchesOf] at hlen
      omega
    · rw [Wire.branchesOf_of_ne fun items he => hother ⟨items, he⟩] at h
      simpa using h

/-- The type of a mandatory field has no null branch. -/
private theorem canonical_ne_nullableNode (hb : b.Branching) :
    (nullableNode a).canonical ≠ b.canonical := by
  intro h
  rw [Wire.nullableNode_eq] at h
  cases b with
  | array items =>
    cases items with
    | nil => simp [canonical, canonicalItems] at h
    | cons item rest =>
      simp only [canonical, canonicalItems, array.injEq, List.cons.injEq] at h
      exact (hb _ rfl).2 (canonical_eq_string_iff.1 h.1.symm ▸ List.mem_cons_self)
  | _ => cases h

/-- The type of a field determines whether the field is nullable, and the node of its type. -/
theorem nullable_eq_and_canonical_eq {nullable other : Bool} (ha : a.Branching) (hb : b.Branching)
    (h : (if nullable then nullableNode a else a).canonical =
      (if other then nullableNode b else b).canonical) :
    nullable = other ∧ a.canonical = b.canonical := by
  cases nullable <;> cases other
  · exact ⟨rfl, h⟩
  · exact absurd h.symm (canonical_ne_nullableNode ha)
  · exact absurd h (canonical_ne_nullableNode hb)
  · refine ⟨rfl, canonical_eq_of_branchesOf ha hb ?_⟩
    simp only [if_true, Wire.nullableNode_eq] at h
    simpa [canonical, canonicalItems_eq_map] using h

end

end Json

namespace Field

/-- The node of a field determines the node of its type, and everything else but the default value
if it is nullable. -/
theorem canonical_eq_of_node_eq {f g : Field} {a b : Json} (ha : a.Branching) (hb : b.Branching)
    (h : (f.node a).canonical = (g.node b).canonical) :
    a.canonical = b.canonical ∧ (f.type.outline = g.type.outline → f.outline = g.outline) := by
  rw [node_eq, node_eq] at h
  have hget := Json.get?_eq_of_canonical_eq h
  have htext (key : String) : Wire.text? (f.members a) key = Wire.text? (g.members b) key :=
    Json.text?_eq_of_get? (hget key)
  -- each member is looked up by its key
  have hname : some f.name = some g.name := htext "__originalname"
  have hinternal : some (Json.bool f.internal) = some (Json.bool g.internal) := hget "__internal"
  have htechnical : some (Json.bool f.technical) = some (Json.bool g.technical) :=
    hget "__technical"
  have hsens : some f.sensitivity.name = some g.sensitivity.name := htext "__sensitivity"
  have hsource := htext "__source_data_type"
  rw [text?_members_sourceType, text?_members_sourceType] at hsource
  have hdoc := htext "doc"
  rw [text?_members_doc, text?_members_doc] at hdoc
  have hdefault := hget "default"
  rw [get?_members_default, get?_members_default] at hdefault
  have htype := hget "type"
  rw [get?_members_type, get?_members_type, Option.map_some, Option.map_some,
    Option.some.injEq] at htype
  obtain ⟨hnull, hnode⟩ := Json.nullable_eq_and_canonical_eq ha hb htype
  have hs : f.sensitivity = g.sensitivity := by
    have hf := f.sensitivity.ofName?_name
    rw [Option.some.inj hsens, g.sensitivity.ofName?_name] at hf
    exact (Option.some.inj hf).symm
  refine ⟨hnode, fun ht => ?_⟩
  have hd : (if f.nullable then none else f.defaultValue.map Json.canonical) =
      if g.nullable then none else g.defaultValue.map Json.canonical := by
    rw [hnull] at hdefault ⊢
    cases hg : g.nullable <;> simp_all
  rw [outline, outline, mapDefaults_eq, mapDefaults_eq, hd]
  change ({ f with type := f.type.outline, defaultValue := _ } : Field) =
    { g with type := g.type.outline, defaultValue := _ }
  simp_all

/-- The nodes of some fields determine the nodes of their types, and everything else but the default
values of nullable fields. -/
theorem map_canonical_eq_of_zipWith_node_eq {fs gs : List Field} {as bs : List Json}
    (hfs : as.length = fs.length) (hgs : bs.length = gs.length) (ha : ∀ a ∈ as, a.Branching)
    (hb : ∀ b ∈ bs, b.Branching)
    (h : (List.zipWith node fs as).map Json.canonical =
      (List.zipWith node gs bs).map Json.canonical) :
    as.map Json.canonical = bs.map Json.canonical ∧
      (fs.map (·.type.outline) = gs.map (·.type.outline) →
        fs.map Field.outline = gs.map Field.outline) := by
  induction fs generalizing gs as bs with
  | nil =>
    obtain rfl : as = [] := List.length_eq_zero_iff.1 hfs
    match gs, bs, hgs with
    | [], [], _ => exact ⟨rfl, fun _ => rfl⟩
    | g :: gs, b :: bs, _ => simp at h
  | cons f fs ih =>
    match as, hfs with
    | a :: as, hfs =>
      match gs, bs, hgs with
      | [], [], _ => simp at h
      | g :: gs, b :: bs, hgs =>
        simp only [List.zipWith_cons_cons, List.map_cons, List.cons.injEq] at h ⊢
        rw [List.forall_mem_cons] at ha hb
        obtain ⟨hnode, hfield⟩ := canonical_eq_of_node_eq ha.1 hb.1 h.1
        obtain ⟨hnodes, hfields⟩ :=
          ih (by simpa using hfs) (by simpa using hgs) ha.2 hb.2 h.2
        exact ⟨⟨hnode, hnodes⟩, fun ht => ⟨hfield ht.1, hfields ht.2⟩⟩

end Field

namespace Record

/-- The members of the node of a record determine its name, its namespace, its description and the
nodes of its fields, also if there are members under other keys. -/
theorem eq_of_get?_members {r s : Record} {as bs : List Json}
    (h : ∀ key ∈ Wire.recordKeys, (Json.Members.get? (r.members as) key).map Json.canonical =
      (Json.Members.get? (s.members bs) key).map Json.canonical) :
    r.name = s.name ∧ r.space = s.space ∧ r.doc = s.doc ∧
      as.map Json.canonical = bs.map Json.canonical := by
  have htext : ∀ key ∈ Wire.recordKeys,
      Wire.text? (r.members as) key = Wire.text? (s.members bs) key :=
    fun key hk => Json.text?_eq_of_get? (h key hk)
  have hr := Wire.describes_members r as
  have hs := Wire.describes_members s bs
  refine ⟨?_, ?_, ?_, ?_⟩
  · have hn := htext "__originalname" (by decide)
    rw [hr.name, hs.name] at hn
    exact Option.some.inj hn
  · have hn := htext "namespace" (by decide)
    rwa [hr.space, hs.space] at hn
  · have hn := htext "doc" (by decide)
    rwa [hr.doc, hs.doc] at hn
  · have hf := h "fields" (by decide)
    simpa [members, Json.canonical, Json.canonicalItems_eq_map] using hf

/-- Records with the same outlines of fields that agree in everything else have one outline. -/
theorem outline_eq_of_fields {r s : Record} (hn : r.name = s.name) (hs : r.space = s.space)
    (hd : r.doc = s.doc) (hf : r.fields.map Field.outline = s.fields.map Field.outline) :
    r.outline = s.outline := by
  rw [outline, outline, mapDefaults_eq, mapDefaults_eq]
  change ({ r with fields := r.fields.map Field.outline } : Record) =
    { s with fields := s.fields.map Field.outline }
  rw [hn, hs, hd, hf]

end Record

end AvroSchema
