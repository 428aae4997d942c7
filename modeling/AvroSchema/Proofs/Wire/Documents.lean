import AvroSchema.Proofs.Wire.RoundTrip
import AvroSchema.Tree

/-!
# Documents of Reloaded Schemas

A schema that was written and read back is written again. Whether the same document comes out is
decided where definitions start. The first document defines a type again under a name that is taken
if the two types differ, and they may differ only in the default values of nullable fields. These
are not in the document, so both come back as one type, and the second document refers to it.

* `DataType.rewrites`: a reloaded type is written as before, exactly if no definition in it starts
  under a name that stands for a type of the same outline.
* `document_fingerprint_eq_iff`: what this means for the documents and the fingerprints of root
  schemas and value schemas.
-/

namespace AvroSchema

/-! ## Canonical documents -/

namespace Json

theorem canonicalItems_eq_map (items : List Json) :
    canonicalItems items = items.map canonical := by
  induction items with
  | nil => rfl
  | cons item rest ih => rw [canonicalItems, ih, List.map_cons]

/-- The canonical form of an object has the canonical forms of its members. -/
theorem Members.get?_canonicalMembers (members : Members) (key : String) :
    Members.get? (canonicalMembers members) key = (Members.get? members key).map canonical := by
  induction members with
  | nil => rfl
  | cons e rest ih =>
    obtain ⟨k, v⟩ := e
    rw [canonicalMembers]
    simp only [Members.get?, List.lookup_cons] at ih ⊢
    split
    · rfl
    · exact ih

theorem canonical_eq_string_iff {json : Json} {text : String} :
    json.canonical = .string text ↔ json = .string text := by
  cases json <;> simp [canonical]

/-- Objects with the same canonical form have the same members up to it. -/
theorem get?_eq_of_canonical_eq {ms ns : Members}
    (h : (object ms).canonical = (object ns).canonical) (key : String) :
    (Members.get? ms key).map canonical = (Members.get? ns key).map canonical := by
  rw [canonical, canonical, object.injEq] at h
  rw [← Members.get?_canonicalMembers, h, Members.get?_canonicalMembers]

/-- Members that are put in under other keys do not matter. -/
theorem Members.get?_foldl_insert {entries : List (String × Json)} {key : String}
    (h : ∀ e ∈ entries, key ≠ e.1) (members : Members) :
    Members.get? (entries.foldl (fun members e => Members.insert e.1 e.2 members) members) key =
      Members.get? members key := by
  induction entries generalizing members with
  | nil => rfl
  | cons e rest ih =>
    obtain ⟨he, hrest⟩ := List.forall_mem_cons.1 h
    rw [List.foldl_cons, ih hrest, Members.get?_insert_of_ne _ _ he]

end Json

/-! ## Nodes of fields -/

/-- The nodes of a nullable field tell the nodes of its type apart, if both or neither of these are
lists. -/
theorem canonical_eq_of_nullableNode {a b : Json} (hs : a.array?.isSome = b.array?.isSome)
    (h : (nullableNode a).canonical = (nullableNode b).canonical) : a.canonical = b.canonical := by
  -- a list of one branch and that branch alone would give the same node
  cases a <;> cases b <;>
    simp_all [nullableNode, Json.canonical, Json.canonicalItems, Json.array?]

/-- The nodes of a field tell the nodes of its type apart. -/
theorem Field.canonical_eq_of_node {f : Field} {a b : Json}
    (hs : a.array?.isSome = b.array?.isSome)
    (h : (f.node a).canonical = (f.node b).canonical) : a.canonical = b.canonical := by
  rw [Field.node_eq, Field.node_eq] at h
  -- the member for the type is all that differs
  have ht := Json.get?_eq_of_canonical_eq h "type"
  rw [Field.get?_members_type, Field.get?_members_type, Option.map_some, Option.map_some,
    Option.some.injEq] at ht
  by_cases hf : f.nullable = true
  · rw [if_pos hf, if_pos hf] at ht
    exact canonical_eq_of_nullableNode hs ht
  · rwa [if_neg hf, if_neg hf] at ht

/-- The nodes of some fields tell the nodes of their types apart. -/
theorem Field.map_canonical_eq_of_zipWith_node {fs : List Field} {as bs : List Json}
    (ha : as.length = fs.length) (hb : bs.length = fs.length)
    (hs : as.map (·.array?.isSome) = bs.map (·.array?.isSome))
    (h : (List.zipWith Field.node fs as).map Json.canonical =
      (List.zipWith Field.node fs bs).map Json.canonical) :
    as.map Json.canonical = bs.map Json.canonical := by
  induction fs generalizing as bs with
  | nil => rw [List.length_eq_zero_iff.1 ha, List.length_eq_zero_iff.1 hb]
  | cons f fs ih =>
    match as, bs, ha, hb with
    | a :: as, b :: bs, ha, hb =>
      simp only [List.zipWith_cons_cons, List.map_cons, List.cons.injEq] at hs h ⊢
      exact ⟨Field.canonical_eq_of_node hs.1 h.1,
        ih (by simpa using ha) (by simpa using hb) hs.2 h.2⟩

/-- Reloaded fields have the types that they were reloaded with. -/
theorem Field.map_type_zipWith_reloaded {fs : List Field} {us : List DataType}
    (hl : us.length = fs.length) : (List.zipWith Field.reloaded fs us).map (·.type) = us := by
  induction fs generalizing us with
  | nil => rw [List.length_eq_zero_iff.1 hl]; rfl
  | cons f fs ih =>
    match us, hl with
    | u :: us, hl =>
      have hl : us.length = fs.length := by simpa using hl
      simp [Field.reloaded, ih hl]

/-- A reloaded field is written like the original one. -/
theorem Field.node_reloaded (f : Field) (t : DataType) (json : Json) :
    (f.reloaded t).node json = f.node json := by
  cases hf : f.nullable <;> simp [Field.node, Field.reloaded, Field.wireName, hf]

/-- Reloaded fields are written like the original ones. -/
theorem Field.zipWith_node_reloaded {fs : List Field} {us : List DataType}
    (hl : us.length = fs.length) (nodes : List Json) :
    List.zipWith Field.node (List.zipWith Field.reloaded fs us) nodes =
      List.zipWith Field.node fs nodes := by
  induction fs generalizing us nodes with
  | nil => simp
  | cons f fs ih =>
    match us, nodes, hl with
    | _ :: _, [], _ => simp
    | u :: us, node :: nodes, hl =>
      have hl : us.length = fs.length := by simpa using hl
      simp [Field.node_reloaded, ih hl]

/-! ## Written nodes -/

namespace DataType

theorem array?_definition {t : DataType} (ht : t.isNamed = true) (nodes : List Json) :
    (t.definition nodes).array? = none := by
  cases t with
  | primitive p =>
    rcases p.wire_cases with rfl | ⟨-, hw⟩
    · cases ht
    · rw [definition, hw, Primitive.node_eq]
      rfl
  | record r => rfl
  | _ => cases ht

/-- The types that are written as lists are unions, `AnyPrimitive` among them. -/
theorem isSome_array?_write (t : DataType) (space : Option String) (table : Definitions) :
    (t.write space table).1.array?.isSome = t.isUnion := by
  by_cases ht : t.isNamed = true
  · obtain ⟨name, hn⟩ := exists_fullName? ht space
    rw [isUnion_of_isNamed ht]
    cases hs : table.standsFor name t with
    | true =>
      rw [write_of_standsFor hn hs]
      rfl
    | false => rw [write_of_not_standsFor hn hs, array?_definition ht, Option.isSome_none]
  · cases t with
    | primitive p =>
      have hp : p.wireName? = none := by simpa [isNamed] using ht
      rw [write_unnamed hp]
      rcases p.wire_cases with rfl | ⟨hk, hw⟩
      · rfl
      · rw [hw, Primitive.node_eq, isUnion_primitive.2 hk]
        rfl
    | record r => exact absurd rfl ht
    | _ => rfl

theorem map_isSome_array?_writeAll (ts : List DataType) (space : Option String)
    (table : Definitions) :
    (writeAll space ts table).1.map (·.array?.isSome) = ts.map isUnion := by
  induction ts generalizing table with
  | nil => rfl
  | cons t ts ih => simp [writeAll, isSome_array?_write, ih]

/-- Types that come back unchanged are written as lists where the original ones are. -/
theorem map_isSome_array?_writeAll_eq {ts us : List DataType}
    (hc : us.map canonical = ts.map outline) (space : Option String)
    (again opened : Definitions) :
    (writeAll space us again).1.map (·.array?.isSome) =
      (writeAll space ts opened).1.map (·.array?.isSome) := by
  have h := congrArg (List.map isUnion) hc
  simp only [List.map_map, Function.comp_def, canonical, outline, isUnion_mapDefaults] at h
  rw [map_isSome_array?_writeAll, map_isSome_array?_writeAll, h]

/-- The definition of a named type tells the nodes of its parts apart. -/
theorem map_canonical_eq_of_definition {t : DataType} {as bs : List Json}
    (ha : as.length = t.parts.length) (hb : bs.length = t.parts.length)
    (hs : as.map (·.array?.isSome) = bs.map (·.array?.isSome))
    (h : (t.definition as).canonical = (t.definition bs).canonical) :
    as.map Json.canonical = bs.map Json.canonical := by
  cases t with
  | record r =>
    -- the nodes of the fields are a member of the definition
    have hf := Json.get?_eq_of_canonical_eq h "fields"
    have hl : (DataType.record r).parts.length = r.fields.length := by simp [parts]
    refine Field.map_canonical_eq_of_zipWith_node (ha.trans hl) (hb.trans hl) hs ?_
    simpa [Record.members, Json.canonical,
      Json.canonicalItems_eq_map] using hf
  | _ => rw [List.length_eq_zero_iff.1 ha, List.length_eq_zero_iff.1 hb]

/-- A rebuilt type is defined like the original one. -/
theorem definition_withParts {t : DataType} {us : List DataType}
    (hl : us.length = t.parts.length) (nodes : List Json) :
    (t.withParts us).definition nodes = t.definition nodes := by
  cases t with
  | record r =>
    have hl : us.length = r.fields.length := by simpa [parts] using hl
    simp [withParts, definition, Record.members, Field.zipWith_node_reloaded hl]
  | _ => rfl

/-- The parts of a rebuilt type are those that it was rebuilt from. -/
theorem parts_withParts {t : DataType} {us : List DataType} (hl : us.length = t.parts.length) :
    (t.withParts us).parts = us := by
  cases t with
  | record r =>
    have hl : us.length = r.fields.length := by simpa [parts] using hl
    exact Field.map_type_zipWith_reloaded hl
  | _ => exact (List.length_eq_zero_iff.1 hl).symm

theorem innerSpace_withParts (t : DataType) (us : List DataType) (space : Option String) :
    (t.withParts us).innerSpace space = t.innerSpace space := by
  cases t <;> rfl

end DataType

/-! ## Writing again -/

/-- A mark does not start a definition under a name that stands for a type of the same outline. -/
def Definitions.Differs (table : Definitions) : Mark → Prop
  | .opened o => ∀ t, table.find? o.name = some t → t.outline ≠ o.type.outline
  | _ => True

instance (table : Definitions) : DecidablePred table.Differs
  | .opened o =>
    match h : table.find? o.name with
    | some t => decidable_of_iff ((t.dropDefaults == o.type.dropDefaults) = false)
        (by simp [Definitions.Differs, h, Bool.eq_false_iff, DataType.dropDefaults_beq_iff])
    | none => .isTrue (by simp [Definitions.Differs, h])
  | .closed _ => .isTrue trivial
  | .referred _ => .isTrue trivial

/-- No definition among some marks starts under a name that stands for a type of the same
outline. -/
def DefinitionsDiffer (opened : Definitions) (marks : List Mark) : Prop :=
  Along Definitions.opening Definitions.Differs opened marks

instance (opened : Definitions) (marks : List Mark) : Decidable (DefinitionsDiffer opened marks) :=
  decidableAlong opened marks

namespace DataType

/-- Written again, a reloaded type gives the same node exactly if its definitions differ from those
before, and then the tables still match. -/
def Rewrites (t : DataType) : Prop :=
  ∀ {space : Option String} {opened read left again : Definitions} {u : DataType},
    Reloads space t opened read u left → u.canonical = t.outline → again.Matches opened →
    (DefinitionsDiffer opened (t.marks space opened) →
      (u.write space again).1 = (t.write space opened).1 ∧
        (u.write space again).2.Matches (t.write space opened).2) ∧
    ((u.write space again).1.canonical = (t.write space opened).1.canonical →
      DefinitionsDiffer opened (t.marks space opened))

section

variable {space : Option String} {opened read left again : Definitions} {t u : DataType}
  {ts us : List DataType}

/-- Written again, reloaded types give the same nodes exactly if their definitions differ. -/
private theorem writeAll_of_reloadsAll (h : ∀ t ∈ ts, t.Rewrites)
    (hr : ReloadsAll space ts opened read us left) (hc : us.map canonical = ts.map outline)
    (hm : again.Matches opened) :
    (DefinitionsDiffer opened (marksAll space ts opened) →
      (writeAll space us again).1 = (writeAll space ts opened).1 ∧
        (writeAll space us again).2.Matches (writeAll space ts opened).2) ∧
    ((writeAll space us again).1.map Json.canonical =
        (writeAll space ts opened).1.map Json.canonical →
      DefinitionsDiffer opened (marksAll space ts opened)) := by
  induction ts generalizing opened read again us with
  | nil =>
    obtain ⟨rfl, rfl⟩ := reloadsAll_nil_iff.1 hr
    exact ⟨fun _ => ⟨rfl, hm⟩, fun _ => trivial⟩
  | cons t ts ih =>
    obtain ⟨u, between, rest, hu, hrest, rfl⟩ := reloadsAll_cons_iff.1 hr
    rw [List.forall_mem_cons] at h
    simp only [List.map_cons, List.cons.injEq] at hc
    obtain ⟨hsame, hdiffer⟩ := h.1 hu hc.1 hm
    rw [marksAll, DefinitionsDiffer, along_append, ← write_snd]
    simp only [writeAll, List.map_cons, List.cons.injEq]
    -- the tables match behind the first type in both directions, so the rest can be looked at
    constructor
    · rintro ⟨hd, hds⟩
      obtain ⟨he, hb⟩ := hsame hd
      obtain ⟨hes, hl⟩ := (ih h.2 hrest hc.2 hb).1 hds
      exact ⟨⟨he, hes⟩, hl⟩
    · rintro ⟨he, hes⟩
      have hd := hdiffer he
      exact ⟨hd, (ih h.2 hrest hc.2 (hsame hd).2).2 hes⟩

/-- A name stands for a reloaded type exactly if it stood for a type of the same outline. -/
private theorem standsFor_again_iff {name : String} (hm : again.Matches opened)
    (hc : u.canonical = t.outline) :
    again.standsFor name u = true ↔ ∃ v, opened.find? name = some v ∧ v.outline = t.outline := by
  have hn := hm name
  rw [Definitions.standsFor_iff, hc]
  cases ha : again.find? name <;> cases ho : opened.find? name <;> simp_all

end

/-- Written again, a reloaded type gives the same node exactly if its definitions differ. -/
theorem rewrites (t : DataType) : t.Rewrites := by
  induction t using namedInduction with
  | unnamed p hp =>
    intro space opened read left again u hr hc hm
    obtain ⟨rfl, rfl⟩ := (reloads_unnamed_iff hp).1 hr
    rw [write_unnamed hp, write_unnamed hp, marks_unnamed hp]
    exact ⟨fun _ => ⟨rfl, hm⟩, fun _ => trivial⟩
  | union members ih =>
    intro space opened read left again u hr hc hm
    obtain ⟨us, hus, rfl⟩ := reloads_union_iff.1 hr
    obtain ⟨hsame, hdiffer⟩ :=
      writeAll_of_reloadsAll ih hus (map_canonical_of_canonical_union hc) hm
    rw [marks_union, write_union, write_union, map_type_tagged]
    refine ⟨fun hd => ?_, fun he => hdiffer ?_⟩
    · obtain ⟨he, hl⟩ := hsame hd
      exact ⟨congrArg Json.array he, hl⟩
    · simpa [Json.canonical, Json.canonicalItems_eq_map] using he
  | array items ih =>
    intro space opened read left again u hr hc hm
    obtain ⟨v, hv, rfl⟩ := reloads_array_iff.1 hr
    obtain ⟨hsame, hdiffer⟩ := ih hv (array.inj hc) hm
    refine ⟨fun hd => ?_, fun he => hdiffer ?_⟩
    · obtain ⟨he, hl⟩ := hsame hd
      exact ⟨by simp [write, he], hl⟩
    · simpa [write, Json.canonical, Json.canonicalMembers] using he
  | map values ih =>
    intro space opened read left again u hr hc hm
    obtain ⟨v, hv, rfl⟩ := reloads_map_iff.1 hr
    obtain ⟨hsame, hdiffer⟩ := ih hv (map.inj hc) hm
    refine ⟨fun hd => ?_, fun he => hdiffer ?_⟩
    · obtain ⟨he, hl⟩ := hsame hd
      exact ⟨by simp [write, he], hl⟩
    · simpa [write, Json.canonical, Json.canonicalMembers] using he
  | named t ht ih =>
    intro space opened read left again u hr hc hm
    obtain ⟨name, hn⟩ := exists_fullName? ht space
    have hu : u.fullName? space = some name := by
      have h := congrArg (fullName? space) hc
      rwa [canonical, outline, fullName?_mapDefaults, fullName?_mapDefaults, hn] at h
    cases hs : opened.standsFor name t with
    | true =>
      -- equal types are still equal without their default values
      obtain ⟨v, hv, he⟩ := Definitions.standsFor_iff.1 hs
      have ha : again.standsFor name u = true :=
        (standsFor_again_iff hm hc).2 ⟨v, hv, outline_eq_of_canonical_eq he⟩
      rw [write_of_standsFor hu ha, write_of_standsFor hn hs, marks_of_standsFor hn hs]
      exact ⟨fun _ => ⟨rfl, hm⟩, fun _ => ⟨trivial, trivial⟩⟩
    | false =>
      obtain ⟨us, between, hus, rfl, rfl⟩ := (reloads_iff_of_not_standsFor hn hs).1 hr
      rw [write_of_not_standsFor hn hs, marks_of_not_standsFor hn hs]
      by_cases hsh : ∃ v, opened.find? name = some v ∧ v.outline = t.outline
      · -- the second document has a name where the first one has a definition
        rw [write_of_standsFor hu ((standsFor_again_iff hm hc).2 hsh)]
        obtain ⟨v, hv, ho⟩ := hsh
        refine ⟨fun hd => absurd ho ((along_cons.1 hd).1 v hv), fun he => ?_⟩
        exact absurd (Json.canonical_eq_string_iff.1 he.symm) (definition_ne_string t _ name)
      · -- both documents have a definition
        have ha : again.standsFor name (t.withParts us) = false :=
          Bool.eq_false_iff.2 fun h => hsh ((standsFor_again_iff hm hc).1 h)
        rw [write_of_not_standsFor hu ha, innerSpace_withParts, parts_withParts hus.length_eq,
          definition_withParts hus.length_eq]
        have hparts := (canonical_withParts_iff ht hus.length_eq).1 hc
        obtain ⟨hsame, hdiffer⟩ := writeAll_of_reloadsAll ih hus hparts (hm.define hc)
        have hhead : ∀ v, opened.find? name = some v → v.outline ≠ t.outline :=
          fun v hv ho => hsh ⟨v, hv, ho⟩
        refine ⟨fun hd => ?_, fun he => ?_⟩
        · obtain ⟨hinner, -⟩ := along_append.1 (along_cons.1 hd).2
          obtain ⟨he, hl⟩ := hsame hinner
          exact ⟨by rw [he], hl⟩
        · have hnodes := map_canonical_eq_of_definition
            (by rw [length_writeAll, hus.length_eq]) (length_writeAll _ _ _)
            (map_isSome_array?_writeAll_eq hparts _ _ _) he
          exact along_cons.2 ⟨hhead, along_append.2 ⟨hdiffer hnodes, trivial, trivial⟩⟩

end DataType

/-! ## Documents -/

namespace Record

/-- The definition of a record itself is the first one, so only those inside it can clash. -/
theorem definitionsDiffer_iff {r : Record} :
    DefinitionsDiffer [] r.marks ↔ DefinitionsDiffer (Definitions.define [] (r.fullName none)
      (.record r)) ((DataType.record r).innerMarks none
        (Definitions.define [] (r.fullName none) (.record r))) := by
  rw [marks_eq, DefinitionsDiffer, along_cons, along_append]
  constructor
  · rintro ⟨-, h, -⟩
    exact h
  · intro h
    refine ⟨?_, h, trivial, trivial⟩
    -- nothing is defined before the record
    intro t ht
    cases ht

/-- The nodes of the fields of what a document reloads as. -/
private theorem fieldNodes_reloaded {r : Record} {us : List DataType}
    (hl : us.length = r.fields.length) :
    fieldNodes { r with fields := List.zipWith Field.reloaded r.fields us } =
      List.zipWith Field.node r.fields
        (DataType.writeAll ((DataType.record r).innerSpace none) us
          (Definitions.define [] (r.fullName none)
            (.record { r with fields := List.zipWith Field.reloaded r.fields us }))).1 := by
  rw [fieldNodes, Field.zipWith_node_reloaded hl]
  have hparts := DataType.parts_withParts (t := .record r) (by simpa [DataType.parts] using hl)
  rw [DataType.withParts] at hparts
  rw [hparts]
  rfl

/-- What the document of a record reloads as has the same document exactly if the definitions
differ; it is enough to look at the nodes of the fields. -/
theorem wireMembers_of_reloadsAs {r s : Record} (h : r.ReloadsAs s)
    (hc : s.canonical = r.outline) :
    (DefinitionsDiffer [] r.marks → s.wireMembers = r.wireMembers) ∧
      (s.fieldNodes.map Json.canonical = r.fieldNodes.map Json.canonical →
        DefinitionsDiffer [] r.marks) := by
  obtain ⟨us, left, hus, rfl⟩ := h
  have hl : us.length = r.fields.length := by simpa [DataType.parts] using hus.length_eq
  have hparts : us.map DataType.canonical = (DataType.record r).parts.map DataType.outline :=
    (DataType.canonical_withParts_iff rfl hus.length_eq).1 (congrArg DataType.record hc)
  have hrecord : (DataType.record { r with
      fields := List.zipWith Field.reloaded r.fields us }).canonical =
        (DataType.record r).outline := congrArg DataType.record hc
  -- both writers start inside the record, which is defined on either side
  obtain ⟨hsame, hdiffer⟩ := DataType.writeAll_of_reloadsAll (fun t _ => t.rewrites) hus hparts
    (Definitions.Matches.nil.define hrecord)
  rw [definitionsDiffer_iff]
  constructor
  · intro hd
    rw [wireMembers_eq, wireMembers_eq, fieldNodes_reloaded hl, (hsame hd).1]
    rfl
  · intro he
    rw [fieldNodes_reloaded hl] at he
    refine hdiffer (Field.map_canonical_eq_of_zipWith_node ?_ ?_ ?_ he)
    · rw [DataType.length_writeAll, hl]
    · simp [DataType.length_writeAll, DataType.parts]
    · exact DataType.map_isSome_array?_writeAll_eq hparts _ _ _

/-- No definition in the document of a record starts under a name that stands for a type which is
equal up to the default values of nullable fields. -/
def DefinesDistinctly (r : Record) : Prop :=
  ∀ before o after, r.marks = before ++ .opened o :: after →
    ∀ t, (before.foldl Definitions.opening []).find? o.name = some t →
      (t.dropDefaults == o.type.dropDefaults) = false

/-- The definitions in a document differ wherever one of them starts. -/
theorem definesDistinctly_iff {r : Record} :
    r.DefinesDistinctly ↔ DefinitionsDiffer [] r.marks := by
  simp only [DefinesDistinctly, DefinitionsDiffer, along_iff, Bool.eq_false_iff, ne_eq,
    DataType.dropDefaults_beq_iff]
  constructor
  · intro h before m after he
    cases m with
    | opened o => exact h before o after he
    | _ => trivial
  · intro h before o after he
    exact h before (.opened o) after he

instance (r : Record) : Decidable r.DefinesDistinctly :=
  decidable_of_iff _ definesDistinctly_iff.symm

/-- The document of a record with further members. -/
def documentWith (r : Record) (entries : List (String × Json)) : Json :=
  .object (entries.foldl (fun members e => Json.Members.insert e.1 e.2 members) r.wireMembers)

section

variable {limit : Nat} {r s : Record} {entries : List (String × Json)}

/-- Further members under other keys do not change those of a record. -/
theorem get?_insert (hk : ∀ e ∈ entries, e.1 ∉ Wire.recordKeys) {key : String}
    (hm : key ∈ Wire.recordKeys) :
    Json.Members.get? (entries.foldl (fun members e => Json.Members.insert e.1 e.2 members)
      r.wireMembers) key = Json.Members.get? (r.members r.fieldNodes) key := by
  rw [Json.Members.get?_foldl_insert, wireMembers_eq]
  rintro e he rfl
  exact hk e he hm

/-- If a record comes back, its document does exactly if the definitions differ. -/
theorem documentWith_of_ofWire (ha : r.Admissible) (hk : ∀ e ∈ entries, e.1 ∉ Wire.recordKeys)
    (h : ofWire limit (r.documentWith entries) = .ok s) (he : (s == r.dropDefaults) = true) :
    (DefinitionsDiffer [] r.marks → s.documentWith entries = r.documentWith entries) ∧
      ((s.documentWith entries == r.documentWith entries) = true →
        DefinitionsDiffer [] r.marks) := by
  have hc := beq_dropDefaults_iff.1 he
  have hd := (Wire.describes_members r r.fieldNodes).congr fun key hm => get?_insert hk hm
  obtain ⟨hsame, hdiffer⟩ := wireMembers_of_reloadsAs (reloadsAs_of_ofMembers ha hd h hc) hc
  refine ⟨fun hm => by rw [documentWith, documentWith, hsame hm], fun hb => hdiffer ?_⟩
  -- governance metadata have other keys than the fields of the record
  have hf := Json.get?_eq_of_canonical_eq (Json.beq_eq_true_iff.1 hb) "fields"
  rw [get?_insert hk (by decide), get?_insert hk (by decide)] at hf
  simpa [Record.members, Json.canonical,
    Json.canonicalItems_eq_map] using hf

end

end Record

/-! ## Schemas -/

open SchemaTree

/-- The keys of governance metadata are not among those of a record. -/
theorem Governance.key_notMem_recordKeys (g : Governance) :
    ∀ e ∈ g.members, e.1 ∉ Wire.recordKeys := by
  simp [Governance.members, Wire.recordKeys]

/-- A value schema is read with the record that the members of its document describe. -/
theorem ValueSchema.ofWire_record {limit : Nat} {r : Record} {entries : List (String × Json)}
    {t : ValueSchema} (h : ValueSchema.ofWire limit (r.documentWith entries) = .ok t) :
    Record.ofWire limit (r.documentWith entries) = .ok t.record := by
  obtain ⟨record, hr, h⟩ := except_bind_eq_ok_iff.1 h
  split at h
  · cases h
    exact hr
  · cases h

/-- The documents and the fingerprints of two schemas agree as soon as the documents are equal. -/
theorem SchemaTree.fingerprint_eq {σ : Type} [SchemaTree σ] {s t : σ}
    (h : document t = document s) :
    (document t == document s) = true ∧ fingerprint t = fingerprint s := by
  refine ⟨Json.beq_eq_true_iff.2 (by rw [h]), ?_⟩
  rw [fingerprint, fingerprint, text, text, h]

/-- A schema that was read back has the document and the fingerprint of the one that was written
exactly if no definition in the document starts under a name that stands for a type which is equal
up to the default values of nullable fields. -/
theorem document_fingerprint_eq_iff (limit : Nat) :
    (∀ s t : RootSchema, s.record.Admissible →
      Record.ofWire limit (document s) = .ok t.record →
      (t == ⟨s.record.dropDefaults⟩) = true →
      ((document t == document s) = true ∧ fingerprint t = fingerprint s ↔
        s.record.DefinesDistinctly)) ∧
    (∀ s t : ValueSchema, s.record.Admissible →
      ValueSchema.ofWire limit (document s) = .ok t →
      (t == { s with record := s.record.dropDefaults }) = true →
      ((document t == document s) = true ∧ fingerprint t = fingerprint s ↔
        s.record.DefinesDistinctly)) := by
  constructor
  · intro s t ha h he
    have hk : ∀ e ∈ ([] : List (String × Json)), e.1 ∉ Wire.recordKeys := nofun
    obtain ⟨hsame, hdiffer⟩ := Record.documentWith_of_ofWire ha hk h he
    rw [Record.definesDistinctly_iff]
    exact ⟨fun hb => hdiffer hb.1, fun hd => fingerprint_eq (hsame hd)⟩
  · intro s t ha h he
    obtain ⟨hr, hg⟩ := Bool.and_eq_true_iff.1 he
    obtain ⟨hsame, hdiffer⟩ := Record.documentWith_of_ofWire ha
      s.governance.key_notMem_recordKeys (ValueSchema.ofWire_record h) hr
    have hdoc : document t = t.record.documentWith s.governance.members :=
      congrArg (fun g : Governance => t.record.documentWith g.members) (eq_of_beq hg)
    rw [Record.definesDistinctly_iff]
    refine ⟨fun hb => hdiffer (hdoc ▸ hb.1), fun hd => fingerprint_eq (hdoc.trans (hsame hd))⟩

/-- A value schema with the record of an order. -/
def orders : ValueSchema where
  record := Record.order
  governance := { primaryKeys := ["first", "id"], owner := some "orders@example.org" }

/-- Both the order and the value schema with its record keep document and fingerprint. -/
theorem orders_document_fingerprint_eq :
    (∃ t : RootSchema, Record.ofWire 13 (document (RootSchema.mk Record.order)) = .ok t.record ∧
      (t == ⟨Record.order.dropDefaults⟩) = true ∧
      (document t == document (RootSchema.mk Record.order)) = true ∧
      fingerprint t = fingerprint (RootSchema.mk Record.order)) ∧
    (∃ t, ValueSchema.ofWire 13 (document orders) = .ok t ∧
      (t == { orders with record := orders.record.dropDefaults }) = true ∧
      (document t == document orders) = true ∧ fingerprint t = fingerprint orders) := by
  have ha : Record.order.Admissible := by decide
  have hd : Record.order.DefinesDistinctly := by decide +kernel
  have hroot : ∃ t, Record.ofWire 13 Record.order.wire = .ok t ∧
      (t == Record.order.dropDefaults) = true := by decide +kernel
  have hvalue : ∃ t, ValueSchema.ofWire 13 (document orders) = .ok t ∧
      (t == { orders with record := orders.record.dropDefaults }) = true := by decide +kernel
  constructor
  · obtain ⟨t, h, he⟩ := hroot
    exact ⟨⟨t⟩, h, he, ((document_fingerprint_eq_iff 13).1 ⟨Record.order⟩ ⟨t⟩ ha h he).2 hd⟩
  · obtain ⟨t, h, he⟩ := hvalue
    exact ⟨t, h, he, ((document_fingerprint_eq_iff 13).2 orders t ha h he).2 hd⟩

/-- A point whose coordinate may be left out. -/
def point (standard : Option Json) : Record where
  name := "p"
  fields := [{ name := "x", type := .plain .int (.refl true), defaultValue := standard }]

/-- Two records of one full name that differ in the default value of a nullable field only. -/
def points : RootSchema where
  record := {
    name := "r"
    fields := [{ name := "a", type := .record (point (some (.int 1))) },
      { name := "b", type := .record (point none) }] }

/-- Both records come back equal, so the second one is only a reference in the new document. -/
theorem points_document_ne :
    points.record.Admissible ∧ ∃ r, Record.ofWire 64 (document points) = .ok r ∧
      (r == points.record.dropDefaults) = true ∧
      (document (RootSchema.mk r) == document points) = false := by
  decide +kernel

end AvroSchema
