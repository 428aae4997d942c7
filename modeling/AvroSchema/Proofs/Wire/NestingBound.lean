import AvroSchema.Proofs.Wire.Provenance
import AvroSchema.Proofs.Wire.RoundTrip

/-!
# How Deep Types Can Get

The nesting limit is one of the text: every level that a reader goes down is a level of the
document. A name in it is one level, and stands for a whole type that was defined before, whose
definition may contain further names. A type can thus be nested deeper than its document, but every
reference adds at most as much as one definition may have by itself.

The invariant is one of the table of definitions: after `count` references, no type in it goes
deeper than that many definitions and one more.

* `Wire.inner_bounded`: what readers give, and define, is no deeper than levels and references allow.
* `Wire.steps_le_and_nesting_le_of_ofWire`: types and records of any document.
-/

namespace AvroSchema

/-! ## Steps into a type -/

mutual

/-- The number of array, map, union and record layers with a part inside on the longest path through
a type. A record without fields has no part inside. -/
def DataType.steps : DataType → Nat
  | .primitive _ => 0
  | .union members => UnionMember.stepsInto members
  | .array items => items.steps + 1
  | .map values => values.steps + 1
  | .record r => r.steps

/-- One step to the type of a member of a union, and the steps into it. -/
def UnionMember.stepsInto : List UnionMember → Nat
  | [] => 0
  | ⟨_, type⟩ :: rest => max (type.steps + 1) (UnionMember.stepsInto rest)

/-- One step to the type of a field, and the steps into it. -/
def Field.stepsInto : List Field → Nat
  | [] => 0
  | ⟨_, type, _, _, _, _, _, _, _⟩ :: rest => max (type.steps + 1) (Field.stepsInto rest)

/-- The number of layers with a part inside on the longest path through a record. -/
def Record.steps : Record → Nat
  | ⟨_, _, _, fields⟩ => Field.stepsInto fields

end

theorem UnionMember.stepsInto_le_iff {members : List UnionMember} {n : Nat} :
    stepsInto members ≤ n ↔ ∀ m ∈ members, m.type.steps < n := by
  induction members with
  | nil => simp [stepsInto]
  | cons m rest ih =>
    cases m
    rw [stepsInto, Nat.max_le, Nat.succ_le_iff, ih, List.forall_mem_cons]

theorem Field.stepsInto_le_iff {fields : List Field} {n : Nat} :
    stepsInto fields ≤ n ↔ ∀ f ∈ fields, f.type.steps < n := by
  induction fields with
  | nil => simp [stepsInto]
  | cons f rest ih =>
    cases f
    rw [stepsInto, Nat.max_le, Nat.succ_le_iff, ih, List.forall_mem_cons]

theorem DataType.steps_record_le_iff {r : Record} {n : Nat} :
    (record r).steps ≤ n ↔ ∀ f ∈ r.fields, f.type.steps < n := by
  obtain ⟨name, space, doc, fields⟩ := r
  rw [steps, Record.steps, Field.stepsInto_le_iff]

/-- Only the last layer on a path may have no part inside. -/
theorem DataType.nesting_le_steps_add_one (t : DataType) : t.nesting ≤ t.steps + 1 := by
  induction t with
  | primitive p => exact Nat.zero_le _
  | union members ih =>
    rw [nesting, steps, Nat.add_le_add_iff_right]
    -- without members there is no layer further inside, and each member adds one step
    induction members with
    | nil => exact Nat.le_refl _
    | cons m rest ihRest =>
      obtain ⟨hm, hr⟩ := List.forall_mem_cons.1 ih
      have hrest := ihRest hr
      cases m
      rw [UnionMember.nestingAll, UnionMember.stepsInto]
      dsimp only at hm
      omega
  | array items ih => exact Nat.succ_le_succ ih
  | map values ih => exact Nat.succ_le_succ ih
  | record r ih =>
    obtain ⟨name, space, doc, fields⟩ := r
    rw [nesting, Record.nesting, steps, Record.steps, Nat.add_le_add_iff_right]
    induction fields with
    | nil => exact Nat.le_refl _
    | cons f rest ihRest =>
      obtain ⟨hf, hr⟩ := List.forall_mem_cons.1 ih
      have hrest := ihRest hr
      cases f
      rw [Field.nestingAll, Field.stepsInto]
      dsimp only at hf
      omega

/-! ## References in a document -/

namespace Json

/-- Whether there are types under a key. The tags of records and arrays are no types. -/
def leadsToType (key : String) (value : Json) : Bool :=
  match key with
  | "type" => value.string? != some "record" && value.string? != some "array"
  | "items" | "values" | "fields" => true
  | _ => false

mutual

/-- The number of names in a document that stand where a type is expected and are not built in. -/
def references : Json → Nat
  | .string name => if name = "map" ∨ (Kind.ofAvro? name).isSome then 0 else 1
  | .array items => referencesItems items
  | .object members => referencesMembers members
  | .null | .bool _ | .int _ | .float _ => 0

/-- The number of such names in the items of an array. -/
def referencesItems : List Json → Nat
  | [] => 0
  | item :: rest => item.references + referencesItems rest

/-- The number of such names in the members of an object. -/
def referencesMembers : List (String × Json) → Nat
  | [] => 0
  | (key, value) :: rest =>
    (if leadsToType key value then value.references else 0) + referencesMembers rest

end

/-- The references under one key are among those of the object. -/
theorem references_le_of_get? {members : Members} {key : String} {value : Json}
    (h : Members.get? members key = some value) (hk : leadsToType key value = true) :
    value.references ≤ (object members).references := by
  rw [references]
  induction members with
  | nil => cases h
  | cons e rest ih =>
    obtain ⟨k, v⟩ := e
    rw [referencesMembers]
    rw [Members.get?_cons] at h
    split at h
    · next he =>
      cases h
      rw [← he, if_pos hk]
      exact Nat.le_add_right _ _
    · exact Nat.le_trans (ih h) (Nat.le_add_left _ _)

theorem referencesItems_filter_le (p : Json → Bool) (items : List Json) :
    referencesItems (items.filter p) ≤ referencesItems items := by
  induction items with
  | nil => exact Nat.le_refl _
  | cons item rest ih =>
    rw [List.filter_cons, referencesItems]
    split
    · rw [referencesItems]
      exact Nat.add_le_add_left ih _
    · exact Nat.le_trans ih (Nat.le_add_left _ _)

end Json

/-! ## Readings -/

/-- After some references, no definition goes deeper than that many definitions and one more, each
of them with as many steps as the width. -/
def Definitions.Low (width count : Nat) (table : Definitions) : Prop :=
  table.All fun t => t.steps ≤ width * (count + 1)

theorem Definitions.Low.mono {width count more : Nat} {table : Definitions}
    (h : table.Low width count) (hle : count ≤ more) : table.Low width more := by
  intro name t ht
  have hw := Nat.mul_le_mul_left width (Nat.succ_le_succ hle)
  exact Nat.le_trans (h name t ht) hw

namespace Wire

/-- The readers for what lies one level further inside give nothing deeper than some levels and the
references before and inside their nodes allow, and define nothing deeper than these references
allow. -/
structure Inner.Bounded (width levels : Nat) (inner : Inner) : Prop where
  node : ∀ {space json table t nullable left count}, table.Low width count →
    Gives (inner.node space json) table (t, nullable) left →
    t.steps < levels + width * (count + json.references) ∧
      left.Low width (count + json.references)
  branches : ∀ {space items table t nullable left count}, table.Low width count →
    Gives (inner.branches space items) table (t, nullable) left →
    t.steps < levels + width * (count + Json.referencesItems items) ∧
      left.Low width (count + Json.referencesItems items)
  field : ∀ {space json table f left count}, table.Low width count →
    Gives (inner.field space json) table f left →
    f.type.steps < levels + width * (count + json.references) ∧
      left.Low width (count + json.references)

/-- What may be given, and left, after some references by a reader that is built from readers with
some levels. A definition needs a reader that is further inside itself. -/
structure Allowed (width levels count : Nat) (t : DataType) (left : Definitions) : Prop where
  steps_le : t.steps ≤ levels + width * count
  low : levels ≤ width → left.Low width count

section

variable {width levels count references : Nat} {inner : Inner} {space : Option String}
  {members : Json.Members} {name : String} {table left : Definitions} {t : DataType}
  {nullable : Bool}

theorem Allowed.mono {more : Nat} (h : Allowed width levels count t left) (hle : count ≤ more) :
    Allowed width levels more t left := by
  have hw := Nat.mul_le_mul_left width hle
  exact ⟨Nat.le_trans h.steps_le (Nat.add_le_add_left hw _), fun hl => (h.low hl).mono hle⟩

/-- What has been read may be defined. -/
theorem Allowed.of_mayDefine (ht : t.steps ≤ levels + width * count) (hb : table.Low width count)
    (hd : table.MayDefine t left) : Allowed width levels count t left := by
  refine ⟨ht, fun hl => hb.mayDefine ?_ hd⟩
  calc t.steps ≤ levels + width * count := ht
    _ ≤ width + width * count := Nat.add_le_add_right hl _
    _ = width * (count + 1) := by rw [Nat.mul_succ, Nat.add_comm]

/-- Reading a list goes through as many references as its items have. -/
theorem steps_lt_of_gives_mapM {β : Type} {f : Json → Reading β} (size : β → Nat)
    {nodes : List Json} {bs : List β}
    (hf : ∀ node ∈ nodes, ∀ {count table b left}, table.Low width count →
      Gives (f node) table b left → size b < levels + width * (count + node.references) ∧
        left.Low width (count + node.references))
    (ht : table.Low width count) (h : Gives (nodes.mapM f) table bs left) :
    (∀ b ∈ bs, size b < levels + width * (count + Json.referencesItems nodes)) ∧
      left.Low width (count + Json.referencesItems nodes) := by
  -- every item starts from the definitions that the items before it left
  induction nodes generalizing count table bs with
  | nil =>
    obtain ⟨rfl, rfl⟩ := gives_mapM_nil.1 h
    exact ⟨by simp, ht⟩
  | cons node rest ih =>
    obtain ⟨b, between, others, hb, hrest, rfl⟩ := gives_mapM_cons.1 h
    obtain ⟨hsize, hbetween⟩ := hf node (by simp) ht hb
    obtain ⟨hall, hleft⟩ := ih (fun n hn => hf n (List.mem_cons_of_mem _ hn)) hbetween hrest
    rw [Json.referencesItems, ← Nat.add_assoc]
    refine ⟨List.forall_mem_cons.2 ⟨?_, hall⟩, hleft⟩
    have hw := Nat.mul_le_mul_left width
      (Nat.le_add_right (count + node.references) (Json.referencesItems rest))
    exact Nat.lt_of_lt_of_le hsize (Nat.add_le_add_left hw _)

variable (hi : inner.Bounded width levels) (ht : table.Low width count)
include hi ht

/-- A reference gives what was defined before, and counts as one. -/
theorem Allowed.of_namedReading
    (hvalues : ∀ {values}, Json.Members.get? members "values" = some values →
      values.references ≤ references)
    (hname : name ≠ "map" → Kind.ofAvro? name = none → 1 ≤ references)
    (h : NamedReading inner space members name table t left) :
    Allowed width levels (count + references) t left := by
  cases h with
  | primitive read defined =>
    -- there are no steps into a primitive type
    have hlow := ht.mono (Nat.le_add_right count references)
    exact .of_mayDefine (Nat.zero_le _) hlow defined
  | map values_eq read =>
    obtain ⟨hu, hleft⟩ := hi.node ht read
    exact Allowed.mono ⟨hu, fun _ => hleft⟩ (Nat.add_le_add_left (hvalues values_eq) _)
  | reference ne_map unknown resolved =>
    -- what stands for the name has been defined after the references before this one
    have hone := hname ne_map unknown
    have hsteps : t.steps ≤ width * (count + 1) := by
      rcases resolve?_eq_some_iff.1 resolved with hr | ⟨-, hr⟩
      · exact ht _ _ hr
      · exact ht _ _ hr
    have hallowed : Allowed width levels (count + 1) t table :=
      ⟨Nat.le_trans hsteps (Nat.le_add_left _ _), fun _ => ht.mono (Nat.le_succ _)⟩
    exact hallowed.mono (Nat.add_le_add_left hone _)

theorem Allowed.of_recordReading {r : Record}
    (hfields : ∀ {nodes}, Json.Members.get? members "fields" = some (.array nodes) →
      Json.referencesItems nodes ≤ references)
    (h : RecordReading inner space members table r left) :
    Allowed width levels (count + references) (.record r) left := by
  obtain ⟨nodes, between, hget, hread, hdefined⟩ := h.read
  obtain ⟨hall, hbetween⟩ := steps_lt_of_gives_mapM (fun f : Field => f.type.steps)
    (fun _ _ => hi.field) ht hread
  have hsteps := DataType.steps_record_le_iff.2 hall
  exact (Allowed.of_mayDefine hsteps hbetween hdefined).mono
    (Nat.add_le_add_left (hfields hget) _)

theorem Allowed.of_objectReading (h : ObjectReading inner space members table t nullable left) :
    Allowed width levels (count + (Json.object members).references) t left := by
  cases h with
  | branches type_eq read =>
    obtain ⟨hu, hleft⟩ := hi.branches ht read
    have hle := Json.references_le_of_get? type_eq rfl
    exact Allowed.mono ⟨Nat.le_of_lt hu, fun _ => hleft⟩ (Nat.add_le_add_left hle _)
  | node type_eq read =>
    obtain ⟨hu, hleft⟩ := hi.node ht read
    have hle := Json.references_le_of_get? type_eq rfl
    exact Allowed.mono ⟨Nat.le_of_lt hu, fun _ => hleft⟩ (Nat.add_le_add_left hle _)
  | record type_eq read =>
    exact .of_recordReading hi ht (fun hget => Json.references_le_of_get? hget rfl) read
  | array type_eq items_eq read =>
    obtain ⟨hu, hleft⟩ := hi.node ht read
    have hle := Json.references_le_of_get? items_eq rfl
    exact Allowed.mono ⟨hu, fun _ => hleft⟩ (Nat.add_le_add_left hle _)
  | @named name _ _ type_eq ne_record ne_array read =>
    refine .of_namedReading hi ht (fun hget => Json.references_le_of_get? hget rfl) ?_ read
    -- a name that is not built in counts as a reference
    intro hmap hkind
    have hle := Json.references_le_of_get? type_eq (by simp [Json.leadsToType, Json.string?, *])
    simpa [Json.references, hmap, hkind] using hle

theorem Allowed.of_readBranches {items : List Json}
    (h : Gives (readBranches inner space items) table (t, nullable) left) :
    Allowed width levels (count + Json.referencesItems items) t left := by
  have hle := Json.referencesItems_filter_le (!isNullBranch ·) items
  rcases hs : items.filter (!isNullBranch ·) with _ | ⟨single, _ | ⟨second, rest⟩⟩
  · exact absurd h (not_gives_readBranches_nil hs)
  · -- a single branch makes no layer
    obtain ⟨other, hsingle, -⟩ := (gives_readBranches_single hs).1 h
    obtain ⟨hu, hleft⟩ := hi.node ht hsingle
    rw [hs] at hle
    exact Allowed.mono ⟨Nat.le_of_lt hu, fun _ => hleft⟩ (Nat.add_le_add_left hle _)
  · obtain ⟨ts, hts, hu, -⟩ := (gives_readBranches_several (by simp [hs])).1 h
    obtain ⟨hall, hleft⟩ := steps_lt_of_gives_mapM DataType.steps
      (fun branch _ {count table u left} ht hu => by
        obtain ⟨other, hu⟩ := gives_readType.1 hu
        exact hi.node ht hu) ht hts
    refine Allowed.mono ⟨?_, fun _ => hleft⟩ (Nat.add_le_add_left hle _)
    -- the members make `AnyPrimitive`, which has no parts, or a union
    rcases DataType.unionOf_cases hu with rfl | rfl
    · exact Nat.zero_le _
    · exact UnionMember.stepsInto_le_iff.2 (List.forall_mem_map.2 hall)

theorem Allowed.of_readNode {json : Json}
    (h : Gives (readNode inner space json) table (t, nullable) left) :
    Allowed width levels (count + json.references) t left := by
  unfold readNode at h
  split at h
  · next name =>
    rw [gives_bind] at h
    obtain ⟨u, between, hu, hgive⟩ := h
    obtain ⟨hp, rfl⟩ := gives_pure.1 hgive
    cases hp
    refine .of_namedReading hi ht (by simp) (fun hmap hkind => ?_) (.of_gives hu)
    simp [Json.references, hmap, hkind]
  · exact .of_readBranches hi ht h
  · exact .of_objectReading hi ht (.of_gives h)
  · exact absurd (gives_lift.1 h).1 nofun

theorem Allowed.of_readField {json : Json} {f : Field}
    (h : Gives (readField inner space json) table f left) :
    Allowed width levels (count + json.references) f.type left := by
  obtain ⟨members, rfl, -, hread⟩ := exists_readObject_of_gives_readField h
  exact .of_objectReading hi ht hread

end

/-- Readers give nothing deeper than their levels and the references allow, if they have no more
levels than the limit. -/
theorem inner_bounded {limit levels : Nat} (h : levels ≤ limit) :
    (inner limit levels).Bounded (limit - 1) levels := by
  induction levels with
  | zero => exact ⟨fun _ => nofun, fun _ => nofun, fun _ => nofun⟩
  | succ levels ih =>
    have hi := ih (Nat.le_of_succ_le h)
    have hl : levels ≤ limit - 1 := Nat.le_sub_one_of_lt h
    -- one level more makes room for what is allowed
    have hroom : ∀ {count t left}, Allowed (limit - 1) levels count t left →
        t.steps < levels + 1 + (limit - 1) * count ∧ left.Low (limit - 1) count := by
      intro count t left ha
      exact ⟨by have := ha.steps_le; omega, ha.low hl⟩
    exact ⟨fun ht hg => hroom (.of_readNode hi ht hg), fun ht hg => hroom (.of_readBranches hi ht hg),
      fun ht hg => hroom (.of_readField hi ht hg)⟩

/-- A type that is read under a nesting limit has at most as many layers with a part inside as the
limit, and as many more for every reference as a definition may have inside the document, which is
one less than the limit. Only a record without fields may follow as a further layer. -/
theorem steps_le_and_nesting_le_of_ofWire (limit : Nat) (document : Json) :
    (∀ t nullable, DataType.ofWire limit document = .ok (t, nullable) →
      t.steps ≤ limit + (limit - 1) * document.references ∧
        t.nesting ≤ limit + (limit - 1) * document.references + 1) ∧
    (∀ r, Record.ofWire limit document = .ok r →
      r.steps ≤ limit + (limit - 1) * document.references ∧
        r.nesting ≤ limit + (limit - 1) * document.references + 1) := by
  have hi := inner_bounded (Nat.le_refl limit)
  have hnil : Definitions.Low (limit - 1) 0 [] := Definitions.All.nil
  -- the bound of the layers with a part inside is one for all layers
  have hboth : ∀ {t left}, Allowed (limit - 1) limit (0 + document.references) t left →
      t.steps ≤ limit + (limit - 1) * document.references ∧
        t.nesting ≤ limit + (limit - 1) * document.references + 1 := by
    intro t left ha
    have hsteps := ha.steps_le
    rw [Nat.zero_add] at hsteps
    exact ⟨hsteps, Nat.le_trans t.nesting_le_steps_add_one (Nat.succ_le_succ hsteps)⟩
  refine ⟨?type, ?record⟩
  case type =>
    intro t nullable h
    obtain ⟨left, hg⟩ := run_eq_ok_iff.1 h
    exact hboth (.of_readNode hi hnil hg)
  case record =>
    intro r h
    cases document with
    | object members =>
      obtain ⟨left, hread⟩ := exists_recordReading_of_ofMembers h
      have hr := hboth (.of_recordReading hi hnil
        (fun hget => Json.references_le_of_get? hget rfl) hread)
      rwa [DataType.steps, DataType.nesting] at hr
    | _ => cases h

end Wire

/-- The node of a shipment. Its first field defines a record with a seal inside, its second one a
record that refers to the first, and its third one is an array of references to the second. -/
def shipmentNode : Json := .object [
  ("fields", .array [
    .object [
      ("fields", .array [
        .object [("fields", .array []), ("name", .string "seal"), ("type", .string "record")]]),
      ("name", .string "item"), ("type", .string "record")],
    .object [
      ("fields", .array [.object [("name", .string "content"), ("type", .string "item")]]),
      ("name", .string "box"), ("type", .string "record")],
    .object [("items", .string "box"), ("name", .string "pallet"), ("type", .string "array")]]),
  ("name", .string "shipment"),
  ("type", .string "record")]

/-- A shipment is read under the limit 2, as a type and as a record, and each of its two references
makes room for one more layer. -/
theorem shipmentNode_steps_le :
    (∃ a, DataType.ofWire 2 shipmentNode = .ok a ∧ a.1.steps ≤ 4 ∧ a.1.nesting ≤ 5) ∧
    (∃ r, Record.ofWire 2 shipmentNode = .ok r ∧ r.steps ≤ 4 ∧ r.nesting ≤ 5) := by
  obtain ⟨htype, hrecord⟩ := Wire.steps_le_and_nesting_le_of_ofWire 2 shipmentNode
  have hreferences : shipmentNode.references = 2 := by decide +kernel
  rw [hreferences] at htype hrecord
  obtain ⟨a, ha, -⟩ : ∃ a, DataType.ofWire 2 shipmentNode = .ok a ∧ True := by decide +kernel
  obtain ⟨r, hr, -⟩ : ∃ r, Record.ofWire 2 shipmentNode = .ok r ∧ True := by decide +kernel
  exact ⟨⟨a, ha, htype a.1 a.2 ha⟩, ⟨r, hr, hrecord r hr⟩⟩

/-- A shipment is as deep as its levels and references allow. From the outside, its layers are the
shipment, the array of pallets, a box, an item and its seal, which has no part inside. -/
theorem shipmentNode_steps_eq :
    (∃ a, DataType.ofWire 2 shipmentNode = .ok a ∧ a.1.steps = 4 ∧ a.1.nesting = 5) ∧
    (∃ r, Record.ofWire 2 shipmentNode = .ok r ∧ r.steps = 4 ∧ r.nesting = 5) := by
  constructor <;> decide +kernel

/-- The nesting limit is no bound for the nesting of what is read, be it a type or a record. -/
theorem not_forall_nesting_le_limit :
    (¬ ∀ limit document t nullable,
      DataType.ofWire limit document = .ok (t, nullable) → t.nesting ≤ limit) ∧
    (¬ ∀ limit document r, Record.ofWire limit document = .ok r → r.nesting ≤ limit) := by
  obtain ⟨⟨a, ha, -, hdeep⟩, ⟨r, hr, -, hdeep'⟩⟩ := shipmentNode_steps_eq
  refine ⟨fun h => ?_, fun h => ?_⟩
  · have hle := h 2 shipmentNode a.1 a.2 ha
    omega
  · have hle := h 2 shipmentNode r hr
    omega

end AvroSchema
