import AvroSchema.Proofs.Keys.Derivation
import AvroSchema.Proofs.Wire.Admission

/-!
# Built Types

Types come from functions that check their parameters and from documents, and both may be mixed: a
type that is read can be the item of an array, and the field of a record can be taken out and added
to another one. `DataType.Built` is closed under all of this, and what is built is admissible.

* `DataType.Within`: the types inside a type.
* `DataType.Built.admissible`: parameters of built types are in range, at any level.
* `KeySchema.built_of_derive`: a key that is derived from a built value schema is built.
-/

namespace AvroSchema

namespace DataType

/-- The types that a type is made of; `AnyPrimitive` is made of its members, as other unions are of
theirs. -/
def children : DataType → List DataType
  | .primitive (.plain .anyPrimitive _) => anyPrimitiveMembers
  | .primitive _ => []
  | .union members => members.map UnionMember.type
  | .array items => [items]
  | .map values => [values]
  | .record r => r.fields.map Field.type

/-- A type is another one or stands inside it, at any level. -/
inductive Within (u : DataType) : DataType → Prop where
  | refl : Within u u
  | child {t m : DataType} (hm : m ∈ t.children) (h : Within u m) : Within u t

theorem admissible_of_mem_children {t m : DataType} (h : m ∈ t.children) (ht : t.Admissible) :
    m.Admissible := by
  unfold children at h
  split at h
  · revert m
    decide
  · cases h
  · exact (admissible_of_members? rfl ht).2 m h
  · rw [List.mem_singleton.1 h]
    rwa [Admissible] at ht
  · rw [List.mem_singleton.1 h]
    rwa [Admissible] at ht
  · obtain ⟨f, hf, rfl⟩ := List.mem_map.1 h
    rw [Admissible, Record.admissible_iff] at ht
    exact ht.2 f hf

theorem admissible_of_within {t u : DataType} (h : u.Within t) (ht : t.Admissible) :
    u.Admissible := by
  induction h with
  | refl => exact ht
  | child hm _ ih => exact ih (admissible_of_mem_children hm ht)

/-- The types that can be built: from parameters that are checked, from built types, from fields
that are added one by one, or by reading a document. -/
inductive Built : DataType → Prop where
  | plain (kind : Kind) (h : kind.isPlain = true) : Built (.plain kind h)
  | varchar {length : Int} {p : Primitive} (h : Primitive.varcharOf length = .ok p) :
    Built (.primitive p)
  | nvarchar {length : Int} {p : Primitive} (h : Primitive.nvarcharOf length = .ok p) :
    Built (.primitive p)
  | decimal {precision scale : Int} {p : Primitive}
    (h : Primitive.decimalOf precision scale = .ok p) : Built (.primitive p)
  | fixed {size : Int} {name : String} {p : Primitive} (h : Primitive.fixedOf size name = .ok p) :
    Built (.primitive p)
  | enum {name : String} {symbols : List String} {p : Primitive}
    (h : Primitive.enumOf name symbols = .ok p) : Built (.primitive p)
  | union {ts : List DataType} {t : DataType} (hm : ∀ m ∈ ts, Built m)
    (h : unionOf ts = .ok t) : Built t
  /-- A union whose members may not be those of `AnyPrimitive`. -/
  | strictUnion {ts : List DataType} {t : DataType} (hm : ∀ m ∈ ts, Built m)
    (h : strictUnion ts = .ok t) : Built t
  | array {items : DataType} (h : Built items) : Built (.array items)
  | map {values : DataType} (h : Built values) : Built (.map values)
  | empty (name : String) (space doc : Option String) : Built (.record { name, space, doc })
  /-- The record of a value schema before it has fields of its own. -/
  | technical (name : String) (space doc : Option String) :
    Built (.record { name, space, doc, fields := Technical.fields })
  | describe {r : Record} (space doc : Option String) (h : Built (.record r)) :
    Built (.record { r with space, doc })
  | addField {r s : Record} {f : Field} (hr : Built (.record r)) (hf : Built f.type)
    (h : r.addField f = .ok s) : Built (.record s)
  | read {limit : Nat} {document : Json} {t : DataType} {nullable : Bool}
    (h : DataType.ofWire limit document = .ok (t, nullable)) : Built t
  | readRecord {limit : Nat} {document : Json} {r : Record}
    (h : Record.ofWire limit document = .ok r) : Built (.record r)
  | readField {limit : Nat} {document : Json} {f : Field}
    (h : Field.ofWire limit document = .ok f) : Built f.type
  /-- Parts can be taken out of a type. -/
  | part {t u : DataType} (h : Built t) (hu : u.Within t) : Built u

/-- Only the fields of a record decide whether it is admissible. -/
theorem admissible_record_of_fields_eq {r s : Record}
    (hr : (DataType.record r).Admissible) (h : r.fields = s.fields) :
    (DataType.record s).Admissible := by
  rw [Admissible, Record.admissible_iff, Record.fieldNames] at hr ⊢
  rwa [h] at hr

/-- What is built is admissible. -/
theorem Built.admissible {t : DataType} (h : t.Built) : t.Admissible := by
  induction h with
  | plain => trivial
  | varchar h =>
    obtain ⟨-, -, -, ha⟩ := Primitive.varcharOf_eq_ok_iff.1 h
    exact ha
  | nvarchar h =>
    obtain ⟨-, -, -, ha⟩ := Primitive.nvarcharOf_eq_ok_iff.1 h
    exact ha
  | decimal h =>
    obtain ⟨-, -, -, -, -, ha⟩ := Primitive.decimalOf_eq_ok_iff.1 h
    exact ha
  | fixed h =>
    obtain ⟨-, -, -, ha⟩ := Primitive.fixedOf_eq_ok_iff.1 h
    exact ha
  | enum h =>
    obtain ⟨-, ha⟩ := Primitive.enumOf_eq_ok_iff.1 h
    exact ha
  -- a strict union is one that any types make
  | union _ h ih => exact unionOf_admissible ih h
  | strictUnion _ h ih => exact unionOf_admissible ih (unionOf_of_strictUnion h)
  | array _ ih => exact ih
  | map _ ih => exact ih
  | empty =>
    have h : (DataType.record { name := "" }).Admissible := by decide
    exact admissible_record_of_fields_eq h rfl
  | technical =>
    have h : (DataType.record { name := "", fields := Technical.fields }).Admissible := by decide
    exact admissible_record_of_fields_eq h rfl
  | describe _ _ _ ih => exact admissible_record_of_fields_eq ih rfl
  | addField _ _ h ihr ihf => exact Record.addField_admissible ihr ihf h
  -- what is read has the invariant of the readers, and a part that of the whole
  | read h => exact Wire.admissible_hereditary.of_ofWire h
  | readRecord h => exact Wire.admissible_hereditary.of_recordOfWire h
  | readField h => exact (Wire.admissible_hereditary.of_fieldOfWire h).1
  | part _ hu ih => exact admissible_of_within hu ih

end DataType

/-- No two fields of a built record share a name. -/
theorem Record.nodup_of_built {r : Record} (h : (DataType.record r).Built) :
    r.fieldNames.Nodup := by
  have ha := h.admissible
  rw [DataType.Admissible, admissible_iff] at ha
  exact ha.1

/-- A record that fields of built types are added to is built. -/
theorem Record.built_of_addFields {r s : Record} {fields : List Field}
    (hr : (DataType.record r).Built) (hf : ∀ f ∈ fields, f.type.Built)
    (h : r.addFields fields = .ok s) : (DataType.record s).Built := by
  unfold addFields at h
  induction fields generalizing r with
  | nil => exact Except.ok.inj h ▸ hr
  | cons f rest ih =>
    rw [List.foldlM_cons] at h
    obtain ⟨between, hb, h⟩ := except_bind_eq_ok_iff.1 h
    obtain ⟨hfirst, hrest⟩ := List.forall_mem_cons.1 hf
    exact ih (hr.addField hfirst hb) hrest h

/-- A key that is derived from a built value schema is built, whatever the configuration is. -/
theorem KeySchema.built_of_derive {config : Config} {s : ValueSchema} {k : KeySchema}
    (hs : (DataType.record s.record).Built) (h : derive config s = .ok k) :
    (DataType.record k.record).Built := by
  have hframe :=
    DataType.Built.empty (s.record.name ++ config.keySuffix) s.record.space s.record.doc
  unfold derive at h
  dsimp only at h
  split at h
  · obtain ⟨r, hr, hk⟩ := except_bind_eq_ok_iff.1 h
    obtain rfl := Except.ok.inj hk
    exact hframe.addField (.plain _ _) hr
  · obtain ⟨fields, hfields, h⟩ := except_bind_eq_ok_iff.1 h
    obtain ⟨r, hr, hk⟩ := except_bind_eq_ok_iff.1 h
    obtain rfl := Except.ok.inj hk
    refine Record.built_of_addFields hframe (fun f hf => ?_) hr
    -- the fields of the key are those of the value schema, made mandatory
    obtain ⟨g, hg, rfl⟩ := List.mem_map.1 hf
    rw [ValueSchema.primaryKeyFields_eq_ok hfields] at hg
    obtain ⟨name, -, hname⟩ := List.mem_filterMap.1 hg
    exact hs.part (.child (List.mem_map_of_mem (List.mem_of_find?_eq_some hname)) .refl)

end AvroSchema
