import AvroSchema.Proofs.Json.Floats
import AvroSchema.Proofs.Wire.ChangedDefaults

/-!
# Documents of Equal Schemas

Equal schemas may differ in the signs of zeros inside default values. Changing the doubles in
default values to equal ones changes the doubles of the document alike and nothing else, because the
choice between a definition and a reference compares types. So equal schemas have equal documents,
but not one text: each zero in a document has two of them.

* `Record.documentWith_mapFloats`: a record with other doubles has the document with these doubles.
* `SchemaTree.text_fingerprint_eq_iff`: equal schemas have one text and one fingerprint exactly if
  there is no zero in the document.
-/

namespace AvroSchema

/-! ## Other doubles in default values -/

/-- The record with other doubles in its default values. -/
def Record.mapFloats (g : Binary64 → Binary64) (r : Record) : Record :=
  r.mapDefaults fun _ d => d.map (Json.mapFloats g)

/-- The canonical form has other zeros. -/
theorem Record.canonical_eq_mapFloats (r : Record) :
    r.canonical = r.mapFloats Binary64.canonical := by
  rw [canonical, mapFloats]
  congr 1
  funext _ d
  exact congrFun (congrArg Option.map (funext Json.canonical_eq_mapFloats)) d

section

variable {g : Binary64 → Binary64} (hg : ∀ x, (g x).canonical = x.canonical)
include hg

theorem Json.canonical_mapFloats (json : Json) : (json.mapFloats g).canonical = json.canonical := by
  rw [canonical_eq_mapFloats, mapFloats_mapFloats, canonical_eq_mapFloats]
  congr 1
  funext x
  exact hg x

/-- A type with other doubles that are equal is equal. -/
theorem DataType.canonical_mapFloats (t : DataType) :
    (t.mapDefaults fun _ d => d.map (Json.mapFloats g)).canonical = t.canonical := by
  rw [canonical, mapDefaults_mapDefaults, canonical]
  congr 1
  funext _ d
  rw [Option.map_map]
  congr 1
  funext json
  exact Json.canonical_mapFloats hg json

end

/-! ## Nodes -/

namespace Json

theorem floatsItems_map {α : Type} {store : α → Json} (h : ∀ a, (store a).floats = [])
    (as : List α) : floatsItems (as.map store) = [] := by
  induction as with
  | nil => rfl
  | cons a rest ih => rw [List.map_cons, floatsItems, h, ih, List.append_nil]

theorem floats_getD_null {α : Type} {store : α → Json} (h : ∀ a, (store a).floats = [])
    (a : Option α) : ((a.map store).getD .null).floats = [] := by
  cases a with
  | none => rfl
  | some a => exact h a

theorem floats_ofString? (text : Option String) : (ofString? text).floats = [] := by
  cases text <;> rfl

theorem floats_ofUInt32? (n : Option UInt32) : (ofUInt32? n).floats = [] := by
  cases n <;> rfl

end Json

/-- There are no doubles in a primitive type. -/
theorem Primitive.floats_wire (p : Primitive) : p.wire.floats = [] := by
  cases p with
  | plain kind h => cases kind <;> rfl
  | enum name symbols =>
    have hs := Json.floatsItems_map
      (fun text : String => (rfl : (Json.string text).floats = [])) symbols
    simp [wire, node, Json.floats, Json.floatsMembers, hs]
  | _ => rfl

theorem mapFloats_nullableNode (g : Binary64 → Binary64) (json : Json) :
    (nullableNode json).mapFloats g = nullableNode (json.mapFloats g) := by
  cases json <;> rfl

theorem Json.mapFloats_ofString? (g : Binary64 → Binary64) (text : Option String) :
    (ofString? text).mapFloats g = ofString? text := by
  cases text <;> rfl

/-- Changing the doubles of a field changes its default value and the node of its type. -/
theorem Field.node_mapFloats (g : Binary64 → Binary64) (f : Field) (json : Json) :
    (f.mapDefaults fun _ d => d.map (Json.mapFloats g)).node (json.mapFloats g) =
      (f.node json).mapFloats g := by
  obtain ⟨name, type, nullable, doc, standard, internal, technical, source, sensitivity⟩ := f
  cases nullable <;> cases standard <;> cases doc <;>
    simp [node, mapDefaults_eq, Json.mapFloats, Json.mapFloatsMembers_eq_map,
      Json.mapFloats_ofString?, mapFloats_nullableNode, wireName]

/-- A change of doubles to equal ones is carried to nodes. -/
theorem carries_mapFloats {g : Binary64 → Binary64} (hg : ∀ x, (g x).canonical = x.canonical) :
    Carries (fun _ d => d.map (Json.mapFloats g)) (Json.mapFloats g) where
  null := rfl
  string _ := rfl
  array items := by rw [Json.mapFloats, Json.mapFloatsItems_eq_map]
  object members := by rw [Json.mapFloats, Json.mapFloatsMembers_eq_map]
  primitive p := Json.mapFloats_eq_self p.wire fun x hx => by
    rw [Primitive.floats_wire] at hx
    cases hx
  field := Field.node_mapFloats g
  equal h := by rw [DataType.canonical_mapFloats hg, DataType.canonical_mapFloats hg, h]

/-! ## Documents -/

namespace Record

section

variable {g : Binary64 → Binary64} (hg : ∀ x, (g x).canonical = x.canonical)
include hg

/-- The document of a record with other doubles that are equal has these doubles. -/
theorem documentWith_mapFloats (r : Record) {entries : List (String × Json)}
    (he : ∀ e ∈ entries, e.2.floats = []) :
    (r.mapFloats g).documentWith entries = (r.documentWith entries).mapFloats g := by
  refine (carries_mapFloats hg).documentWith ?_ fun e hm => ?_
  · -- types that differ still do with equal doubles
    refine along_iff.2 fun before mark after _ => ?_
    cases mark with
    | opened o =>
      intro t _ hne
      rwa [DataType.canonical_mapFloats hg, DataType.canonical_mapFloats hg]
    | _ => trivial
  · refine Json.mapFloats_eq_self e.2 fun x hx => ?_
    rw [he e hm] at hx
    cases hx

end

/-- Equal records have equal documents. -/
theorem documentWith_canonical_eq {r s : Record} {entries : List (String × Json)}
    (he : ∀ e ∈ entries, e.2.floats = []) (h : (r == s) = true) :
    (r.documentWith entries).canonical = (s.documentWith entries).canonical := by
  have hc := Binary64.canonical_canonical
  rw [Json.canonical_eq_mapFloats, Json.canonical_eq_mapFloats, ← documentWith_mapFloats hc r he,
    ← documentWith_mapFloats hc s he, ← canonical_eq_mapFloats, ← canonical_eq_mapFloats,
    beq_eq_true_iff.1 h]

/-- A record equals the one with other signs of zeros. -/
theorem signZeros_beq (negative : Bool) (r : Record) :
    (r.mapFloats (Binary64.signZero negative) == r) = true :=
  beq_eq_true_iff.2 (DataType.record.inj
    (DataType.canonical_mapFloats (Binary64.canonical_signZero negative) (.record r)))

end Record

/-! ## Governance metadata -/

theorem Period.floats_toJson (p : Period) : p.toJson.floats = [] := by
  simp [toJson, TimeUnit.toJson, Json.floats, Json.floatsMembers, Json.floats_ofUInt32?]

theorem DeletionPolicy.floats_toJson (p : DeletionPolicy) : p.toJson.floats = [] := by
  simp [toJson, TimeUnit.toJson, Json.floats, Json.floatsMembers, Json.floats_ofUInt32?,
    Json.floats_ofString?]

theorem ForeignKey.floats_toJson (k : ForeignKey) : k.toJson.floats = [] := by
  have hc : ∀ c : JoinCondition, c.toJson.floats = [] := fun _ => rfl
  simp [toJson, Json.floats, Json.floatsMembers, Json.floats_ofString?, Json.floatsItems_map hc]

/-- There are no doubles in governance metadata. -/
theorem Governance.floats_members (g : Governance) : ∀ e ∈ g.members, e.2.floats = [] := by
  have hstring : ∀ text : String, (Json.string text).floats = [] := fun _ => rfl
  simp [members, Json.floats, Json.floatsItems_map hstring,
    Json.floatsItems_map ForeignKey.floats_toJson, Json.floats_ofString?,
    Json.floats_getD_null Period.floats_toJson,
    Json.floats_getD_null DeletionPolicy.floats_toJson]

/-! ## Schemas -/

namespace SchemaTree

/-- Text and fingerprint are those of the document. -/
theorem text_fingerprint_eq {σ : Type} [SchemaTree σ] {s t : σ} (h : document t = document s) :
    text t = text s ∧ fingerprint t = fingerprint s := by
  have htext : text t = text s := congrArg Json.compact h
  exact ⟨htext, congrArg Sha256.ofText htext⟩

/-- Equal schemas have one text exactly if there is no zero in the document, provided that equal
schemas have equal documents and that the signs of zeros can be changed. -/
private theorem text_fingerprint_eq_iff_of {σ : Type} [SchemaTree σ] [BEq σ] {s : σ}
    (hequal : ∀ t : σ, (t == s) = true → (document t).canonical = (document s).canonical)
    (hsigns : ∀ negative, ∃ t : σ, (t == s) = true ∧
      document t = (document s).mapFloats (Binary64.signZero negative)) :
    (∀ t : σ, (t == s) = true → text t = text s ∧ fingerprint t = fingerprint s) ↔
      (document s).NoZeros := by
  constructor
  · intro h
    -- with positive zeros and with negative ones there is the same text
    have hchars : ∀ negative, ((document s).mapFloats (Binary64.signZero negative)).chars =
        (document s).chars := by
      intro negative
      obtain ⟨t, ht, hd⟩ := hsigns negative
      rw [← hd]
      exact String.ofList_injective (h t ht).1
    exact Json.noZeros_of_chars_eq ((hchars true).trans (hchars false).symm)
  · intro hz t ht
    exact text_fingerprint_eq (Json.eq_of_canonical_eq_of_noZeros (hequal t ht) hz)

/-- The schemas equal to a root schema have its text and its fingerprint exactly if there is no zero
among the doubles of its document, and the same holds for value schemas and key schemas. -/
theorem text_fingerprint_eq_iff (r : RootSchema) (v : ValueSchema) (k : KeySchema) :
    ((∀ t : RootSchema, (t == r) = true → text t = text r ∧ fingerprint t = fingerprint r) ↔
      (document r).NoZeros) ∧
    ((∀ t : ValueSchema, (t == v) = true → text t = text v ∧ fingerprint t = fingerprint v) ↔
      (document v).NoZeros) ∧
    ((∀ t : KeySchema, (t == k) = true → text t = text k ∧ fingerprint t = fingerprint k) ↔
      (document k).NoZeros) := by
  have hnone : ∀ e ∈ ([] : List (String × Json)), e.2.floats = [] := by
    intro e he
    cases he
  refine ⟨?_, ?_, ?_⟩
  · refine text_fingerprint_eq_iff_of (fun t ht => Record.documentWith_canonical_eq hnone ht)
      fun negative => ?_
    exact ⟨⟨r.record.mapFloats (Binary64.signZero negative)⟩, r.record.signZeros_beq negative,
      Record.documentWith_mapFloats (Binary64.canonical_signZero negative) r.record hnone⟩
  · refine text_fingerprint_eq_iff_of (fun t ht => ?_) fun negative => ?_
    · -- equal schemas have the same governance metadata
      obtain ⟨hr, hg⟩ := Bool.and_eq_true_iff.1 ht
      have hd : document t = t.record.documentWith v.governance.members :=
        congrArg (fun g : Governance => t.record.documentWith g.members) (eq_of_beq hg)
      rw [hd]
      exact Record.documentWith_canonical_eq v.governance.floats_members hr
    · exact ⟨{ v with record := v.record.mapFloats (Binary64.signZero negative) },
        Bool.and_eq_true_iff.2 ⟨v.record.signZeros_beq negative, beq_self_eq_true v.governance⟩,
        Record.documentWith_mapFloats (Binary64.canonical_signZero negative) v.record
          v.governance.floats_members⟩
  · refine text_fingerprint_eq_iff_of (fun t ht => ?_) fun negative => ?_
    · exact Record.documentWith_canonical_eq hnone (Bool.and_eq_true_iff.1 ht).1
    · exact ⟨{ k with record := k.record.mapFloats (Binary64.signZero negative) },
        Bool.and_eq_true_iff.2 ⟨k.record.signZeros_beq negative, beq_self_eq_true k.synthetic⟩,
        Record.documentWith_mapFloats (Binary64.canonical_signZero negative) k.record hnone⟩

end SchemaTree

/-- A schema whose mandatory field is zero by default. -/
def zeroByDefault (negative : Bool) : RootSchema where
  record := {
    name := "r"
    fields := [
      { name := "x", type := .plain .double (.refl true), nullable := false,
        defaultValue := some (.float (.zero negative)) }] }

open SchemaTree

/-- Equal schemas whose documents show the sign of the zero. -/
theorem zeroByDefault_text_ne :
    (zeroByDefault true == zeroByDefault false) = true ∧
      text (zeroByDefault true) ≠ text (zeroByDefault false) := by
  refine ⟨by decide +kernel, fun h => ?_⟩
  have hlength := congrArg List.length (String.ofList_injective h)
  revert hlength
  decide +kernel

end AvroSchema
