import AvroSchema.Proofs.Json.CompactText
import AvroSchema.Proofs.Wire.Outlines

/-!
# Fingerprints

Two schemas with one document are equal up to the default values of nullable fields, governance
metadata included, whether or not a reader could resolve the references in that document. Documents
with one compact text are the same, so the same holds for schemas with one fingerprint, unless their
texts collide.

* `Governance.eq_of_canonical_eq`: the metadata in a document determine themselves.
* `dropDefaults_beq_of_document_beq`: what documents and fingerprints determine.
-/

namespace AvroSchema

/-! ## Governance metadata -/

namespace Json

section

variable {α : Type} {store : α → Json}

/-- A list is determined by its stored items. -/
theorem canonical_array_map_injective (h : Function.Injective fun a => (store a).canonical) :
    Function.Injective fun as : List α => (Json.array (as.map store)).canonical := by
  intro as bs he
  simp only [canonical, canonicalItems_eq_map, List.map_map, array.injEq] at he
  exact List.map_injective_iff.2 h he

/-- What may be absent is determined by what is stored for it, if null is stored for nothing
else. -/
theorem canonical_getD_null_injective (h : Function.Injective fun a => (store a).canonical)
    (hn : ∀ a, store a ≠ .null) :
    Function.Injective fun a : Option α => ((a.map store).getD .null).canonical := by
  have hnull : ∀ {json : Json}, json.canonical = .null → json = .null := by
    intro json hj
    cases json <;> simp_all [canonical]
  intro a b he
  cases a with
  | none =>
    cases b with
    | none => rfl
    | some b => exact absurd (hnull he.symm) (hn b)
  | some a =>
    cases b with
    | none => exact absurd (hnull he) (hn a)
    | some b => exact congrArg some (h he)

theorem canonical_string_injective : Function.Injective fun text => (Json.string text).canonical :=
  fun _ _ h => string.inj h

/-- Members with different keys that are put in are found. -/
theorem Members.get?_foldl_insert_of_mem {entries : Members} (hd : (entries.map Prod.fst).Nodup)
    {key : String} (h : key ∈ entries.map Prod.fst) (members : Members) :
    Members.get? (entries.foldl (fun members e => Members.insert e.1 e.2 members) members) key =
      Members.get? entries key := by
  induction entries generalizing members with
  | nil => cases h
  | cons e rest ih =>
    obtain ⟨other, value⟩ := e
    rw [List.map_cons, List.nodup_cons] at hd
    rw [List.foldl_cons, get?_cons]
    split
    · next he =>
      rw [he, get?_foldl_insert, get?_insert_self]
      rintro e hm rfl
      exact hd.1 (List.mem_map.2 ⟨e, hm, rfl⟩)
    · next he => exact ih hd.2 ((List.mem_cons.1 h).resolve_left he) _

end

end Json

theorem TimeUnit.name_injective : Function.Injective TimeUnit.name := by
  intro u v h
  cases u <;> cases v <;> simp_all [name]

theorem Json.canonical_ofUInt32?_injective :
    Function.Injective fun n => (Json.ofUInt32? n).canonical := by
  intro m n h
  cases m <;> cases n <;> simp_all [ofUInt32?, canonical, UInt32.toNat_inj]

theorem Period.toJson_ne_null (p : Period) : p.toJson ≠ .null := by
  intro h
  cases h

theorem Period.canonical_toJson_injective :
    Function.Injective fun p : Period => p.toJson.canonical := by
  intro p q h
  obtain ⟨value, unit⟩ := p
  obtain ⟨value', unit'⟩ := q
  simp only [toJson, TimeUnit.toJson, Json.canonical, Json.canonicalMembers, Json.object.injEq,
    List.cons.injEq, Prod.mk.injEq, Json.string.injEq, true_and, and_true] at h
  rw [TimeUnit.name_injective h.1, Json.canonical_ofUInt32?_injective h.2]

theorem DeletionPolicy.toJson_ne_null (p : DeletionPolicy) : p.toJson ≠ .null := by
  intro h
  cases h

theorem DeletionPolicy.canonical_toJson_injective :
    Function.Injective fun p : DeletionPolicy => p.toJson.canonical := by
  intro p q h
  obtain ⟨value, unit, description⟩ := p
  obtain ⟨value', unit', description'⟩ := q
  simp only [toJson, TimeUnit.toJson, Json.canonical, Json.canonicalMembers, Json.object.injEq,
    List.cons.injEq, Prod.mk.injEq, Json.string.injEq, true_and, and_true] at h
  rw [Json.ofString?_canonical_injective h.1, TimeUnit.name_injective h.2.1,
    Json.canonical_ofUInt32?_injective h.2.2]

theorem JoinCondition.canonical_toJson_injective :
    Function.Injective fun c : JoinCondition => c.toJson.canonical := by
  intro c d h
  obtain ⟨left, right, operator⟩ := c
  obtain ⟨left', right', operator'⟩ := d
  simp only [toJson, Json.canonical, Json.canonicalMembers, Json.object.injEq, List.cons.injEq,
    Prod.mk.injEq, Json.string.injEq, true_and, and_true] at h
  rw [h.1, h.2.1, h.2.2]

theorem ForeignKey.canonical_toJson_injective :
    Function.Injective fun k : ForeignKey => k.toJson.canonical := by
  intro k l h
  obtain ⟨schema, name, conditions⟩ := k
  obtain ⟨schema', name', conditions'⟩ := l
  simp only [toJson, Json.canonical, Json.canonicalMembers, Json.object.injEq, List.cons.injEq,
    Prod.mk.injEq, Json.string.injEq, true_and, and_true] at h
  obtain ⟨hconditions, hname, hschema⟩ := h
  rw [hschema, Json.ofString?_canonical_injective hname,
    Json.canonical_array_map_injective JoinCondition.canonical_toJson_injective
      hconditions]

attribute [ext] Governance

/-- The metadata that were put into a document determine themselves. -/
theorem Governance.eq_of_canonical_eq {g g' : Governance} {ms ns : Json.Members}
    (h : (Json.object (g.members.foldl (fun members e => Json.Members.insert e.1 e.2 members)
      ms)).canonical =
        (Json.object (g'.members.foldl (fun members e => Json.Members.insert e.1 e.2 members)
          ns)).canonical) : g = g' := by
  have hkeys : ∀ g : Governance, (g.members.map Prod.fst).Nodup := by
    intro g
    simp [members]
  -- what stands under each key is the same in both documents, and determines one part
  have hvalue : ∀ key ∈ g.members.map Prod.fst, (Json.Members.get? g.members key).map
      Json.canonical = (Json.Members.get? g'.members key).map Json.canonical := by
    intro key hk
    have hget := Json.get?_eq_of_canonical_eq h key
    rwa [Json.Members.get?_foldl_insert_of_mem (hkeys g) hk,
      Json.Members.get?_foldl_insert_of_mem (hkeys g') hk] at hget
  have hpks := Option.some.inj (hvalue "pks" (by simp [members]))
  have hfks := Option.some.inj (hvalue "fks" (by simp [members]))
  have howner := Option.some.inj (hvalue "data_product_owner_email" (by simp [members]))
  have hretention := Option.some.inj (hvalue "retention_period" (by simp [members]))
  have hdeletion := Option.some.inj (hvalue "deletion_policy" (by simp [members]))
  have hclasses := Option.some.inj (hvalue "data_classifications" (by simp [members]))
  have htickets := Option.some.inj (hvalue "tickets_url" (by simp [members]))
  have hrepository := Option.some.inj (hvalue "repo_url" (by simp [members]))
  have hstring := Json.canonical_string_injective
  exact Governance.ext (Json.canonical_array_map_injective hstring hpks)
    (Json.canonical_array_map_injective ForeignKey.canonical_toJson_injective hfks)
    (Json.ofString?_canonical_injective howner)
    (Json.canonical_getD_null_injective Period.canonical_toJson_injective Period.toJson_ne_null
      hretention)
    (Json.canonical_getD_null_injective DeletionPolicy.canonical_toJson_injective
      DeletionPolicy.toJson_ne_null hdeletion)
    (TextSet.ext (Json.canonical_array_map_injective hstring hclasses))
    (Json.ofString?_canonical_injective htickets) (Json.ofString?_canonical_injective hrepository)

/-! ## Schemas -/

/-- Documents of records with further members under other keys determine the outlines. -/
theorem Record.outline_eq_of_documentWith {r s : Record} {entries others : List (String × Json)}
    (ha : r.Admissible) (hb : s.Admissible) (hn : "null" ∉ r.innerNames)
    (hn' : "null" ∉ s.innerNames) (hk : ∀ e ∈ entries, e.1 ∉ Wire.recordKeys)
    (hk' : ∀ e ∈ others, e.1 ∉ Wire.recordKeys)
    (h : (r.documentWith entries == s.documentWith others) = true) : r.outline = s.outline := by
  refine outline_eq_of_members ha hb hn hn' fun key hm => ?_
  have hget := Json.get?_eq_of_canonical_eq (Json.beq_eq_true_iff.1 h) key
  rwa [get?_insert hk hm, get?_insert hk' hm] at hget

/-- The schema without the default values of nullable fields, at every level. -/
def RootSchema.dropDefaults (s : RootSchema) : RootSchema := ⟨s.record.dropDefaults⟩

/-- The schema without the default values of nullable fields, at every level. -/
def ValueSchema.dropDefaults (s : ValueSchema) : ValueSchema :=
  { s with record := s.record.dropDefaults }

open SchemaTree

theorem Record.dropDefaults_beq_iff {r s : Record} :
    (r.dropDefaults == s.dropDefaults) = true ↔ r.outline = s.outline := by
  rw [beq_dropDefaults_iff, canonical_dropDefaults]

theorem RootSchema.dropDefaults_beq_of_document_beq {a b : RootSchema} (ha : a.record.Admissible)
    (hb : b.record.Admissible) (hn : "null" ∉ a.record.innerNames)
    (hn' : "null" ∉ b.record.innerNames) (h : (document a == document b) = true) :
    (a.dropDefaults == b.dropDefaults) = true := by
  have hk : ∀ e ∈ ([] : List (String × Json)), e.1 ∉ Wire.recordKeys := nofun
  exact Record.dropDefaults_beq_iff.2
    (Record.outline_eq_of_documentWith ha hb hn hn' hk hk h)

theorem ValueSchema.dropDefaults_beq_of_document_beq {a b : ValueSchema} (ha : a.record.Admissible)
    (hb : b.record.Admissible) (hn : "null" ∉ a.record.innerNames)
    (hn' : "null" ∉ b.record.innerNames) (h : (document a == document b) = true) :
    (a.dropDefaults == b.dropDefaults) = true := by
  have hr := Record.outline_eq_of_documentWith ha hb hn hn' a.governance.key_notMem_recordKeys
    b.governance.key_notMem_recordKeys h
  have hg : a.governance = b.governance := Governance.eq_of_canonical_eq (Json.beq_eq_true_iff.1 h)
  exact Bool.and_eq_true_iff.2 ⟨Record.dropDefaults_beq_iff.2 hr, beq_iff_eq.2 hg⟩

/-- Schemas of one fingerprint have one document, or their texts collide. -/
theorem SchemaTree.document_beq_of_fingerprint_eq {σ : Type} [SchemaTree σ] {s t : σ}
    (h : fingerprint s = fingerprint t) :
    (document s == document t) = true ∨
      text s ≠ text t ∧ Sha256.ofText (text s) = Sha256.ofText (text t) := by
  by_cases he : text s = text t
  · rw [Json.beq_eq_true_iff, Json.eq_of_compact_eq he]
    exact Or.inl rfl
  · exact Or.inr ⟨he, h⟩

/-- Two schemas with one document are equal up to the default values of nullable fields, and so are
two schemas with one fingerprint, unless their texts collide. -/
theorem document_or_fingerprint_determines :
    (∀ a b : RootSchema, a.record.Admissible → b.record.Admissible →
      "null" ∉ a.record.innerNames → "null" ∉ b.record.innerNames →
      ((document a == document b) = true → (a.dropDefaults == b.dropDefaults) = true) ∧
      (fingerprint a = fingerprint b →
        (a.dropDefaults == b.dropDefaults) = true ∨
          text a ≠ text b ∧ Sha256.ofText (text a) = Sha256.ofText (text b))) ∧
    (∀ a b : ValueSchema, a.record.Admissible → b.record.Admissible →
      "null" ∉ a.record.innerNames → "null" ∉ b.record.innerNames →
      ((document a == document b) = true → (a.dropDefaults == b.dropDefaults) = true) ∧
      (fingerprint a = fingerprint b →
        (a.dropDefaults == b.dropDefaults) = true ∨
          text a ≠ text b ∧ Sha256.ofText (text a) = Sha256.ofText (text b))) := by
  constructor
  · intro a b ha hb hn hn'
    have hdoc := RootSchema.dropDefaults_beq_of_document_beq ha hb hn hn'
    exact ⟨hdoc, fun hf => (document_beq_of_fingerprint_eq hf).imp_left hdoc⟩
  · intro a b ha hb hn hn'
    have hdoc := ValueSchema.dropDefaults_beq_of_document_beq ha hb hn hn'
    exact ⟨hdoc, fun hf => (document_beq_of_fingerprint_eq hf).imp_left hdoc⟩

/-- The double one. -/
def Binary64.one : Binary64 := { negative := false, magnitude := ⟨2 ^ 52, 1022⟩ }

/-- A measure in units of some size; the value may be left out. -/
def measure (standard : Option Json) : Record where
  name := "measure"
  fields := [{ name := "x", type := .plain .double (.refl true), defaultValue := standard },
    { name := "unit", type := .plain .double (.refl true), nullable := false,
      defaultValue := some (.float .one) }]

/-- Two measures that differ in the default value of the nullable field have one document and one
fingerprint, and equal each other without it. -/
theorem measure_dropDefaults_beq :
    ((RootSchema.mk (measure (some (.int 7))) == ⟨measure none⟩) = false ∧
      (document (RootSchema.mk (measure (some (.int 7)))) ==
        document (RootSchema.mk (measure none))) = true ∧
      ((RootSchema.mk (measure (some (.int 7)))).dropDefaults ==
        (RootSchema.mk (measure none)).dropDefaults) = true) ∧
    (fingerprint (ValueSchema.mk (measure (some (.int 7))) {}) =
        fingerprint (ValueSchema.mk (measure none) {}) ∧
      ((ValueSchema.mk (measure (some (.int 7))) {}).dropDefaults ==
        (ValueSchema.mk (measure none) {}).dropDefaults) = true) := by
  have ha : (measure (some (.int 7))).Admissible := by decide
  have hb : (measure none).Admissible := by decide
  have hn : "null" ∉ (measure (some (.int 7))).innerNames := by decide
  have hn' : "null" ∉ (measure none).innerNames := by decide
  have hroot : (document (RootSchema.mk (measure (some (.int 7)))) ==
      document (RootSchema.mk (measure none))) = true := by decide +kernel
  have hvalue : document (ValueSchema.mk (measure (some (.int 7))) {}) =
      document (ValueSchema.mk (measure none) {}) := by rfl
  have hf : fingerprint (ValueSchema.mk (measure (some (.int 7))) {}) =
      fingerprint (ValueSchema.mk (measure none) {}) := by
    rw [fingerprint, fingerprint, text, text, hvalue]
  obtain ⟨hr1, -⟩ := document_or_fingerprint_determines.1 _ _ ha hb hn hn'
  obtain ⟨-, hv2⟩ := document_or_fingerprint_determines.2 (.mk (measure (some (.int 7))) {})
    (.mk (measure none) {}) ha hb hn hn'
  have htext : text (ValueSchema.mk (measure (some (.int 7))) {}) =
      text (ValueSchema.mk (measure none) {}) := by
    rw [text, text, hvalue]
  refine ⟨⟨by decide +kernel, hroot, hr1 hroot⟩, hf, ?_⟩
  exact (hv2 hf).resolve_right fun hc => hc.1 htext

end AvroSchema
