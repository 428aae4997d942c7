import AvroSchema.Proofs.Wire.DroppedDefaults
import AvroSchema.Proofs.Wire.EqualSchemas
import AvroSchema.Proofs.Wire.Fingerprints

/-!
# Derived Keys of Reloaded Value Schemas

Which fields a key has is decided by their names alone, so selecting them commutes with every change
of fields that keeps names. A value schema that was stored has lost the default values of nullable
fields. Its key is the one of the original without these default values. But a key makes its fields
mandatory, so a default value that does not count in the original does count in its key.

* `ValueSchema.keyRecord_mapFields`: selecting the fields of a key commutes with changing fields.
* `KeySchema.derive_eq`: a key has the selected fields, made mandatory.
* `KeySchema.derive_reloaded`: the key of a reloaded value schema.
-/

namespace AvroSchema

/-! ## Changing fields -/

/-- The record with every field of it changed. -/
def Record.mapFields (g : Field → Field) (r : Record) : Record :=
  { r with fields := r.fields.map g }

/-- The value schema with every field of it changed. -/
def ValueSchema.mapFields (g : Field → Field) (s : ValueSchema) : ValueSchema :=
  { s with record := s.record.mapFields g }

theorem Field.name_mapDefaults (f : Bool → Option Json → Option Json) (x : Field) :
    (x.mapDefaults f).name = x.name := by
  rw [mapDefaults_eq]

namespace Record

theorem mapFields_mapFields (g h : Field → Field) (r : Record) :
    (r.mapFields g).mapFields h = r.mapFields (h ∘ g) := by
  simp [mapFields]

theorem canonical_eq_mapFields (r : Record) : r.canonical = r.mapFields Field.canonical :=
  mapDefaults_eq _ r

theorem outline_eq_mapFields (r : Record) : r.outline = r.mapFields Field.outline :=
  mapDefaults_eq _ r

theorem dropDefaults_eq_mapFields (r : Record) : r.dropDefaults = r.mapFields Field.dropDefaults :=
  mapDefaults_eq _ r

theorem mapFields_eq_iff {g h : Field → Field} {r : Record} :
    r.mapFields g = r.mapFields h ↔ ∀ f ∈ r.fields, g f = h f := by
  simp [mapFields, List.map_inj_left]

section

variable {g : Field → Field} (hg : ∀ f, (g f).name = f.name)
include hg

theorem field?_mapFields (r : Record) (name : String) :
    (r.mapFields g).field? name = (r.field? name).map g := by
  rw [field?, mapFields, List.find?_map, field?]
  congr 2
  funext f
  rw [Function.comp_apply, hg]

theorem addField_mapFields (r : Record) (f : Field) :
    (r.mapFields g).addField (g f) = (r.addField f).map (mapFields g) := by
  rw [addField, addField, hasField, hasField, hg, field?_mapFields hg, Option.isSome_map]
  split
  · rfl
  · simp [Except.map, mapFields]

/-- Adding fields commutes with a change that keeps their names. -/
theorem addFields_mapFields (r : Record) (fields : List Field) :
    (r.mapFields g).addFields (fields.map g) = (r.addFields fields).map (mapFields g) := by
  unfold addFields
  induction fields generalizing r with
  | nil => rfl
  | cons f rest ih =>
    rw [List.map_cons, List.foldlM_cons, List.foldlM_cons, addField_mapFields hg]
    cases r.addField f with
    | error e => rfl
    | ok s => exact ih s

end

end Record

/-! ## Selecting the fields of a key -/

namespace ValueSchema

/-- The fields that are named by primary keys. -/
def keyFields (s : ValueSchema) : List Field :=
  s.governance.primaryKeys.filterMap s.record.field?

/-- The record of the key before it has fields. -/
def keyFrame (config : Config) (s : ValueSchema) : Record :=
  { s.record with name := s.record.name ++ config.keySuffix, fields := [] }

@[simp]
theorem fields_keyFrame (config : Config) (s : ValueSchema) : (s.keyFrame config).fields = [] := rfl

/-- The record of the key with its fields as they are in the value schema. -/
def keyRecord (config : Config) (s : ValueSchema) : Except SchemaError Record :=
  if s.governance.primaryKeys.isEmpty then (s.keyFrame config).addField Technical.keyTime
  else s.primaryKeyFields >>= (s.keyFrame config).addFields

/-- The fields under several names are found and changed one by one. -/
private theorem except_mapM_map {α β γ : Type} {ε : Type} (find : α → Except ε β) (g : β → γ)
    (as : List α) : (as.mapM fun a => (find a).map g) = (as.mapM find).map (List.map g) := by
  induction as with
  | nil => rfl
  | cons a rest ih =>
    rw [List.mapM_cons, List.mapM_cons, ih]
    cases find a with
    | error e => rfl
    | ok b => cases rest.mapM find <;> rfl

section

variable {g : Field → Field} (hg : ∀ f, (g f).name = f.name)
include hg

theorem primaryKeyFields_mapFields (s : ValueSchema) :
    (s.mapFields g).primaryKeyFields = s.primaryKeyFields.map (List.map g) := by
  rw [primaryKeyFields, primaryKeyFields, ← except_mapM_map]
  congr 1
  funext name
  rw [mapFields, Record.field?_mapFields hg]
  cases s.record.field? name <;> rfl

/-- Selecting the fields of a key commutes with a change that keeps their names. -/
theorem keyRecord_mapFields (ht : g Technical.keyTime = Technical.keyTime) (config : Config)
    (s : ValueSchema) :
    (s.mapFields g).keyRecord config = (s.keyRecord config).map (Record.mapFields g) := by
  -- there is no field in the frame yet, so none is changed
  have hframe : (s.keyFrame config).mapFields g = s.keyFrame config := rfl
  change (if s.governance.primaryKeys.isEmpty then (s.keyFrame config).addField Technical.keyTime
    else (s.mapFields g).primaryKeyFields >>= (s.keyFrame config).addFields) = _
  rw [keyRecord]
  split
  · have h := Record.addField_mapFields hg (s.keyFrame config) Technical.keyTime
    rwa [ht, hframe] at h
  · rw [primaryKeyFields_mapFields hg]
    cases s.primaryKeyFields with
    | error e => rfl
    | ok fields =>
      have h := Record.addFields_mapFields hg (s.keyFrame config) fields
      rwa [hframe] at h

end

/-- The fields are the ones that the primary keys name, in their order. -/
theorem primaryKeyFields_eq_ok_iff {s : ValueSchema} {fields : List Field} :
    s.primaryKeyFields = .ok fields ↔
      List.Forall₂ (fun name f => s.record.field? name = some f) s.governance.primaryKeys
        fields := by
  rw [primaryKeyFields, except_mapM_eq_ok_iff]
  constructor
  · refine List.Forall₂.imp fun name f hlookup => ?_
    split at hlookup
    · next found hfound => rw [hfound, Except.ok.inj hlookup]
    · cases hlookup
  · refine List.Forall₂.imp fun name f hfound => ?_
    rw [hfound]

theorem primaryKeyFields_eq_ok {s : ValueSchema} {fields : List Field}
    (h : s.primaryKeyFields = .ok fields) : fields = s.keyFields := by
  rw [primaryKeyFields_eq_ok_iff] at h
  rw [keyFields]
  generalize s.governance.primaryKeys = names at h ⊢
  induction h with
  | nil => rfl
  | cons hf _ ih => rw [List.filterMap_cons, hf, ← ih]

end ValueSchema

/-- Fields that are added stand behind those before. -/
theorem Record.fields_of_addFields {r s : Record} {fields : List Field}
    (h : r.addFields fields = .ok s) : s.fields = r.fields ++ fields := by
  unfold addFields at h
  induction fields generalizing r with
  | nil =>
    rw [← Except.ok.inj h, List.append_nil]
  | cons f rest ih =>
    rw [List.foldlM_cons] at h
    obtain ⟨between, hb, h⟩ := except_bind_eq_ok_iff.1 h
    obtain ⟨-, rfl⟩ := addField_eq_ok_iff.1 hb
    rw [ih h]
    simp

namespace ValueSchema

/-- The record of a key has the fields that are named by primary keys, or the time of the change if
there is none. -/
theorem forall_mem_fields_iff {P : Field → Prop} (ht : P Technical.keyTime) {config : Config}
    {s : ValueSchema} {r : Record} (h : s.keyRecord config = .ok r) :
    (∀ f ∈ r.fields, P f) ↔ ∀ f ∈ s.keyFields, P f := by
  unfold keyRecord at h
  split at h
  · next hn =>
    obtain ⟨-, rfl⟩ := Record.addField_eq_ok_iff.1 h
    simp [keyFields, List.isEmpty_iff.1 hn, ht]
  · obtain ⟨fields, hf, h⟩ := except_bind_eq_ok_iff.1 h
    rw [Record.fields_of_addFields h, primaryKeyFields_eq_ok hf, fields_keyFrame, List.nil_append]

end ValueSchema

/-- A key has the selected fields, made mandatory. -/
theorem KeySchema.derive_eq (config : Config) (s : ValueSchema) :
    derive config s = (s.keyRecord config).map fun r =>
      ⟨r.mapFields Field.notNull, s.governance.primaryKeys.isEmpty⟩ := by
  have hname : ∀ f : Field, f.notNull.name = f.name := fun _ => rfl
  have hderive : derive config s =
      if s.governance.primaryKeys.isEmpty then do
        return ⟨← (s.keyFrame config).addField Technical.keyTime, true⟩
      else do
        let fields ← s.primaryKeyFields
        return ⟨← (s.keyFrame config).addFields (fields.map Field.notNull), false⟩ := rfl
  rw [hderive, ValueSchema.keyRecord]
  split
  · next h =>
    rw [h]
    rfl
  · next h =>
    rw [Bool.eq_false_iff.2 h]
    cases s.primaryKeyFields with
    | error e => rfl
    | ok fields =>
      -- making fields mandatory keeps their names
      have hadd := Record.addFields_mapFields hname (s.keyFrame config) fields
      change ((s.keyFrame config).addFields (fields.map Field.notNull) >>= fun r =>
        pure (KeySchema.mk r false)) = ((s.keyFrame config).addFields fields).map _
      change (s.keyFrame config).addFields (fields.map Field.notNull) = _ at hadd
      rw [hadd]
      cases (s.keyFrame config).addFields fields <;> rfl

section

variable {config : Config} {s : ValueSchema}

theorem KeySchema.derive_of_keyRecord {r : Record} (h : s.keyRecord config = .ok r) :
    derive config s = .ok ⟨r.mapFields Field.notNull, s.governance.primaryKeys.isEmpty⟩ := by
  rw [derive_eq, h]
  rfl

theorem KeySchema.derive_of_keyRecord_error {e : SchemaError} (h : s.keyRecord config = .error e) :
    derive config s = .error e := by
  rw [derive_eq, h]
  rfl

end

/-! ## Bare fields -/

/-- A type is bare exactly if its outline is its canonical form. -/
theorem DataType.bare_iff_outline {t : DataType} : t.Bare ↔ t.outline = t.canonical := by
  constructor
  · intro h
    rw [← canonical_dropDefaults, h]
  · intro h
    induction t with
    | primitive p => exact bare_primitive p
    | union members ih =>
      rw [outline, canonical, mapDefaults_union, mapDefaults_union, union.injEq,
        List.map_inj_left] at h
      refine bare_union_iff.2 fun m hm => ih m hm ?_
      -- the two forms of a member have its tag in common, and agree in their types
      have he := h m hm
      rw [UnionMember.mapDefaults_eq, UnionMember.mapDefaults_eq] at he
      exact congrArg UnionMember.type he
    | array items ih => exact bare_array_iff.2 (ih (array.inj h))
    | map values ih => exact bare_map_iff.2 (ih (map.inj h))
    | record r ih =>
      rw [outline_record, canonical_record, record.injEq, Record.outline_eq_mapFields,
        Record.canonical_eq_mapFields, Record.mapFields_eq_iff] at h
      refine bare_record_iff.2 (Record.bare_iff.2 fun f hf => ?_)
      -- a nullable field has no default value in the outline, hence none in its canonical form
      have he := h f hf
      rw [Field.outline, Field.canonical, Field.mapDefaults_eq, Field.mapDefaults_eq] at he
      refine Field.bare_iff.2 ⟨ih f hf (congrArg Field.type he), fun hn => ?_⟩
      simpa [hn] using congrArg Field.defaultValue he

namespace Field

/-- A field is bare exactly if its outline is its canonical form. -/
theorem bare_iff_outline {f : Field} : f.Bare ↔ f.outline = f.canonical := by
  rw [bare_iff, DataType.bare_iff_outline]
  obtain ⟨name, type, nullable, doc, standard, internal, technical, source, sensitivity⟩ := f
  cases nullable <;> simp [outline, canonical, mapDefaults_eq, DataType.outline,
    DataType.canonical, eq_comm]

/-- Mandatory fields tell as much apart as the fields themselves do, but for nullability. -/
theorem notNull_inj {f g : Field} (hn : f.nullable = g.nullable) :
    f.notNull = g.notNull ↔ f = g := by
  cases f
  cases g
  simp_all [notNull]

theorem canonical_notNull (f : Field) : f.notNull.canonical = f.canonical.notNull := by
  cases f
  rfl

/-- A field that does not lose its own default value may be made mandatory first. -/
theorem dropDefaults_notNull {f : Field} (h : f.nullable = true → f.defaultValue = none) :
    f.notNull.dropDefaults = f.dropDefaults.notNull := by
  obtain ⟨name, type, nullable, doc, standard, internal, technical, source, sensitivity⟩ := f
  cases nullable <;> simp_all [notNull, dropDefaults, mapDefaults_eq]

end Field

namespace Record

theorem canonical_mapFields_notNull (r : Record) :
    (r.mapFields Field.notNull).canonical = r.canonical.mapFields Field.notNull := by
  rw [canonical_eq_mapFields, canonical_eq_mapFields, mapFields_mapFields, mapFields_mapFields]
  exact mapFields_eq_iff.2 fun f _ => f.canonical_notNull

theorem dropDefaults_mapFields_notNull {r : Record}
    (h : ∀ f ∈ r.fields, f.nullable = true → f.defaultValue = none) :
    (r.mapFields Field.notNull).dropDefaults = r.dropDefaults.mapFields Field.notNull := by
  rw [dropDefaults_eq_mapFields, dropDefaults_eq_mapFields, mapFields_mapFields,
    mapFields_mapFields]
  exact mapFields_eq_iff.2 fun f hf => Field.dropDefaults_notNull (h f hf)

/-- Records with mandatory fields are equal exactly if no default value was lost. -/
theorem mapFields_notNull_beq_iff {r q : Record} (h : q.canonical = r.outline) :
    (q.mapFields Field.notNull == r.mapFields Field.notNull) = true ↔
      ∀ f ∈ r.fields, f.Bare := by
  rw [beq_eq_true_iff, canonical_mapFields_notNull, canonical_mapFields_notNull, h,
    outline_eq_mapFields, canonical_eq_mapFields, mapFields_mapFields, mapFields_mapFields,
    mapFields_eq_iff]
  refine forall₂_congr fun f _ => ?_
  rw [Field.bare_iff_outline]
  exact Field.notNull_inj (by rw [Field.outline, Field.canonical, Field.mapDefaults_eq,
    Field.mapDefaults_eq])

end Record

/-! ## Keys -/

open SchemaTree

/-- Two results that agree after changes fail alike or agree after changes. -/
private theorem except_map_eq_map {ε α β γ : Type} {x : Except ε α} {y : Except ε β} {g : α → γ}
    {h : β → γ} (he : x.map g = y.map h) :
    (∃ e, x = .error e ∧ y = .error e) ∨ ∃ a b, x = .ok a ∧ y = .ok b ∧ g a = h b := by
  cases x <;> cases y <;> simp_all [Except.map]

namespace ValueSchema

theorem keyRecord_dropDefaults (config : Config) (s : ValueSchema) :
    s.dropDefaults.keyRecord config = (s.keyRecord config).map Record.dropDefaults := by
  rw [funext Record.dropDefaults_eq_mapFields, dropDefaults, Record.dropDefaults_eq_mapFields]
  exact keyRecord_mapFields (Field.name_mapDefaults _) rfl config s

/-- The selected fields of a value schema and of one that equals it without the default values of
nullable fields; or neither schema has a key, for the same reason. -/
theorem keyRecord_cases {v w : ValueSchema} (hr : w.record.canonical = v.record.outline)
    (hg : w.governance = v.governance) (config : Config) :
    (∃ e, v.keyRecord config = .error e ∧ w.keyRecord config = .error e) ∨
      ∃ r q, v.keyRecord config = .ok r ∧ w.keyRecord config = .ok q ∧
        r.outline = q.canonical := by
  -- both changes lead to one schema, which has one selection
  have hsame : v.mapFields Field.outline = w.mapFields Field.canonical := by
    rw [mapFields, mapFields, ← Record.canonical_eq_mapFields, ← Record.outline_eq_mapFields, hr,
      hg]
  have hv := keyRecord_mapFields (g := Field.outline) (Field.name_mapDefaults _) rfl config v
  have hw := keyRecord_mapFields (g := Field.canonical) (Field.name_mapDefaults _) rfl config w
  refine except_map_eq_map (g := Record.outline) (h := Record.canonical) ?_
  rw [funext Record.outline_eq_mapFields, funext Record.canonical_eq_mapFields]
  exact hv.symm.trans ((congrArg (keyRecord config) hsame).trans hw)

/-- A schema that is read back equals the one that was written without the default values of
nullable fields, since it has none itself. -/
theorem canonical_eq_of_ofWire {limit : Nat} {document : Json} {v w : ValueSchema}
    (h : ofWire limit document = .ok w) (he : (w.dropDefaults == v.dropDefaults) = true) :
    w.record.canonical = v.record.outline ∧ w.governance = v.governance := by
  obtain ⟨hr, hg⟩ := Bool.and_eq_true_iff.1 he
  have hbare : w.record.dropDefaults = w.record := bare_of_ofWire h
  change (w.record.dropDefaults == v.record.dropDefaults) = true at hr
  rw [hbare] at hr
  exact ⟨Record.beq_dropDefaults_iff.1 hr, eq_of_beq hg⟩

end ValueSchema

/-- What is left of a key without the default values of fields that were nullable has the document
of the key if no field of the key was nullable with a default value, and if either there is none
inside their types or the definitions in the document differ without it. -/
theorem KeySchema.document_beq {r q : Record} (h : r.outline = q.canonical) (synthetic : Bool)
    (hd : (∀ f ∈ r.fields, f.Bare) ∨
      (∀ f ∈ r.fields, f.nullable = true → f.defaultValue = none) ∧
        (r.mapFields Field.notNull).DefinesDistinctly) :
    (document (KeySchema.mk (q.mapFields Field.notNull) synthetic) ==
      document (KeySchema.mk (r.mapFields Field.notNull) synthetic)) = true ∧
    ((document (KeySchema.mk (r.mapFields Field.notNull) synthetic)).NoZeros ∨ q = r.dropDefaults →
      document (KeySchema.mk (q.mapFields Field.notNull) synthetic) =
        document (KeySchema.mk (r.mapFields Field.notNull) synthetic)) := by
  have hown : ∀ f ∈ r.fields, f.nullable = true → f.defaultValue = none := by
    rcases hd with hbare | ⟨hown, -⟩
    · exact fun f hf => (Field.bare_iff.1 (hbare f hf)).2
    · exact hown
  have hdrop := Record.dropDefaults_mapFields_notNull hown
  have hkey : (r.mapFields Field.notNull).dropDefaults.documentWith [] =
      (r.mapFields Field.notNull).documentWith [] := by
    -- either there is nothing to drop, or what is dropped is not written
    rcases hd with hbare | ⟨-, hdistinct⟩
    · have hr : r.dropDefaults = r := Record.bare_iff.2 hbare
      rw [hdrop, hr]
    · exact Record.documentWith_dropDefaults hdistinct []
  have hequal : (q.mapFields Field.notNull == (r.mapFields Field.notNull).dropDefaults) = true := by
    rw [Record.beq_eq_true_iff, hdrop, Record.canonical_mapFields_notNull,
      Record.canonical_mapFields_notNull, Record.canonical_dropDefaults, h]
  have hnone : ∀ e ∈ ([] : List (String × Json)), e.2.floats = [] := by simp
  have hdoc := Record.documentWith_canonical_eq hnone hequal
  rw [hkey] at hdoc
  refine ⟨Json.beq_eq_true_iff.2 hdoc, ?_⟩
  rintro (hzeros | rfl)
  · exact Json.eq_of_canonical_eq_of_noZeros hdoc hzeros
  · change (r.dropDefaults.mapFields Field.notNull).documentWith [] = _
    rw [← hdrop]
    exact hkey

/-- The key of a value schema that was stored. It fails for the same reason as the key of the
original, or it is the key of the original without the default values of nullable fields. Both keys
are equal exactly if no field of the primary key loses a default value, be it its own or one inside
its type. Their documents are equal if no such field loses its own one, unless a default value
inside a type alone kept two definitions apart; and so are texts and fingerprints, if the zeros in
them have the same signs. -/
theorem KeySchema.derive_reloaded (limit : Nat) (config : Config) {v w : ValueSchema}
    (h : ValueSchema.ofWire limit (document v) = .ok w)
    (he : (w.dropDefaults == v.dropDefaults) = true) :
    (∃ e, derive config v = .error e ∧ derive config w = .error e) ∨
    ∃ k l, derive config v = .ok k ∧ derive config w = .ok l ∧
      (∃ bare, derive config v.dropDefaults = .ok bare ∧ (l == bare) = true) ∧
      ((l == k) = true ↔ ∀ f ∈ v.keyFields, f.Bare) ∧
      ((∀ f ∈ v.keyFields, f.Bare) ∨
          (∀ f ∈ v.keyFields, f.nullable = true → f.defaultValue = none) ∧
            k.record.DefinesDistinctly →
        (document l == document k) = true ∧
          ((document k).NoZeros ∨ w = v.dropDefaults →
            text l = text k ∧ fingerprint l = fingerprint k)) := by
  obtain ⟨hr, hg⟩ := ValueSchema.canonical_eq_of_ofWire h he
  rcases ValueSchema.keyRecord_cases hr hg config with ⟨e, hv, hw⟩ | ⟨r, q, hv, hw, hrq⟩
  · exact Or.inl ⟨e, derive_of_keyRecord_error hv, derive_of_keyRecord_error hw⟩
  have hdrop : v.dropDefaults.keyRecord config = .ok r.dropDefaults := by
    rw [ValueSchema.keyRecord_dropDefaults, hv]
    rfl
  have hl := derive_of_keyRecord hw
  rw [hg] at hl
  -- the time of the change is bare, so that only the fields of the primary key matter
  have hbare := ValueSchema.forall_mem_fields_iff (P := Field.Bare) rfl hv
  have hown := ValueSchema.forall_mem_fields_iff
    (P := fun f => f.nullable = true → f.defaultValue = none) (fun _ => rfl) hv
  refine Or.inr ⟨_, _, derive_of_keyRecord hv, hl, ⟨_, derive_of_keyRecord hdrop, ?_⟩, ?_, ?_⟩
  · refine Bool.and_eq_true_iff.2 ⟨Record.beq_eq_true_iff.2 ?_, beq_self_eq_true _⟩
    rw [Record.canonical_mapFields_notNull, Record.canonical_mapFields_notNull,
      Record.canonical_dropDefaults, hrq]
  · rw [← hbare, ← Record.mapFields_notNull_beq_iff hrq.symm]
    exact Bool.and_eq_true_iff.trans (and_iff_left (beq_self_eq_true _))
  · rw [← hbare, ← hown]
    intro hd
    obtain ⟨hdoc, hsame⟩ := document_beq hrq v.governance.primaryKeys.isEmpty hd
    refine ⟨hdoc, fun hz => ?_⟩
    -- what was read back with the very same default values selects the same fields
    refine text_fingerprint_eq (hsame (hz.imp_right fun hvw => ?_))
    rw [hvw, hdrop] at hw
    exact (Except.ok.inj hw).symm

/-- Parcels with a number and a weight, both with a default value. The number, which is the primary
key, may be optional. -/
def parcels (optional : Bool) : ValueSchema where
  record := {
    name := "parcel"
    fields := [
      { name := "number", type := .plain .int (.refl true), nullable := optional,
        defaultValue := some (.int 0) },
      { name := "weight", type := .plain .double (.refl true),
        defaultValue := some (.float .one) }] }
  governance := { primaryKeys := ["number"] }

/-- A mandatory number keeps its default value, and so does the key. That of the weight is lost, but
the key does not have it. -/
theorem parcels_fingerprint_derive_eq :
    ∃ w, ValueSchema.ofWire 64 (document (parcels false)) = .ok w ∧
      (w == parcels false) = false ∧ (w.dropDefaults == (parcels false).dropDefaults) = true ∧
      ∃ k l, KeySchema.derive .defaults (parcels false) = .ok k ∧
        KeySchema.derive .defaults w = .ok l ∧ (l == k) = true ∧
        (document l == document k) = true ∧ text l = text k ∧ fingerprint l = fingerprint k := by
  have hreload : ∃ w, ValueSchema.ofWire 64 (document (parcels false)) = .ok w ∧
      (w == parcels false) = false ∧ (w.dropDefaults == (parcels false).dropDefaults) = true := by
    decide +kernel
  have hkey : ∃ k, KeySchema.derive .defaults (parcels false) = .ok k ∧ (document k).NoZeros := by
    decide +kernel
  have hbare : ∀ f ∈ (parcels false).keyFields, f.Bare := by
    intro f hf
    obtain rfl := List.mem_singleton.1 hf
    rfl
  obtain ⟨w, hw, hne, he⟩ := hreload
  obtain ⟨k, hk, hz⟩ := hkey
  refine ⟨w, hw, hne, he, ?_⟩
  rcases KeySchema.derive_reloaded 64 .defaults hw he with ⟨e, hv, -⟩ | ⟨k', l, hv, hl, -, hiff, hd⟩
  · rw [hk] at hv
    cases hv
  · obtain rfl := Except.ok.inj (hk.symm.trans hv)
    obtain ⟨hdoc, hsame⟩ := hd (Or.inl hbare)
    exact ⟨k, l, hk, hl, hiff.2 hbare, hdoc, hsame (Or.inl hz)⟩

/-- The default value of an optional number is not stored. It is in the key of the original, where
the number is mandatory, but not in the key of what was read back. -/
theorem parcels_derive_ne :
    ∃ w, ValueSchema.ofWire 64 (document (parcels true)) = .ok w ∧
      (w.dropDefaults == (parcels true).dropDefaults) = true ∧
      ∃ k, KeySchema.derive .defaults (parcels true) = .ok k ∧
        ∃ l, KeySchema.derive .defaults w = .ok l ∧ (l == k) = false ∧
          (document l == document k) = false := by
  decide +kernel

end AvroSchema
