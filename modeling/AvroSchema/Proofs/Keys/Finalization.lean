import Mathlib.Data.List.Nodup
import AvroSchema.Proofs.Keys.Derivation

/-!
# Finalization of Value Schemas

A value schema is final if it has primary keys and each names a field. Its key is derived field by
field, and a record never has two fields of one name, so there is a key exactly if no primary key is
listed twice. The changes of a value schema see to that, but a document may list a name twice, and
the list is read as it is. Such a repetition lasts until a change clears it.

* `ValueSchema.repeats_apply_iff`, `ValueSchema.repeats_run_iff`: what one change, and what many,
  make of repeated primary keys.
* `KeySchema.derive_of_checkPrimaryKeys`: the key of a final value schema, or why there is none.
* `ValueSchema.finalization_of_ofWire`: value schemas that are read and changed.
-/

namespace AvroSchema

/-! ## Changes of value schemas -/

/-- A name is listed more than once. -/
def Repeats (names : List String) (name : String) : Prop := 1 < names.count name

theorem nodup_iff_forall_not_repeats {names : List String} :
    names.Nodup ↔ ∀ name, ¬ Repeats names name := by
  rw [List.nodup_iff_count_le_one]
  exact forall_congr' fun name => Nat.not_lt.symm

namespace Governance

/-- A further primary key repeats nothing. -/
theorem repeats_addPrimaryKey_iff {g : Governance} {added name : String} :
    Repeats (g.addPrimaryKey added).primaryKeys name ↔ Repeats g.primaryKeys name := by
  unfold addPrimaryKey
  split
  · exact Iff.rfl
  next hnew =>
  unfold Repeats
  rw [List.count_append]
  by_cases he : added = name
  · -- the name is there once now, as it was not there before
    subst he
    simp [List.count_eq_zero_of_not_mem hnew]
  · simp [he]

theorem repeats_removePrimaryKey_iff {g : Governance} {removed name : String} :
    Repeats (g.removePrimaryKey removed).primaryKeys name ↔
      removed ≠ name ∧ Repeats g.primaryKeys name := by
  unfold Repeats removePrimaryKey
  by_cases he : removed = name
  · subst he
    have hnone : removed ∉ g.primaryKeys.filter (· != removed) := by simp
    simp [List.count_eq_zero_of_not_mem hnone]
  · have hkept : (name != removed) = true := by simpa using fun e : name = removed => he e.symm
    rw [List.count_filter (p := fun n => n != removed) hkept]
    exact (and_iff_right he).symm

/-- Primary keys that take the place of others are put there one by one. -/
theorem not_repeats_setPrimaryKeys {g : Governance} {names : List String} {name : String} :
    ¬ Repeats (g.setPrimaryKeys names).primaryKeys name := by
  unfold setPrimaryKeys
  have hempty : ¬ Repeats ({ g with primaryKeys := [] } : Governance).primaryKeys name :=
    Nat.not_lt_zero 1
  generalize { g with primaryKeys := [] } = start at hempty ⊢
  induction names generalizing start with
  | nil => exact hempty
  | cons first rest ih => exact ih _ (fun h => hempty (repeats_addPrimaryKey_iff.1 h))

end Governance

namespace ValueSchema

/-- A change of the fields or the primary keys of a value schema. -/
inductive Change where
  /-- A further field; a field whose name is taken changes nothing. -/
  | addField (f : Field)
  | addPrimaryKey (name : String)
  | removePrimaryKey (name : String)
  /-- Other primary keys in place of the ones there are. -/
  | setPrimaryKeys (names : List String)

/-- The value schema after a change. -/
def apply (s : ValueSchema) : Change → ValueSchema
  | .addField f =>
    match s.addField f with
    | .ok t => t
    | .error _ => s
  | .addPrimaryKey name => s.govern (·.addPrimaryKey name)
  | .removePrimaryKey name => s.govern (·.removePrimaryKey name)
  | .setPrimaryKeys names => s.govern (·.setPrimaryKeys names)

/-- The value schema after several changes. -/
def run (s : ValueSchema) (changes : List Change) : ValueSchema := changes.foldl apply s

/-- Whether a change takes a name off the list of primary keys, be it to put it there again. -/
def Change.Clears (name : String) : Change → Prop
  | .removePrimaryKey removed => removed = name
  | .setPrimaryKeys _ => True
  | .addField _ | .addPrimaryKey _ => False

theorem governance_apply_addField (s : ValueSchema) (f : Field) :
    (s.apply (.addField f)).governance = s.governance := by
  unfold apply
  dsimp only
  split
  · next t ht =>
    obtain ⟨r, -, hr⟩ := except_bind_eq_ok_iff.1 ht
    cases hr
    rfl
  · rfl

/-- After a change, those primary keys are repeated that were repeated before and that it does not
clear. -/
theorem repeats_apply_iff {s : ValueSchema} {change : Change} {name : String} :
    Repeats (s.apply change).governance.primaryKeys name ↔
      ¬ change.Clears name ∧ Repeats s.governance.primaryKeys name := by
  cases change with
  | addField f =>
    -- fields are no primary keys, whether they are added or not
    rw [governance_apply_addField]
    exact (and_iff_right not_false).symm
  | addPrimaryKey added =>
    exact Governance.repeats_addPrimaryKey_iff.trans (and_iff_right not_false).symm
  | removePrimaryKey removed => exact Governance.repeats_removePrimaryKey_iff
  | setPrimaryKeys names =>
    refine iff_of_false Governance.not_repeats_setPrimaryKeys ?_
    exact fun h => h.1 trivial

/-- Only repetitions that no change clears are left after several changes. -/
theorem repeats_run_iff {s : ValueSchema} {changes : List Change} {name : String} :
    Repeats (s.run changes).governance.primaryKeys name ↔
      (∀ change ∈ changes, ¬ change.Clears name) ∧ Repeats s.governance.primaryKeys name := by
  -- a repetition is left after all changes exactly if it is left after each
  induction changes generalizing s with
  | nil => simp [run]
  | cons change rest ih =>
    have hstep : s.run (change :: rest) = (s.apply change).run rest := rfl
    rw [hstep, ih, repeats_apply_iff, List.forall_mem_cons, and_assoc, and_left_comm]

end ValueSchema

/-! ## The primary keys of a document -/

/-- The names that a document lists as primary keys. -/
def Json.primaryKeys : Json → List String
  | .object members =>
    match Json.Members.get? members "pks" with
    | some (.array items) => items.filterMap Json.string?
    | _ => []
  | _ => []

/-- A list of texts is read as the texts in it. -/
theorem Json.eq_filterMap_of_list?_string? {items : List Json} {names : List String}
    (h : Json.list? Json.string? (.array items) = some names) :
    names = items.filterMap Json.string? := by
  change items.mapM Json.string? = some names at h
  induction items generalizing names with
  | nil => exact (Option.some.inj h).symm
  | cons item rest ih =>
    rw [List.mapM_cons] at h
    obtain ⟨name, hname, h⟩ := Option.bind_eq_some_iff.1 h
    obtain ⟨others, hothers, h⟩ := Option.bind_eq_some_iff.1 h
    rw [← Option.some.inj h, List.filterMap_cons, hname, ih hothers]

/-- The primary keys of a document are read as they are listed, and none if none are. -/
theorem Governance.primaryKeys_of_ofMembers {members : Json.Members} {g : Governance}
    (h : ofMembers members = .ok g) : g.primaryKeys = (Json.object members).primaryKeys := by
  simp only [ofMembers, except_bind_eq_ok_iff] at h
  obtain ⟨listed, hlisted, _, -, _, -, _, -, _, -, _, -, _, -, _, -, hg⟩ := h
  obtain rfl := Except.ok.inj hg
  -- an absent list and null are the empty list
  rw [Json.Members.stored_eq_ok_iff] at hlisted
  unfold Json.Members.optional? at hlisted
  unfold Json.primaryKeys
  dsimp only
  cases hget : Json.Members.get? members "pks" with
  | none =>
    rw [hget] at hlisted
    obtain rfl := Option.some.inj hlisted
    rfl
  | some value =>
    rw [hget] at hlisted
    cases value with
    | null =>
      obtain rfl := Option.some.inj hlisted
      rfl
    | array items =>
      obtain ⟨names, hnames, rfl⟩ := Option.map_eq_some_iff.1 hlisted
      exact Json.eq_filterMap_of_list?_string? hnames
    | _ => cases hlisted

theorem ValueSchema.primaryKeys_of_ofWire {limit : Nat} {document : Json} {s : ValueSchema}
    (h : ofWire limit document = .ok s) : s.governance.primaryKeys = document.primaryKeys := by
  obtain ⟨members, rfl, -, hg⟩ := exists_ofMembers h
  exact Governance.primaryKeys_of_ofMembers hg

/-! ## Keys of final value schemas -/

/-- Fields with names that are new and distinct are added. -/
theorem Record.addFields_eq_ok {r : Record} {fields : List Field}
    (h : (r.fieldNames ++ fields.map Field.name).Nodup) :
    r.addFields fields = .ok { r with fields := r.fields ++ fields } := by
  unfold addFields
  induction fields generalizing r with
  | nil =>
    cases r
    rw [List.append_nil]
    rfl
  | cons f rest ih =>
    have hnew : f.name ∉ r.fieldNames := fun hm =>
      (List.nodup_append.1 h).2.2 f.name hm f.name (by simp) rfl
    rw [List.foldlM_cons, addField_eq_ok_iff.2 ⟨hnew, rfl⟩]
    have hrest := ih (r := { r with fields := r.fields ++ [f] }) (by
      simpa [fieldNames] using h)
    refine hrest.trans ?_
    simp

/-- Only a repeated name is in the way of adding fields. -/
theorem Record.exists_repeats_of_addFields {r : Record} {fields : List Field}
    (h : ¬ (r.fieldNames ++ fields.map Field.name).Nodup) (hr : r.fieldNames.Nodup) :
    ∃ name, Repeats (r.fieldNames ++ fields.map Field.name) name ∧
      r.addFields fields = .error (.duplicateField name) := by
  unfold addFields
  induction fields generalizing r with
  | nil => exact absurd (by simpa using hr) h
  | cons f rest ih =>
    rw [List.foldlM_cons]
    by_cases hm : f.name ∈ r.fieldNames
    · -- the name of this field is the one that is taken
      refine ⟨f.name, ?_, ?_⟩
      · have hpos := List.count_pos_iff.2 hm
        simp only [Repeats, List.count_append, List.map_cons, List.count_cons_self]
        omega
      · rw [addField, hasField_eq_true_iff.2 hm]
        rfl
    · rw [addField_eq_ok_iff.2 ⟨hm, rfl⟩]
      have hnames : ({ r with fields := r.fields ++ [f] } : Record).fieldNames =
          r.fieldNames ++ [f.name] := by simp [fieldNames]
      have hassoc : r.fieldNames ++ (f :: rest).map Field.name =
          ({ r with fields := r.fields ++ [f] } : Record).fieldNames ++ rest.map Field.name := by
        simp [hnames]
      rw [hassoc] at h ⊢
      refine ih h ?_
      rw [hnames, ← List.concat_eq_append]
      exact hr.concat hm

namespace ValueSchema

/-- The fields that primary keys name have these names. -/
theorem map_name_of_primaryKeyFields {s : ValueSchema} {fields : List Field}
    (h : s.primaryKeyFields = .ok fields) : fields.map Field.name = s.governance.primaryKeys := by
  rw [primaryKeyFields_eq_ok_iff] at h
  generalize s.governance.primaryKeys = names at h ⊢
  induction h with
  | nil => rfl
  | cons hf _ ih =>
    obtain ⟨hname, -⟩ := Record.field?_eq_some_iff.1 hf
    rw [List.map_cons, hname, ih]

/-- A value schema is final only if it has primary keys, and a field for each. -/
theorem exists_primaryKeyFields_of_checkPrimaryKeys {s : ValueSchema}
    (h : s.checkPrimaryKeys = .ok ()) :
    s.governance.primaryKeys.isEmpty = false ∧ ∃ fields, s.primaryKeyFields = .ok fields := by
  unfold checkPrimaryKeys at h
  split at h
  · cases h
  · next hne =>
    obtain ⟨fields, hfields, -⟩ := except_bind_eq_ok_iff.1 h
    exact ⟨by simpa using hne, fields, hfields⟩

end ValueSchema

/-- If no primary key is repeated, the key has the fields that the primary keys name, made
mandatory. -/
theorem KeySchema.derive_of_primaryKeyFields {s : ValueSchema} {fields : List Field}
    (config : Config) (hne : s.governance.primaryKeys ≠ []) (hn : s.governance.primaryKeys.Nodup)
    (hfields : s.primaryKeyFields = .ok fields) :
    derive config s =
      .ok ⟨{ s.keyFrame config with fields := fields.map Field.notNull }, false⟩ := by
  have hempty : s.governance.primaryKeys.isEmpty = false := by simpa using hne
  have hkey : s.keyRecord config = (s.keyFrame config).addFields fields := by
    rw [ValueSchema.keyRecord, hempty, hfields]
    rfl
  -- the fields have the names that they were looked up by
  have hnames : ((s.keyFrame config).fieldNames ++ fields.map Field.name).Nodup := by
    rw [ValueSchema.map_name_of_primaryKeyFields hfields]
    exact hn
  rw [derive_of_keyRecord (hkey.trans (Record.addFields_eq_ok hnames)), hempty]
  simp [Record.mapFields]

/-- The key of a final value schema has one field for each primary key, or there is no key because a
primary key is repeated. -/
theorem KeySchema.derive_of_checkPrimaryKeys {s : ValueSchema} (h : s.checkPrimaryKeys = .ok ())
    (config : Config) :
    (s.governance.primaryKeys.Nodup →
      ∃ k, derive config s = .ok k ∧ k.record.fieldNames = s.governance.primaryKeys ∧
        k.synthetic = false) ∧
    (¬ s.governance.primaryKeys.Nodup →
      ∃ name, Repeats s.governance.primaryKeys name ∧
        derive config s = .error (.duplicateField name)) := by
  obtain ⟨hne, fields, hfields⟩ := ValueSchema.exists_primaryKeyFields_of_checkPrimaryKeys h
  have hnames := ValueSchema.map_name_of_primaryKeyFields hfields
  rw [← hnames]
  refine ⟨fun hnodup => ?_, fun hrepeated => ?_⟩
  · have hderive := derive_of_primaryKeyFields config (by simpa using hne) (hnames ▸ hnodup) hfields
    exact ⟨_, hderive, by simp [Record.fieldNames, Field.notNull, Function.comp_def], rfl⟩
  · -- there is no field in the frame of the key, so the names are those of the primary keys
    have hframe : (s.keyFrame config).fieldNames = [] := rfl
    obtain ⟨name, hname, hadd⟩ := Record.exists_repeats_of_addFields
      (r := s.keyFrame config) hrepeated (hframe ▸ List.nodup_nil)
    have hkey : s.keyRecord config = (s.keyFrame config).addFields fields := by
      rw [ValueSchema.keyRecord, hne, hfields]
      rfl
    exact ⟨name, hname, derive_of_keyRecord_error (hkey.trans hadd)⟩

namespace ValueSchema

/-- A value schema that is read from a document and then changed lists no primary key twice exactly
if every name that the document lists twice was cleared by a change. If it is final, there is a key
with one field for each primary key exactly in this case, whatever the configuration is; otherwise a
repeated name is reported. -/
theorem finalization_of_ofWire {limit : Nat} {document : Json} {s : ValueSchema}
    (h : ofWire limit document = .ok s) (changes : List Change) :
    ((s.run changes).governance.primaryKeys.Nodup ↔
      ∀ name, Repeats document.primaryKeys name → ∃ change ∈ changes, change.Clears name) ∧
    ((s.run changes).checkPrimaryKeys = .ok () → ∀ config,
      ((s.run changes).governance.primaryKeys.Nodup →
        ∃ k, KeySchema.derive config (s.run changes) = .ok k ∧
          k.record.fieldNames = (s.run changes).governance.primaryKeys ∧ k.synthetic = false) ∧
      (¬ (s.run changes).governance.primaryKeys.Nodup →
        ∃ name, Repeats (s.run changes).governance.primaryKeys name ∧
          KeySchema.derive config (s.run changes) = .error (.duplicateField name))) := by
  refine ⟨?_, fun hcheck config => KeySchema.derive_of_checkPrimaryKeys hcheck config⟩
  rw [nodup_iff_forall_not_repeats]
  refine forall_congr' fun name => ?_
  rw [repeats_run_iff, primaryKeys_of_ofWire h]
  -- a repetition that is left is one that no change clears
  constructor
  · intro hleft hrepeats
    by_contra hnone
    exact hleft ⟨fun change hmem hclears => hnone ⟨change, hmem, hclears⟩, hrepeats⟩
  · rintro hcleared ⟨hnone, hrepeats⟩
    obtain ⟨change, hmem, hclears⟩ := hcleared hrepeats
    exact hnone change hmem hclears

end ValueSchema

/-- The node of a coin whose document lists its only field as a primary key twice. -/
def coinNode : Json := .object [
  ("fields", .array [.object [("name", .string "id"), ("type", .string "string")]]),
  ("name", .string "coin"),
  ("pks", .array [.string "id", .string "id"]),
  ("type", .string "record")]

/-- The value schema that is read from the node of a coin. -/
def coin : ValueSchema where
  record := {
    name := "coin",
    fields := [{ name := "id", type := .plain .string (.refl true), nullable := false }] }
  governance := { primaryKeys := ["id", "id"] }

theorem ofWire_coinNode : ValueSchema.ofWire 1 coinNode = .ok coin := rfl

/-- A coin has a key after its primary keys were set anew, and none as it is read. -/
theorem coin_finalization :
    ((coin.run [.setPrimaryKeys ["id"]]).governance.primaryKeys.Nodup ∧
      ∃ k, KeySchema.derive Config.defaults (coin.run [.setPrimaryKeys ["id"]]) = .ok k ∧
        k.record.fieldNames = ["id"] ∧ k.synthetic = false) ∧
    ∃ name, Repeats ["id", "id"] name ∧
      KeySchema.derive Config.defaults (coin.run []) = .error (.duplicateField name) := by
  refine ⟨?set, ?read⟩
  case set =>
    obtain ⟨hnodup, hkey⟩ :=
      ValueSchema.finalization_of_ofWire ofWire_coinNode [.setPrimaryKeys ["id"]]
    have hd := hnodup.2 fun name _ => ⟨_, List.mem_singleton_self _, trivial⟩
    exact ⟨hd, (hkey rfl Config.defaults).1 hd⟩
  case read =>
    obtain ⟨-, hkey⟩ := ValueSchema.finalization_of_ofWire ofWire_coinNode []
    exact (hkey rfl Config.defaults).2 (by decide)

/-- A coin is final, but a primary key of it is listed twice, and it has no key. -/
theorem coin_not_derived :
    ValueSchema.ofWire 1 coinNode = .ok coin ∧ coin.checkPrimaryKeys = .ok () ∧
      ¬ coin.governance.primaryKeys.Nodup ∧
      KeySchema.derive Config.defaults coin = .error (.duplicateField "id") :=
  ⟨ofWire_coinNode, rfl, by decide, rfl⟩

end AvroSchema
