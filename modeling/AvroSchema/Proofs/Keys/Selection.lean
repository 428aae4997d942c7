import AvroSchema.Proofs.Keys.Finalization

/-!
# The Selection of Key Fields

To derive a key, its fields are looked up by the primary keys and added to an empty record one by
one. Each lookup and each addition may fail. If no primary key is repeated, additions never do, since
a field that was found has the name it was looked up by. The only failure left is that of a primary
key without a field, and the first one of these is reported, as it is by the check of a value schema.

* `ValueSchema.primaryKeyFields_eq_error`: the first primary key without a field is reported.
* `ValueSchema.missing_or_named`: there is such a primary key, or all of them name fields.
* `KeySchema.derive_exact`: what the key of a value schema is.
-/

namespace AvroSchema

namespace ValueSchema

variable {s : ValueSchema}

/-- The first primary key that names no field is reported. -/
theorem primaryKeyFields_eq_error {before after : List String} {name : String}
    (hkeys : s.governance.primaryKeys = before ++ name :: after)
    (hbefore : ∀ other ∈ before, other ∈ s.record.fieldNames)
    (hname : name ∉ s.record.fieldNames) :
    s.primaryKeyFields = .error (.unknownField s.record.name name) := by
  rw [primaryKeyFields, hkeys]
  -- the lookups before succeed, and this one is the first that does not
  apply except_mapM_of_first_error
  · intro other ho
    obtain ⟨f, hf⟩ := Option.isSome_iff_exists.1 (Record.hasField_eq_true_iff.2 (hbefore other ho))
    exact ⟨f, by rw [hf]⟩
  · rw [Record.field?_eq_none_iff.2 hname]

/-- Either some primary key is the first one without a field, or all of them name fields. -/
theorem missing_or_named (s : ValueSchema) :
    (∃ before name after, s.governance.primaryKeys = before ++ name :: after ∧
      (∀ other ∈ before, other ∈ s.record.fieldNames) ∧ name ∉ s.record.fieldNames) ∨
    ∃ fields, s.primaryKeyFields = .ok fields := by
  -- the first missing name splits the list of primary keys
  cases hfind : s.governance.primaryKeys.find? (· ∉ s.record.fieldNames) with
  | some name =>
    obtain ⟨hname, before, after, hkeys, hbefore⟩ := List.find?_eq_some_iff_append.1 hfind
    refine Or.inl ⟨before, name, after, hkeys, ?_, by simpa using hname⟩
    intro other ho
    simpa using hbefore other ho
  | none =>
    cases hfields : s.primaryKeyFields with
    | ok fields => exact Or.inr ⟨fields, rfl⟩
    | error e =>
      -- a lookup that fails is one of a name that is missing
      obtain ⟨name, hmem, hlookup⟩ := exists_of_except_mapM_eq_error hfields
      have hnamed : name ∈ s.record.fieldNames := by simpa using List.find?_eq_none.1 hfind name hmem
      obtain ⟨f, hf⟩ := Option.isSome_iff_exists.1 (Record.hasField_eq_true_iff.2 hnamed)
      rw [hf] at hlookup
      cases hlookup

end ValueSchema

namespace KeySchema

variable {s : ValueSchema}

theorem derive_of_isEmpty (config : Config) (h : s.governance.primaryKeys = []) :
    derive config s =
      .ok ⟨{ s.keyFrame config with fields := [Technical.keyTime] }, true⟩ := by
  have hkey : s.keyRecord config = (s.keyFrame config).addField Technical.keyTime := by
    rw [ValueSchema.keyRecord, h]
    rfl
  rw [derive_of_keyRecord (hkey.trans rfl), h]
  rfl

theorem derive_of_primaryKeyFields_error (config : Config) {e : SchemaError}
    (hne : s.governance.primaryKeys ≠ []) (he : s.primaryKeyFields = .error e) :
    derive config s = .error e := by
  refine derive_of_keyRecord_error ?_
  rw [ValueSchema.keyRecord, if_neg (by simpa using hne), he]
  rfl

/-- The key of a value schema without repeated primary keys. Without any primary key it has the time
of the change as its only field. Otherwise the first primary key that names no field is reported, or
the key has the fields that the primary keys name, in their order and made mandatory. So a repeated
field is never reported, and if there are primary keys, there is a key exactly if the check of the
value schema succeeds. -/
theorem derive_exact (config : Config) (hn : s.governance.primaryKeys.Nodup) :
    (s.governance.primaryKeys = [] →
      derive config s = .ok {
        record := {
          name := s.record.name ++ config.keySuffix
          space := s.record.space
          doc := s.record.doc
          fields := [Technical.keyTime] }
        synthetic := true }) ∧
    (∀ before name after, s.governance.primaryKeys = before ++ name :: after →
      (∀ other ∈ before, other ∈ s.record.fieldNames) → name ∉ s.record.fieldNames →
      derive config s = .error (.unknownField s.record.name name)) ∧
    (s.governance.primaryKeys ≠ [] →
      (∀ name ∈ s.governance.primaryKeys, name ∈ s.record.fieldNames) →
      ∃ fields,
        List.Forall₂ (fun name f => s.record.field? name = some f) s.governance.primaryKeys
          fields ∧
        derive config s = .ok {
          record := {
            name := s.record.name ++ config.keySuffix
            space := s.record.space
            doc := s.record.doc
            fields := fields.map fun f => { f with nullable := false } }
          synthetic := false }) ∧
    (∀ name, derive config s ≠ .error (.duplicateField name)) ∧
    (s.governance.primaryKeys ≠ [] →
      ((∃ k, derive config s = .ok k) ↔ s.checkPrimaryKeys = .ok ())) := by
  have hmissing (before name after) (hkeys : s.governance.primaryKeys = before ++ name :: after)
      (hbefore : ∀ other ∈ before, other ∈ s.record.fieldNames)
      (hname : name ∉ s.record.fieldNames) :
      derive config s = .error (.unknownField s.record.name name) :=
    derive_of_primaryKeyFields_error config (by simp [hkeys])
      (ValueSchema.primaryKeyFields_eq_error hkeys hbefore hname)
  refine ⟨derive_of_isEmpty config, hmissing, ?named, ?unrepeated, ?checked⟩
  case named =>
    intro hne hall
    rcases s.missing_or_named with ⟨before, name, after, hkeys, -, hname⟩ | ⟨fields, hfields⟩
    · exact absurd (hall name (by simp [hkeys])) hname
    · exact ⟨fields, ValueSchema.primaryKeyFields_eq_ok_iff.1 hfields,
        derive_of_primaryKeyFields config hne hn hfields⟩
  case unrepeated =>
    intro repeated hderive
    by_cases hempty : s.governance.primaryKeys = []
    · rw [derive_of_isEmpty config hempty] at hderive
      cases hderive
    rcases s.missing_or_named with ⟨before, name, after, hkeys, hbefore, hname⟩ | ⟨fields, hfields⟩
    · rw [hmissing before name after hkeys hbefore hname] at hderive
      cases hderive
    · rw [derive_of_primaryKeyFields config hempty hn hfields] at hderive
      cases hderive
  case checked =>
    intro hne
    have hcheck : s.checkPrimaryKeys = s.primaryKeyFields >>= fun _ => .ok () := by
      rw [ValueSchema.checkPrimaryKeys, if_neg (by simpa using hne)]
      rfl
    rw [hcheck]
    -- both sides come down to whether every lookup succeeds
    cases hfields : s.primaryKeyFields with
    | ok fields => exact iff_of_true ⟨_, derive_of_primaryKeyFields config hne hn hfields⟩ rfl
    | error e =>
      refine iff_of_false ?_ nofun
      rw [derive_of_primaryKeyFields_error config hne hfields]
      rintro ⟨k, hk⟩
      cases hk

/-- Deliveries with a day and a number, which are the primary key the other way round. -/
def delivery (keys : List String) : ValueSchema where
  record := {
    name := "delivery"
    space := some "shop"
    fields := [
      { name := "day", type := .plain .date (.refl true), doc := some "Day of arrival" },
      { name := "weight", type := .plain .double (.refl true) },
      { name := "number", type := .plain .int (.refl true), defaultValue := some (.int 0) }] }
  governance := { primaryKeys := keys }

/-- The key of a delivery has the number before the day, and there is none with a field that is
missing. -/
theorem delivery_derive :
    (["number", "day"].Nodup ∧
      ∃ fields, List.Forall₂ (fun name f => (delivery ["number", "day"]).record.field? name = some f)
          ["number", "day"] fields ∧
        derive .defaults (delivery ["number", "day"]) = .ok {
          record := {
            name := "delivery_key"
            space := some "shop"
            fields := fields.map fun f => { f with nullable := false } }
          synthetic := false }) ∧
    ["number", "hour", "minute"].Nodup ∧
      derive .defaults (delivery ["number", "hour", "minute"]) =
        .error (.unknownField "delivery" "hour") := by
  have hn : (delivery ["number", "day"]).governance.primaryKeys.Nodup := by decide
  have hm : (delivery ["number", "hour", "minute"]).governance.primaryKeys.Nodup := by decide
  obtain ⟨-, -, hnamed, -, -⟩ := derive_exact .defaults hn
  obtain ⟨-, hmissing, -, -, -⟩ := derive_exact .defaults hm
  refine ⟨⟨hn, hnamed (by decide) (by decide)⟩, hm, ?_⟩
  exact hmissing ["number"] "hour" ["minute"] rfl (by decide) (by decide)

end KeySchema

end AvroSchema
