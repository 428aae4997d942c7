import AvroSchema.Proofs.Arrow.Exports

/-!
# Columns of Keys

A key is derived from a value schema by selecting fields and making them mandatory, and is then
exported. Selecting the columns of the exported value schema and making these mandatory gives the
same. The column type of a field depends neither on whether the field is nullable nor on the fields
around it, and columns are found under the same names as fields.

* `Field.column_notNull`: the column of a field that is made mandatory.
* `Record.find?_column`: columns and fields are found together.
* `columns_of_derive`: keys of exported value schemas.
-/

namespace AvroSchema

/-- The same column, mandatory. -/
def Arrow.Column.notNull (c : Column) : Column := { c with nullable := false }

/-! ## Columns of fields -/

namespace Field

variable {f : Field} {c : Arrow.Column}

theorem column_eq_ok_iff :
    f.column = .ok c ↔ ∃ type, f.type.columnType = .ok type ∧
      f.type.column f.name f.nullable type = c := by
  rw [column, except_bind_eq_ok_iff]
  simp only [pure, Except.pure, Except.ok.injEq]

theorem name_of_column (h : f.column = .ok c) : c.name = f.name := by
  obtain ⟨type, -, rfl⟩ := column_eq_ok_iff.1 h
  rfl

/-- A field that is made mandatory has the same column, made mandatory. -/
theorem column_notNull (h : f.column = .ok c) : f.notNull.column = .ok c.notNull := by
  obtain ⟨type, htype, rfl⟩ := column_eq_ok_iff.1 h
  exact column_eq_ok_iff.2 ⟨type, htype, rfl⟩

end Field

namespace Record

variable {r : Record} {columns : List Arrow.Column} {name : String} {f : Field}

/-- The columns have the names of the fields, in order. -/
theorem map_name_columns (h : r.columns = .ok columns) :
    columns.map Arrow.Column.name = r.fieldNames := by
  rw [columns_eq_ok_iff] at h
  rw [fieldNames]
  generalize r.fields = fields at h
  induction h with
  | nil => rfl
  | cons hc _ ih => rw [List.map_cons, List.map_cons, ih, Field.name_of_column hc]

/-- The column that is found under a name is that of the field that is found under it. -/
theorem find?_column (h : r.columns = .ok columns) (hf : r.field? name = some f) :
    ∃ c, columns.find? (·.name == name) = some c ∧ f.column = .ok c := by
  rw [columns_eq_ok_iff] at h
  rw [field?] at hf
  generalize r.fields = fields at h hf
  induction h with
  | nil => cases hf
  | cons hc hrest ih =>
    rw [List.find?_cons] at hf ⊢
    rw [Field.name_of_column hc]
    split at hf
    · obtain rfl := Option.some.inj hf
      exact ⟨_, rfl, hc⟩
    · exact ih hf

end Record

/-! ## Columns of keys -/

namespace KeySchema

variable {config : Config} {s : ValueSchema} {k : KeySchema}

/-- A key that is not synthetic has the fields that the primary keys name, in their order and made
mandatory. -/
theorem fields_of_derive (h : derive config s = .ok k) (hs : k.synthetic = false) :
    ∃ fields, List.Forall₂ (fun name f => s.record.field? name = some f)
        s.governance.primaryKeys fields ∧
      k.record.fields = fields.map Field.notNull := by
  rw [derive_eq] at h
  obtain ⟨r, hr, rfl⟩ := except_map_eq_ok_iff.1 h
  change s.governance.primaryKeys.isEmpty = false at hs
  rw [ValueSchema.keyRecord, hs, if_neg Bool.false_ne_true] at hr
  obtain ⟨fields, hfields, hr⟩ := except_bind_eq_ok_iff.1 hr
  refine ⟨fields, ValueSchema.primaryKeyFields_eq_ok_iff.1 hfields, ?_⟩
  change r.fields.map Field.notNull = _
  rw [Record.fields_of_addFields hr, ValueSchema.fields_keyFrame, List.nil_append]

/-- Fields that are found have columns that are found, and making the fields mandatory makes their
columns mandatory. -/
theorem exists_columns_notNull {r : Record} {columns : List Arrow.Column} {names : List String}
    {fields : List Field} (h : r.columns = .ok columns)
    (hfields : List.Forall₂ (fun name f => r.field? name = some f) names fields) :
    ∃ keys, List.Forall₂ (fun f c => f.column = .ok c) (fields.map Field.notNull) keys ∧
      List.Forall₂ (fun name key => ∃ c, columns.find? (·.name == name) = some c ∧
        key = c.notNull) names keys := by
  induction hfields with
  | nil => exact ⟨[], .nil, .nil⟩
  | cons hf _ ih =>
    obtain ⟨keys, hkeys, hnames⟩ := ih
    obtain ⟨c, hc, hcolumn⟩ := Record.find?_column h hf
    exact ⟨c.notNull :: keys, .cons (Field.column_notNull hcolumn) hkeys,
      .cons ⟨c, hc, rfl⟩ hnames⟩

end KeySchema

/-! ## Main result -/

/-- Deriving a key and exporting commute. If a value schema is exported and has a key that is not
synthetic, the key is exported, and its columns are those of the value schema that the primary keys
name, in their order, each with its type and its notes, but mandatory. The columns of the value
schema have the names of its fields, so that no two of them share a name if the schema is built. -/
theorem columns_of_derive (config : Config) (s : ValueSchema) (k : KeySchema)
    (columns : List Arrow.Column) (h : s.record.columns = .ok columns)
    (hk : KeySchema.derive config s = .ok k) (hs : k.synthetic = false) :
    (∃ keys, k.record.columns = .ok keys ∧
      List.Forall₂ (fun name key => ∃ c, columns.find? (·.name == name) = some c ∧
        key = { c with nullable := false }) s.governance.primaryKeys keys) ∧
    columns.map Arrow.Column.name = s.record.fieldNames ∧
    ((DataType.record s.record).Built → (columns.map Arrow.Column.name).Nodup) := by
  obtain ⟨fields, hfound, hfields⟩ := KeySchema.fields_of_derive hk hs
  obtain ⟨keys, hcolumns, hkeys⟩ := KeySchema.exists_columns_notNull h hfound
  have hnames := Record.map_name_columns h
  refine ⟨⟨keys, ?_, hkeys⟩, hnames, fun hb => hnames ▸ Record.nodup_of_built hb⟩
  rwa [Record.columns_eq_ok_iff, hfields]

/-- A ticket with a number and a seat, of which the seat comes first in the key. -/
def ticket : ValueSchema where
  record := {
    name := "ticket"
    fields := [
      { name := "number", type := .plain .uuid (.refl true) },
      { name := "price", type := .primitive (.decimal 9 2) },
      { name := "seat", type := .plain .string (.refl true) }] }
  governance := { primaryKeys := ["seat", "number"] }

/-- The key of the ticket has two of its columns, none of which may be null. -/
theorem ticket_columns_of_derive :
    (DataType.record ticket.record).Built ∧
    ∃ k columns keys, ticket.record.columns = .ok columns ∧
      KeySchema.derive Config.defaults ticket = .ok k ∧ k.synthetic = false ∧
      k.record.columns = .ok keys ∧
      keys = [{ name := "seat", type := .utf8, nullable := false },
        { name := "number", type := .fixedSizeBinary 16, nullable := false,
          metadata := Arrow.uuidNote }] ∧
      List.Forall₂ (fun name key => ∃ c, columns.find? (·.name == name) = some c ∧
        key = { c with nullable := false }) ["seat", "number"] keys ∧
      (columns.map Arrow.Column.name).Nodup := by
  have hdecimal : Primitive.decimalOf 9 2 = .ok (.decimal 9 2) := rfl
  have hfields : ∀ f ∈ ticket.record.fields, f.type.Built :=
    List.forall_mem_cons.2 ⟨.plain .uuid rfl, List.forall_mem_cons.2 ⟨.decimal hdecimal,
      List.forall_mem_singleton.2 (.plain .string rfl)⟩⟩
  have hb : (DataType.record ticket.record).Built :=
    Record.built_of_addFields (.empty "ticket" none none) hfields rfl
  obtain ⟨⟨keys, hkeys, hnames⟩, -, hdistinct⟩ :=
    columns_of_derive Config.defaults ticket _ _ rfl rfl rfl
  exact ⟨hb, _, _, keys, rfl, rfl, rfl, hkeys, (Except.ok.inj hkeys).symm, hnames, hdistinct hb⟩

end AvroSchema
