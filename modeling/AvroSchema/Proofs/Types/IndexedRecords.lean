import Mathlib.Data.Finmap
import AvroSchema.Proofs.Types.Built

/-!
# Indexed Records

A record finds its fields by going through the list of them. It can also keep an index: a map from
the names to the positions in the list. Fields are then looked up, and adding a field is refused, by
the index alone, and the index is compared when records are. All of this is right only as long as
the index and the list agree, which two operations have to keep up: the one that adds a field if its
name is free, and the one that puts in fields without looking at their names.

* `IndexedRecord.exact_of_reached`: entries are the positions of the fields, in all records that can
  be reached.
* `IndexedRecord.Keyed`: what such a record says about its fields; it is what a record without an
  index says.
* `keyed_records_and_indexes`: this holds of records that are built, read, technical or keys.
-/

namespace AvroSchema

/-- The position of each field under its name. -/
abbrev FieldIndex := Finmap fun _ : String => Nat

/-- A record with an index of its fields. -/
structure IndexedRecord where
  /-- The record, with the list of its fields. -/
  record : Record
  /-- The index of the list. -/
  index : FieldIndex := ∅

theorem Record.fieldNames_mapFields {g : Field → Field} (hg : ∀ f, (g f).name = f.name)
    (r : Record) : (r.mapFields g).fieldNames = r.fieldNames := by
  rw [fieldNames, mapFields, List.map_map, fieldNames]
  exact List.map_congr_left fun f _ => hg f

theorem Record.fieldNames_canonical (r : Record) : r.canonical.fieldNames = r.fieldNames := by
  rw [canonical_eq_mapFields]
  exact fieldNames_mapFields (Field.name_mapDefaults _) r

/-- If no name occurs twice, the field under a name is the one with that name. -/
theorem Record.field?_eq_some_iff_mem {r : Record} (hd : r.fieldNames.Nodup) {name : String}
    {f : Field} : r.field? name = some f ↔ f ∈ r.fields ∧ f.name = name := by
  constructor
  · intro hf
    exact ⟨List.mem_of_find?_eq_some hf, (field?_eq_some_iff.1 hf).1⟩
  · rintro ⟨hm, rfl⟩
    obtain ⟨g, hg⟩ := Option.isSome_iff_exists.1 (hasField_eq_true_iff.2 (List.mem_map_of_mem hm))
    have he : g = f := List.inj_on_of_nodup_map hd (List.mem_of_find?_eq_some hg) hm
      (field?_eq_some_iff.1 hg).1
    rw [hg, he]

namespace IndexedRecord

/-! ## Operations -/

/-- A record without fields. -/
def new (name : String) : IndexedRecord := { record := { name } }

/-- The record with another namespace and another description. -/
def describe (R : IndexedRecord) (space doc : Option String) : IndexedRecord :=
  { R with record := { R.record with space, doc } }

/-- The record with a further field at its end, whatever the name of that field is. -/
def push (R : IndexedRecord) (f : Field) : IndexedRecord where
  record := { R.record with fields := R.record.fields ++ [f] }
  index := R.index.insert f.name R.record.fields.length

/-- The record with further fields at its end, whose names are known to be free. -/
def pushAll (R : IndexedRecord) (fields : List Field) : IndexedRecord := fields.foldl push R

/-- The field at the position that the index has for a name. -/
def field? (R : IndexedRecord) (name : String) : Option Field :=
  (R.index.lookup name).bind (R.record.fields[·]?)

/-- Whether the index has a position for a name. -/
def hasField (R : IndexedRecord) (name : String) : Bool := (R.index.lookup name).isSome

/-- Adds a field at the end, unless the index has its name: the outcome, and the record
afterwards. -/
def addField (R : IndexedRecord) (f : Field) : Except SchemaError Unit × IndexedRecord :=
  if R.hasField f.name then (.error (.duplicateField f.name), R) else (.ok (), R.push f)

/-- The record after an attempt to add each of some fields. -/
def addEach (R : IndexedRecord) (fields : List Field) : IndexedRecord :=
  fields.foldl (fun R f => (R.addField f).2) R

/-- The fields whose addition succeeds when it is tried with each of some fields. -/
def added (R : IndexedRecord) : List Field → List Field
  | [] => []
  | f :: rest =>
    match R.addField f with
    | (.ok _, after) => f :: after.added rest
    | (.error _, after) => after.added rest

/-- The records that can be reached from records without fields. -/
inductive Reached : IndexedRecord → Prop
  | new (name : String) : Reached (new name)
  | describe {R : IndexedRecord} (space doc : Option String) (h : Reached R) :
    Reached (R.describe space doc)
  | addField {R : IndexedRecord} (f : Field) (h : Reached R) : Reached (R.addField f).2
  | pushAll {R : IndexedRecord} {fields : List Field} (h : Reached R)
    (hd : (R.record.fieldNames ++ fields.map Field.name).Nodup) : Reached (R.pushAll fields)

/-! ## Agreement of the index and the list -/

/-- The index has the positions of the fields under their names, and nothing else. -/
def Exact (R : IndexedRecord) : Prop :=
  ∀ name i, R.index.lookup name = some i ↔ R.record.fieldNames[i]? = some name

section

variable {R S : IndexedRecord} {f : Field} {fields : List Field} {name : String}

@[simp]
theorem fieldNames_push : (R.push f).record.fieldNames = R.record.fieldNames ++ [f.name] := by
  simp [push, Record.fieldNames]

theorem pushAll_cons : R.pushAll (f :: fields) = (R.push f).pushAll fields := rfl

theorem record_pushAll :
    (R.pushAll fields).record = { R.record with fields := R.record.fields ++ fields } := by
  induction fields generalizing R with
  | nil =>
    obtain ⟨⟨name, space, doc, old⟩, index⟩ := R
    rw [List.append_nil]
    rfl
  | cons f rest ih => simp [pushAll_cons, ih, push]

/-- The index has a name exactly if the list has. -/
theorem Exact.hasField_iff (h : R.Exact) : R.hasField name = true ↔ name ∈ R.record.fieldNames := by
  rw [hasField, Option.isSome_iff_exists, List.mem_iff_getElem?]
  exact exists_congr fun i => h name i

theorem Exact.hasField_eq (h : R.Exact) : R.hasField name = R.record.hasField name :=
  Bool.eq_iff_iff.2 (h.hasField_iff.trans Record.hasField_eq_true_iff.symm)

/-- A name cannot have two positions. -/
theorem Exact.nodup (h : R.Exact) : R.record.fieldNames.Nodup := by
  rw [List.nodup_iff_getElem?_ne_getElem?]
  intro i j hij hj he
  have hname : R.record.fieldNames[j]? = some R.record.fieldNames[j] := List.getElem?_eq_getElem hj
  have hi := (h _ _).2 (he.trans hname)
  rw [(h _ _).2 hname, Option.some.injEq] at hi
  exact Nat.ne_of_lt hij hi.symm

/-- A field that is put in under a free name is indexed, and the others keep their positions. -/
theorem Exact.push (h : R.Exact) (hf : f.name ∉ R.record.fieldNames) : (R.push f).Exact := by
  intro name i
  have hlen : R.record.fields.length = R.record.fieldNames.length := (List.length_map _).symm
  rw [fieldNames_push, IndexedRecord.push, hlen]
  by_cases hn : name = f.name
  · -- the name stands at the end of the list, and nowhere before
    subst hn
    rw [Finmap.lookup_insert, Option.some.injEq]
    constructor
    · rintro rfl
      exact List.getElem?_concat_length
    · intro hi
      rw [List.getElem?_append] at hi
      split at hi
      · exact absurd (List.mem_of_getElem? hi) hf
      · obtain ⟨hzero, -⟩ := List.getElem?_eq_some_iff.1 hi
        rw [List.length_singleton] at hzero
        omega
  · rw [Finmap.lookup_insert_of_ne _ hn, h name i, List.getElem?_append]
    split
    · exact Iff.rfl
    · next hi =>
      rw [List.getElem?_eq_none (Nat.not_lt.1 hi)]
      simp [List.getElem?_singleton, Ne.symm hn]

/-- If the names of some fields are free, that of the first one is, and those of the others still
are when the first one has been put in. -/
theorem nodup_append_cons
    (hd : (R.record.fieldNames ++ (f :: fields).map Field.name).Nodup) :
    f.name ∉ R.record.fieldNames ∧
      ((R.push f).record.fieldNames ++ fields.map Field.name).Nodup := by
  refine ⟨fun hm => ?_, by simpa using hd⟩
  exact (List.nodup_append.1 hd).2.2 f.name hm f.name List.mem_cons_self rfl

theorem Exact.pushAll (h : R.Exact)
    (hd : (R.record.fieldNames ++ fields.map Field.name).Nodup) : (R.pushAll fields).Exact := by
  induction fields generalizing R with
  | nil => exact h
  | cons f rest ih =>
    obtain ⟨hfree, hrest⟩ := nodup_append_cons hd
    exact ih (h.push hfree) hrest

/-- An attempt to add a field keeps the agreement, whatever its outcome is. -/
theorem Exact.addField (h : R.Exact) (f : Field) : (R.addField f).2.Exact := by
  unfold IndexedRecord.addField
  split
  · exact h
  · next hf => exact h.push fun hm => hf (h.hasField_iff.2 hm)

/-- The index and the list agree in all records that can be reached. -/
theorem exact_of_reached (h : R.Reached) : R.Exact := by
  induction h with
  | new name => intro other i; simp [new, Record.fieldNames]
  | describe space doc _ ih => exact ih
  | addField f _ ih => exact ih.addField f
  | pushAll _ hd ih => exact ih.pushAll hd

end

/-! ## What the index says -/

/-- What a record says about its fields through its index. -/
structure Keyed (R : IndexedRecord) : Prop where
  /-- No two fields share a name. -/
  nodup : R.record.fieldNames.Nodup
  /-- The entries of the index are the positions of the fields. -/
  lookup_eq_some_iff : ∀ name i,
    R.index.lookup name = some i ↔ R.record.fieldNames[i]? = some name
  /-- The field that is found under a name is the one with that name. -/
  field?_eq_some_iff : ∀ name f, R.field? name = some f ↔ f ∈ R.record.fields ∧ f.name = name
  /-- Nothing is found only if there is no such field. -/
  field?_eq_none_iff : ∀ name, R.field? name = none ↔ ∀ f ∈ R.record.fields, f.name ≠ name
  /-- The index has the names of the fields. -/
  hasField_iff : ∀ name, R.hasField name = true ↔ ∃ f ∈ R.record.fields, f.name = name
  /-- A field with a free name is added at the end. -/
  addField_of_notMem : ∀ f, f.name ∉ R.record.fieldNames → R.addField f = (.ok (), R.push f)
  /-- A field with a taken name is refused, and nothing changes. -/
  addField_of_mem : ∀ f, f.name ∈ R.record.fieldNames →
    R.addField f = (.error (.duplicateField f.name), R)
  /-- Going through the list finds the same fields. -/
  field?_eq : ∀ name, R.field? name = R.record.field? name
  /-- Going through the list finds the same names. -/
  hasField_eq : ∀ name, R.hasField name = R.record.hasField name
  /-- A record without an index gets the same fields, or refuses them for the same reason. -/
  addField_eq : ∀ f,
    R.record.addField f = (R.addField f).1.map fun _ => (R.addField f).2.record

section

variable {R S : IndexedRecord} {f : Field} {fields : List Field} {name : String}

/-- A field is found under its name and under no other one. -/
theorem Exact.field?_eq_some_iff (h : R.Exact) :
    R.field? name = some f ↔ f ∈ R.record.fields ∧ f.name = name := by
  have hnames (i : Nat) : R.record.fieldNames[i]? = R.record.fields[i]?.map Field.name :=
    List.getElem?_map
  rw [field?, Option.bind_eq_some_iff]
  constructor
  · rintro ⟨i, hi, hf⟩
    have hname := (h name i).1 hi
    rw [hnames, hf, Option.map_some, Option.some.injEq] at hname
    exact ⟨List.mem_of_getElem? hf, hname⟩
  · rintro ⟨hm, rfl⟩
    obtain ⟨i, hi⟩ := List.mem_iff_getElem?.1 hm
    exact ⟨i, (h f.name i).2 (by rw [hnames, hi, Option.map_some]), hi⟩

/-- Looking a name up in the index and looking for it in the list comes to the same. -/
theorem Exact.field?_eq (h : R.Exact) : R.field? name = R.record.field? name := by
  ext f
  rw [h.field?_eq_some_iff, Record.field?_eq_some_iff_mem h.nodup]

/-- A record whose index agrees with its list says what it should about its fields. -/
theorem Exact.keyed (h : R.Exact) : R.Keyed where
  nodup := h.nodup
  lookup_eq_some_iff := h
  field?_eq_some_iff name f := h.field?_eq_some_iff
  field?_eq_none_iff name := by
    rw [h.field?_eq, Record.field?, List.find?_eq_none]
    simp
  hasField_iff name := by
    rw [h.hasField_iff, Record.fieldNames, List.mem_map]
  addField_of_notMem f hf := by
    rw [IndexedRecord.addField, if_neg fun hm => hf (h.hasField_iff.1 hm)]
  addField_of_mem f hf := by
    rw [IndexedRecord.addField, if_pos (h.hasField_iff.2 hf)]
  field?_eq name := h.field?_eq
  hasField_eq name := h.hasField_eq
  addField_eq f := by
    rw [IndexedRecord.addField, Record.addField, h.hasField_eq]
    split <;> rfl

/-- Adding each of some fields puts in those whose addition succeeds, in order. -/
theorem fields_addEach :
    (R.addEach fields).record.fields = R.record.fields ++ R.added fields := by
  induction fields generalizing R with
  | nil => exact (List.append_nil _).symm
  | cons f rest ih =>
    change ((R.addField f).2.addEach rest).record.fields = _
    rw [ih]
    -- only a field that is added comes before what is added after it
    by_cases hf : R.hasField f.name = true
    · have hstep : R.addField f = (.error (.duplicateField f.name), R) := if_pos hf
      rw [added, hstep]
    · have hstep : R.addField f = (.ok (), R.push f) := if_neg hf
      rw [added, hstep]
      exact List.append_assoc _ _ _

theorem Reached.addEach (h : R.Reached) : (R.addEach fields).Reached := by
  induction fields generalizing R with
  | nil => exact h
  | cons f rest ih => exact ih (h.addField f)

/-- Fields with free names are all added. -/
theorem Exact.addEach_eq_pushAll (h : R.Exact)
    (hd : (R.record.fieldNames ++ fields.map Field.name).Nodup) :
    R.addEach fields = R.pushAll fields := by
  induction fields generalizing R with
  | nil => rfl
  | cons f rest ih =>
    obtain ⟨hfree, hrest⟩ := nodup_append_cons hd
    have hstep : (R.addField f).2 = R.push f := by rw [h.keyed.addField_of_notMem f hfree]
    change ((R.addField f).2.addEach rest) = _
    rw [hstep, ih (h.push hfree) hrest, pushAll_cons]

/-- A record without an index that takes some fields has the same fields in the end. -/
theorem Exact.record_addEach {r : Record} (h : R.Exact) (hr : R.record.addFields fields = .ok r) :
    (R.addEach fields).record = r := by
  induction fields generalizing R with
  | nil => exact Except.ok.inj hr
  | cons f rest ih =>
    rw [Record.addFields, List.foldlM_cons] at hr
    obtain ⟨between, hf, hrest⟩ := except_bind_eq_ok_iff.1 hr
    rw [h.keyed.addField_eq f] at hf
    obtain ⟨-, -, rfl⟩ := except_map_eq_ok_iff.1 hf
    exact ih (h.addField f) hrest

/-- Records that compare equal have the same index, so that it need not be compared. -/
theorem Exact.index_eq (h : R.Exact) (hS : S.Exact) (he : (R.record == S.record) = true) :
    R.index = S.index := by
  have hnames : R.record.fieldNames = S.record.fieldNames := by
    rw [← R.record.fieldNames_canonical, Record.beq_eq_true_iff.1 he,
      S.record.fieldNames_canonical]
  refine Finmap.ext_lookup fun name => Option.ext fun i => ?_
  rw [h name i, hS name i, hnames]

end

end IndexedRecord

/-! ## Records with distinct names -/

namespace Record

/-- The record with an index, before it has fields. -/
def frame (r : Record) : IndexedRecord := (IndexedRecord.new r.name).describe r.space r.doc

/-- The record with an index, its fields added one by one. -/
def indexed (r : Record) : IndexedRecord := r.frame.addEach r.fields

theorem reached_frame (r : Record) : r.frame.Reached := .describe r.space r.doc (.new r.name)

theorem reached_indexed (r : Record) : r.indexed.Reached := r.reached_frame.addEach

/-- If no name occurs twice, the fields can be put in without looking at their names. -/
theorem indexed_eq_pushAll {r : Record} (hd : r.fieldNames.Nodup) :
    r.indexed = r.frame.pushAll r.fields :=
  (IndexedRecord.exact_of_reached r.reached_frame).addEach_eq_pushAll hd

/-- If no name occurs twice, all fields are added. -/
theorem record_indexed {r : Record} (hd : r.fieldNames.Nodup) : r.indexed.record = r := by
  obtain ⟨name, space, doc, fields⟩ := r
  rw [indexed_eq_pushAll hd, IndexedRecord.record_pushAll]
  rfl

end Record

/-- No name occurs twice in the record of a key, whatever the value schema is like. -/
theorem KeySchema.nodup_of_derive {config : Config} {s : ValueSchema} {k : KeySchema}
    (h : derive config s = .ok k) : k.record.fieldNames.Nodup := by
  rw [derive_eq] at h
  obtain ⟨r, hr, rfl⟩ := except_map_eq_ok_iff.1 h
  have hd : r.fieldNames.Nodup := by
    have hframe : (s.keyFrame config).indexed.Exact :=
      IndexedRecord.exact_of_reached (s.keyFrame config).reached_indexed
    unfold ValueSchema.keyRecord at hr
    split at hr
    · obtain ⟨-, rfl⟩ := Record.addField_eq_ok_iff.1 hr
      exact List.nodup_singleton _
    · -- the fields are added one by one, so that a repeated name would have been refused
      obtain ⟨fields, -, hadd⟩ := except_bind_eq_ok_iff.1 hr
      rw [← hframe.record_addEach hadd]
      exact (IndexedRecord.exact_of_reached ((s.keyFrame config).reached_indexed.addEach)).nodup
  have hname : ∀ f : Field, f.notNull.name = f.name := fun _ => rfl
  have hnames := Record.fieldNames_mapFields hname r
  exact hnames ▸ hd

/-! ## Main result -/

/-- In every record that can be reached, the index has the positions of the fields, which have
distinct names; it finds fields and names as going through the list does, and it has a field refused
exactly if its name is taken, by which nothing changes. Adding each of some fields puts in those
whose addition succeeds, in order, and if all names are free, it puts in all fields. Equal records
have equal indexes. Records that are built or read, the technical records and the records of keys
are among those that can be reached. -/
theorem keyed_records_and_indexes :
    (∀ R : IndexedRecord, R.Reached → R.Keyed) ∧
    (∀ (R : IndexedRecord) (fields : List Field), R.Reached →
      (R.addEach fields).Reached ∧
      (R.addEach fields).record.fields = R.record.fields ++ R.added fields ∧
      (R.addEach fields).record.fieldNames =
        R.record.fieldNames ++ (R.added fields).map Field.name ∧
      ((R.record.fieldNames ++ fields.map Field.name).Nodup →
        R.addEach fields = R.pushAll fields)) ∧
    (∀ R S : IndexedRecord, R.Reached → S.Reached → (R.record == S.record) = true →
      R.index = S.index) ∧
    (∀ r : Record, (DataType.record r).Built → r.indexed.Reached ∧ r.indexed.record = r) ∧
    (∀ r ∈ [Technical.auditDetails, Technical.audit, Technical.extension],
      (r.frame.pushAll r.fields).Reached ∧ (r.frame.pushAll r.fields).record = r) ∧
    (∀ name, ((IndexedRecord.new name).pushAll Technical.fields).Reached ∧
      ((IndexedRecord.new name).pushAll Technical.fields).record =
        (ValueSchema.empty name).record) ∧
    ∀ (config : Config) (s : ValueSchema) (k : KeySchema), KeySchema.derive config s = .ok k →
      k.record.indexed.Reached ∧ k.record.indexed.record = k.record := by
  -- fields with distinct names may be put in without a check
  have hknown (r : Record) (hd : r.fieldNames.Nodup) :
      (r.frame.pushAll r.fields).Reached ∧ (r.frame.pushAll r.fields).record = r := by
    rw [← Record.indexed_eq_pushAll hd]
    exact ⟨r.reached_indexed, Record.record_indexed hd⟩
  refine ⟨fun R h => (IndexedRecord.exact_of_reached h).keyed, fun R fields h => ?runs,
    fun R S hR hS => ?equal, fun r h =>
      ⟨r.reached_indexed, Record.record_indexed (Record.nodup_of_built h)⟩,
    fun r hr => hknown r ?technical, fun name => hknown (ValueSchema.empty name).record ?empty,
    fun config s k h =>
      ⟨k.record.reached_indexed, Record.record_indexed (KeySchema.nodup_of_derive h)⟩⟩
  case runs =>
    refine ⟨h.addEach, IndexedRecord.fields_addEach, ?_,
      fun hd => (IndexedRecord.exact_of_reached h).addEach_eq_pushAll hd⟩
    rw [Record.fieldNames, IndexedRecord.fields_addEach, List.map_append]
    rfl
  case equal =>
    exact (IndexedRecord.exact_of_reached hR).index_eq (IndexedRecord.exact_of_reached hS)
  case technical =>
    revert r
    decide
  case empty =>
    have hd : (Technical.fields.map Field.name).Nodup := by decide
    exact hd

/-- The width of a box. -/
def width : Field := { name := "width", type := .plain .int (.refl true) }

/-- The height of a box. -/
def height : Field := { name := "height", type := .plain .int (.refl true) }

/-- A box with a width and a height. -/
def box : Record := { name := "box", fields := [width, height] }

/-- A box to which a second width is added in between, without success. -/
def triedBox : IndexedRecord :=
  (IndexedRecord.new "box").addEach
    [width, { width with type := .plain .long (.refl true) }, height]

/-- The index of the box is right after all, as are those of a technical record and of a key. -/
theorem box_keyed :
    triedBox.Reached ∧ triedBox.Keyed ∧ triedBox.record.fields = [width, height] ∧
      box.frame.addEach box.fields = box.frame.pushAll box.fields ∧
      (triedBox.record == box.indexed.record) = true ∧ triedBox.index = box.indexed.index ∧
      (DataType.record box).Built ∧ box.indexed.record = box ∧
      (Technical.audit.frame.pushAll Technical.audit.fields).record = Technical.audit ∧
      ∃ k, KeySchema.derive Config.defaults (ValueSchema.empty "box") = .ok k ∧
        k.record.indexed.record = k.record := by
  obtain ⟨hkeyed, hruns, hequal, hbuilt, htechnical, -, hkey⟩ := keyed_records_and_indexes
  obtain ⟨htried, hfields, -, -⟩ :=
    hruns (.new "box") [width, { width with type := .plain .long }, height] (.new "box")
  obtain ⟨hbox, -, -, hpush⟩ := hruns box.frame box.fields box.reached_frame
  have he : (triedBox.record == box.indexed.record) = true := by
    rw [Record.beq_eq_true_iff]
    rfl
  have hwidth : width.type.Built := .plain .int rfl
  have hheight : height.type.Built := .plain .int rfl
  have hb : (DataType.record box).Built :=
    Record.built_of_addFields (.empty "box" none none)
      (List.forall_mem_cons.2 ⟨hwidth, List.forall_mem_singleton.2 hheight⟩) rfl
  exact ⟨htried, hkeyed triedBox htried, hfields.trans rfl, hpush (by decide), he,
    hequal triedBox box.indexed htried hbox he, hb, (hbuilt box hb).2,
    (htechnical Technical.audit (by simp)).2, _, rfl, (hkey _ (ValueSchema.empty "box") _ rfl).2⟩

end AvroSchema
