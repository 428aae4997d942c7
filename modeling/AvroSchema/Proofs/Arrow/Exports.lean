import AvroSchema.Arrow.Export
import AvroSchema.Proofs.Types.Built

/-!
# Exports to Arrow

An export narrows numbers to machine words. Parameters of built types are far from the bounds of
their words, so these narrowings are exact and never fail. Nothing bounds the members of a union,
though, and their numbers are signed bytes. An export fails exactly if there are more than 128 of
them somewhere.

* `DataType.narrow_of_columnType_eq_ok`, `DataType.wideAt_of_columnType_eq_error`: an export succeeds
  only without wide unions, and fails only at one.
* `DataType.exports_of_built`: the export of built types.
-/

namespace AvroSchema

/-! ## Numbers -/

namespace Arrow

/-- An admissible precision and scale are exact. -/
theorem decimal_eq {precision scale : Nat} (h : (Primitive.decimal precision scale).Admissible) :
    ∃ (p : UInt8) (s : Int8), p.toNat = precision ∧ s.toInt = scale ∧
      decimal precision scale = .ok (.decimal (decimalWidth precision) p s) := by
  obtain ⟨-, hp, hs⟩ := h
  refine ⟨UInt8.ofNat precision, Int8.ofNat scale, UInt8.toNat_ofNat_of_lt' ?_,
    Int8.toInt_ofNat_of_lt (by omega), if_pos (by omega)⟩
  exact Nat.lt_of_le_of_lt hp (by decide)

/-- An admissible size is exact. -/
theorem fixedSize_eq {size : Nat} {name : String} (h : (Primitive.fixed size name).Admissible) :
    ∃ s : Int32, s.toInt = size ∧ fixedSize size = .ok (.fixedSizeBinary s) := by
  obtain ⟨-, hs, -⟩ := h
  exact ⟨Int32.ofNat size, Int32.toInt_ofNat_of_lt hs, if_pos hs⟩

/-- Numbers that count up from zero are neither negative nor repeated as long as they fit. -/
theorem numbers_admitted_iff {n : Nat} :
    (((List.range n).map Int8.ofNat).all (0 ≤ ·) = true ∧ ((List.range n).map Int8.ofNat).Nodup) ↔
      n ≤ 128 := by
  constructor
  · rintro ⟨hall, -⟩
    by_contra hn
    -- the number after 127 is negative
    have hmem : Int8.ofNat 128 ∈ (List.range n).map Int8.ofNat :=
      List.mem_map_of_mem (List.mem_range.2 (by omega))
    exact absurd (List.all_eq_true.1 hall _ hmem) (by decide)
  · intro hn
    have hexact {i : Nat} (hi : i ∈ List.range n) : (Int8.ofNat i).toInt = i :=
      Int8.toInt_ofNat_of_lt (Nat.lt_of_lt_of_le (List.mem_range.1 hi) hn)
    refine ⟨?nonneg, ?nodup⟩
    case nonneg =>
      rw [List.all_map, List.all_eq_true]
      intro i hi
      have hpos : (0 : Int8) ≤ Int8.ofNat i := by
        rw [Int8.le_iff_toInt_le, hexact hi]
        exact Int.natCast_nonneg i
      simpa using hpos
    case nodup =>
      refine List.nodup_range.map_on fun i hi j hj hij => ?_
      have hsame := congrArg Int8.toInt hij
      rw [hexact hi, hexact hj] at hsame
      exact Int.ofNat_inj.1 hsame

/-- The branches of a union with their numbers. -/
def numbered (branches : List Column) : List (Int8 × Column) :=
  branches.zipIdx.map fun (branch, i) => (Int8.ofNat i, branch)

theorem map_fst_numbered (branches : List Column) :
    (numbered branches).map Prod.fst = (List.range branches.length).map Int8.ofNat := by
  rw [numbered, List.map_map, List.range_eq_range', ← List.zipIdx_map_snd, List.map_map]
  rfl

/-- Branches make a union exactly if there are at most 128. -/
theorem union_eq (branches : List Column) :
    union branches =
      if branches.length ≤ 128 then .ok (.denseUnion (numbered branches))
      else .error (.branchNumbers ((List.range branches.length).map Int8.ofNat)) := by
  have hunion : union branches =
      if ((numbered branches).map Prod.fst).all (0 ≤ ·) = true ∧
          ((numbered branches).map Prod.fst).Nodup then .ok (.denseUnion (numbered branches))
      else .error (.branchNumbers ((numbered branches).map Prod.fst)) := rfl
  rw [hunion, map_fst_numbered]
  exact if_congr numbers_admitted_iff rfl rfl

/-- The numbers of at most 128 branches are their positions. -/
theorem forall₂_numbered {α : Type} {R : α → Column → Prop} {as : List α} {branches : List Column}
    (h : List.Forall₂ R as branches) (hlen : as.length ≤ 128) :
    List.Forall₂ (fun a branch => branch.1.toInt = (a.2 : Int) ∧ R a.1 branch.2) as.zipIdx
      (numbered branches) := by
  -- positions are counted from any start, for the induction
  suffices hfrom : ∀ start, start + as.length ≤ 128 →
      List.Forall₂ (fun a branch => branch.1.toInt = (a.2 : Int) ∧ R a.1 branch.2)
        (as.zipIdx start)
        ((branches.zipIdx start).map fun (branch, i) => (Int8.ofNat i, branch)) from
    hfrom 0 (by omega)
  intro start hstart
  clear hlen
  induction h generalizing start with
  | nil => exact .nil
  | cons ha hrest ih =>
    rw [List.length_cons] at hstart
    exact .cons ⟨Int8.toInt_ofNat_of_lt (by omega), ha⟩ (ih _ (by omega))

end Arrow

/-- A primitive type with admissible parameters has a column type. -/
theorem Primitive.exists_columnType {p : Primitive} (h : p.Admissible) :
    ∃ c, p.columnType = .ok c := by
  cases p with
  | plain kind hk =>
    cases kind with
    -- the members of `AnyPrimitive` are few
    | anyPrimitive =>
      rw [columnType, Arrow.union_eq]
      exact ⟨_, rfl⟩
    | _ => exact ⟨_, rfl⟩
  | decimal precision scale =>
    obtain ⟨p, s, -, -, hc⟩ := Arrow.decimal_eq h
    exact ⟨_, hc⟩
  | fixed size name =>
    obtain ⟨s, -, hc⟩ := Arrow.fixedSize_eq h
    exact ⟨_, hc⟩
  | _ => exact ⟨_, rfl⟩

/-! ## Narrow types -/

namespace DataType

/-- No union in a type has more than 128 members, at any level. -/
def Narrow (t : DataType) : Prop :=
  ∀ (u : DataType) (members : List DataType), u.Within t → u.members? = some members →
    members.length ≤ 128

/-- An export failed at a union in a type: it has more than 128 members, and the failure says how
they are numbered. -/
def WideAt (t : DataType) (e : ExportError) : Prop :=
  ∃ (u : DataType) (members : List DataType), u.Within t ∧ u.members? = some members ∧
    128 < members.length ∧ e = .branchNumbers ((List.range members.length).map Int8.ofNat)

variable {t : DataType} {members : List DataType} {e : ExportError}

theorem WideAt.not_narrow (h : t.WideAt e) : ¬ t.Narrow := by
  obtain ⟨u, members, hu, hm, hlen, -⟩ := h
  exact fun hnarrow => absurd (hnarrow u members hu hm) (by omega)

/-- A failure in a part of a type is one in the type. -/
theorem WideAt.of_child {m : DataType} (hm : m ∈ t.children) (h : m.WideAt e) : t.WideAt e := by
  obtain ⟨u, members, hu, hrest⟩ := h
  exact ⟨u, members, .child hm hu, hrest⟩

theorem narrow_iff :
    t.Narrow ↔ (∀ members, t.members? = some members → members.length ≤ 128) ∧
      ∀ m ∈ t.children, m.Narrow := by
  constructor
  · exact fun h => ⟨fun members hs => h t members .refl hs,
      fun m hm u members hu => h u members (.child hm hu)⟩
  · rintro ⟨hself, hchildren⟩ u members hu hs
    cases hu with
    | refl => exact hself members hs
    | child hm hu => exact hchildren _ hm u members hu hs

theorem narrow_of_members?_eq_none (hs : t.members? = none) (h : ∀ m ∈ t.children, m.Narrow) :
    t.Narrow := by
  refine narrow_iff.2 ⟨fun members hm => ?_, h⟩
  cases hs.symm.trans hm

/-- The only union in a primitive type is `AnyPrimitive`, and it is small. -/
theorem narrow_primitive (p : Primitive) : (primitive p).Narrow := by
  have hleaf {q : Primitive} (hs : (primitive q).members?.isNone = true)
      (hq : (primitive q).children.isEmpty = true) : (primitive q).Narrow :=
    narrow_of_members?_eq_none (Option.isNone_iff_eq_none.1 hs) (by simp [List.isEmpty_iff.1 hq])
  cases p with
  | plain kind hk =>
    cases kind with
    | anyPrimitive =>
      refine narrow_iff.2 ⟨?_, List.forall_mem_map.2 fun q hq => ?_⟩
      · rintro _ ⟨⟩
        decide
      · -- its members are no unions
        have hmembers : ∀ q ∈ Primitive.anyPrimitiveMembers,
            (primitive q).members?.isNone = true ∧ (primitive q).children.isEmpty = true := by
          decide
        exact hleaf (hmembers q hq).1 (hmembers q hq).2
    | _ => exact hleaf rfl rfl
  | _ => exact hleaf rfl rfl

end DataType

/-! ## Columns -/

/-- The column of a member of a union. -/
def UnionMember.column (m : UnionMember) : Except ExportError Arrow.Column := do
  return m.type.column m.tag true (← m.type.columnType)

theorem UnionMember.columns_eq_mapM (members : List UnionMember) :
    columns members = members.mapM column := by
  induction members with
  | nil => rfl
  | cons m rest ih =>
    cases m with
    | mk tag type =>
    rw [columns, List.mapM_cons, ih, column]
    cases type.columnType <;> rfl

theorem Field.columns_eq_mapM (fields : List Field) : columns fields = fields.mapM column := by
  induction fields with
  | nil => rfl
  | cons f rest ih =>
    cases f with
    | mk name type =>
    rw [columns, List.mapM_cons, ih, column]
    cases type.columnType <;> rfl

/-- The columns of a record are those of its fields, in order. -/
theorem Record.columns_eq_ok_iff {r : Record} {columns : List Arrow.Column} :
    r.columns = .ok columns ↔ List.Forall₂ (fun f c => f.column = .ok c) r.fields columns := by
  rw [Record.columns, Field.columns_eq_mapM, except_mapM_eq_ok_iff]

section

variable {f : Field} {r : Record}

/-- A field has a column exactly if its type has a column type. -/
theorem Field.exists_column_iff :
    (∃ c, f.column = .ok c) ↔ ∃ type, f.type.columnType = .ok type :=
  exists_except_bind_pure_eq_ok_iff

/-- A record has columns exactly if it has a column type. -/
theorem Record.exists_columns_iff :
    (∃ cs, r.columns = .ok cs) ↔ ∃ type, (DataType.record r).columnType = .ok type := by
  cases r
  exact exists_except_bind_pure_eq_ok_iff.symm

end

namespace DataType

/-- The members of a union; the members of `AnyPrimitive` are tagged by the names of their types. -/
def branches? : DataType → Option (List UnionMember)
  | .union members => some members
  | .primitive (.plain .anyPrimitive _) => some (anyPrimitiveMembers.map tagged)
  | _ => none

variable {t : DataType} {members : List UnionMember} {e : ExportError}

theorem branches?_cases (h : t.branches? = some members) :
    t = .union members ∨ t = .plain .anyPrimitive ∧ members = anyPrimitiveMembers.map tagged := by
  cases t with
  | primitive p =>
    cases p with
    | plain kind hk =>
      cases kind <;> cases h
      exact Or.inr ⟨rfl, rfl⟩
    | _ => cases h
  | union members => exact Or.inl (congrArg union (Option.some.inj h))
  | _ => cases h

/-- The column type of a union is made of the columns of its members; this holds of `AnyPrimitive`,
too. -/
theorem columnType_of_branches? (h : t.branches? = some members) :
    t.columnType = members.mapM UnionMember.column >>= Arrow.union := by
  rw [← UnionMember.columns_eq_mapM]
  rcases branches?_cases h with rfl | ⟨rfl, rfl⟩ <;> rfl

theorem columnType_record (r : Record) :
    (record r).columnType = r.fields.mapM Field.column >>= fun cs => pure (.struct cs) := by
  rw [← Field.columns_eq_mapM]
  cases r
  rfl

/-- The branches of an exported union are numbered by the positions of the members. -/
theorem exists_branches_of_columnType {c : Arrow.ColumnType} (hm : t.branches? = some members)
    (h : t.columnType = .ok c) :
    members.length ≤ 128 ∧ ∃ branches, c = .denseUnion branches ∧
      List.Forall₂ (fun m branch => branch.1.toInt = m.2 ∧ m.1.column = .ok branch.2)
        members.zipIdx branches := by
  rw [columnType_of_branches? hm] at h
  obtain ⟨columns, hcolumns, hunion⟩ := except_bind_eq_ok_iff.1 h
  rw [except_mapM_eq_ok_iff] at hcolumns
  rw [Arrow.union_eq, ← hcolumns.length_eq] at hunion
  split at hunion
  · next hlen =>
    exact ⟨hlen, _, (Except.ok.inj hunion).symm, Arrow.forall₂_numbered hcolumns hlen⟩
  · cases hunion

/-- A type that is exported has no wide union. -/
theorem narrow_of_columnType_eq_ok {c : Arrow.ColumnType} (h : t.columnType = .ok c) :
    t.Narrow := by
  induction t generalizing c with
  | primitive p => exact narrow_primitive p
  | union members ih =>
    -- there are no more members than numbers for their branches, and each of them is exported
    refine narrow_iff.2 ⟨fun types hs => ?_, List.forall_mem_map.2 fun m hm => ?_⟩
    · obtain rfl := Option.some.inj hs
      rw [List.length_map]
      exact (exists_branches_of_columnType rfl h).1
    rw [columnType_of_branches? rfl] at h
    obtain ⟨columns, hcolumns, -⟩ := except_bind_eq_ok_iff.1 h
    obtain ⟨column, hcolumn⟩ := exists_of_except_mapM_eq_ok hcolumns m hm
    obtain ⟨type, htype, -⟩ := except_bind_eq_ok_iff.1 hcolumn
    exact ih m hm htype
  | array items ih =>
    obtain ⟨type, htype, -⟩ := except_bind_eq_ok_iff.1 h
    exact narrow_of_members?_eq_none rfl (by simpa [children] using ih htype)
  | map values ih =>
    obtain ⟨type, htype, -⟩ := except_bind_eq_ok_iff.1 h
    exact narrow_of_members?_eq_none rfl (by simpa [children] using ih htype)
  | record r ih =>
    rw [columnType_record] at h
    obtain ⟨columns, hcolumns, -⟩ := except_bind_eq_ok_iff.1 h
    refine narrow_of_members?_eq_none rfl (List.forall_mem_map.2 fun f hf => ?_)
    obtain ⟨column, hcolumn⟩ := exists_of_except_mapM_eq_ok hcolumns f hf
    obtain ⟨type, htype, -⟩ := except_bind_eq_ok_iff.1 hcolumn
    exact ih f hf htype

/-- An export of a type with admissible parameters fails only at a wide union. -/
theorem wideAt_of_columnType_eq_error (ha : t.Admissible) (h : t.columnType = .error e) :
    t.WideAt e := by
  induction t with
  | primitive p =>
    obtain ⟨c, hc⟩ := Primitive.exists_columnType ha
    cases hc.symm.trans h
  | union members ih =>
    rw [columnType_of_branches? rfl] at h
    rcases except_bind_eq_error_iff.1 h with h | ⟨columns, hcolumns, h⟩
    · obtain ⟨m, hm, he⟩ := exists_of_except_mapM_eq_error h
      have hchild : m.type ∈ (union members).children := List.mem_map_of_mem hm
      have hma := admissible_of_mem_children hchild ha
      exact (ih m hm hma (except_bind_pure_eq_error_iff.1 he)).of_child hchild
    · -- the members are exported, but there are too many of them
      rw [Arrow.union_eq, ← (except_mapM_eq_ok_iff.1 hcolumns).length_eq] at h
      split at h
      · cases h
      · next hlen =>
        refine ⟨_, _, .refl, rfl, ?_, ?_⟩ <;> rw [List.length_map]
        · exact Nat.lt_of_not_le hlen
        · exact (Except.error.inj h).symm
  | array items ih =>
    have hwide := ih (by rwa [Admissible] at ha) (except_bind_pure_eq_error_iff.1 h)
    exact hwide.of_child (List.mem_singleton_self _)
  | map values ih =>
    have hwide := ih (by rwa [Admissible] at ha) (except_bind_pure_eq_error_iff.1 h)
    exact hwide.of_child (List.mem_singleton_self _)
  | record r ih =>
    rw [Admissible, Record.admissible_iff] at ha
    rw [columnType_record] at h
    obtain ⟨f, hf, he⟩ := exists_of_except_mapM_eq_error (except_bind_pure_eq_error_iff.1 h)
    have hwide := ih f hf (ha.2 f hf) (except_bind_pure_eq_error_iff.1 he)
    exact hwide.of_child (List.mem_map_of_mem hf)

/-- A type with admissible parameters is exported exactly if no union in it is wide. -/
theorem exists_columnType_iff (ha : t.Admissible) : (∃ c, t.columnType = .ok c) ↔ t.Narrow := by
  constructor
  · rintro ⟨c, hc⟩
    exact narrow_of_columnType_eq_ok hc
  · intro hnarrow
    cases hc : t.columnType with
    | ok c => exact ⟨c, rfl⟩
    | error e => exact absurd hnarrow (wideAt_of_columnType_eq_error ha hc).not_narrow

/-- What holds of the export of a type. -/
structure Exports (t : DataType) : Prop where
  /-- The export succeeds exactly if no union in the type has more than 128 members. -/
  exists_iff : (∃ c, t.columnType = .ok c) ↔ t.Narrow
  /-- If it fails, it fails at such a union. -/
  wideAt : ∀ e, t.columnType = .error e → t.WideAt e
  /-- The precision and the scale of a decimal are exact. -/
  decimal : ∀ precision scale, t = primitive (.decimal precision scale) →
    ∃ (p : UInt8) (s : Int8), p.toNat = precision ∧ s.toInt = scale ∧
      t.columnType = .ok (.decimal (Arrow.decimalWidth precision) p s)
  /-- The size of a fixed type is exact. -/
  fixed : ∀ size name, t = primitive (.fixed size name) →
    ∃ s : Int32, s.toInt = size ∧ t.columnType = .ok (.fixedSizeBinary s)
  /-- A union, `AnyPrimitive` included, has a branch for each member, in order, and its branches are
  numbered from zero. -/
  branches : ∀ members c, t.branches? = some members → t.columnType = .ok c →
    ∃ branches, c = .denseUnion branches ∧
      List.Forall₂ (fun m branch => branch.1.toInt = (m.2 : Int) ∧ m.1.column = .ok branch.2)
        members.zipIdx branches
  /-- A field of the type has a column exactly in the same case. -/
  column_iff : ∀ f : Field, f.type = t → ((∃ c, f.column = .ok c) ↔ t.Narrow)
  /-- And so have the fields of a record, which are the columns of a schema. -/
  columns_iff : ∀ r, t = record r → ((∃ cs, r.columns = .ok cs) ↔ t.Narrow)

/-- Any type that the functions that build types make, or that is read from a document, is exported
exactly if no union in it has more than 128 members, whatever surrounds the union; the same holds of
fields of the type and of a record's columns. All other numbers are narrowed exactly. -/
theorem exports_of_built (h : t.Built) : t.Exports := by
  have ha := h.admissible
  refine ⟨exists_columnType_iff ha, fun e he => wideAt_of_columnType_eq_error ha he, ?decimal,
    ?fixed, fun members c hm hc => (exists_branches_of_columnType hm hc).2, ?column, ?columns⟩
  case decimal =>
    rintro precision scale rfl
    exact Arrow.decimal_eq ha
  case fixed =>
    rintro size name rfl
    exact Arrow.fixedSize_eq ha
  case column =>
    rintro f rfl
    rw [Field.exists_column_iff, exists_columnType_iff ha]
  case columns =>
    rintro r rfl
    rw [Record.exists_columns_iff, exists_columnType_iff ha]

end DataType

/-- A union of as many texts with bounded lengths. -/
def texts (count : Nat) : DataType :=
  .union (List.map DataType.tagged ((List.range count).map fun i => .primitive (.varchar (i + 1))))

theorem texts_built {count : Nat} (h : (texts count).Admissible) : (texts count).Built := by
  refine .union (fun m hm => ?_) (DataType.unionOf_of_admissible h)
  obtain ⟨-, -, -, hadmissible⟩ := DataType.admissible_union_iff.1 h
  have hma := hadmissible m hm
  obtain ⟨i, -, rfl⟩ := List.mem_map.1 hm
  exact .varchar (Primitive.varcharOf_eq_ok_iff.2 ⟨i + 1, rfl, rfl, hma⟩)

/-- Of 128 texts a union is exported, of 129 it is not. -/
theorem texts_exports :
    ((texts 128).Built ∧ ∃ c, (texts 128).columnType = .ok c) ∧
      (texts 129).Built ∧ ¬ ∃ c, (texts 129).columnType = .ok c := by
  have hmost : (texts 128).Built := texts_built (by decide +kernel)
  have hmore : (texts 129).Built := texts_built (by decide +kernel)
  refine ⟨⟨hmost, (DataType.exports_of_built hmost).exists_iff.2 ?narrow⟩, hmore, fun hc => ?wide⟩
  case narrow =>
    refine DataType.narrow_iff.2 ⟨?_, List.forall_mem_map.2 (List.forall_mem_map.2 ?_)⟩
    · rintro _ ⟨⟩
      simp
    · exact List.forall_mem_map.2 fun _ _ => DataType.narrow_primitive _
  case wide =>
    have hlen := (DataType.exports_of_built hmore).exists_iff.1 hc _ _ .refl rfl
    simp at hlen

end AvroSchema
