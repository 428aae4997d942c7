import AvroSchema.Proofs.Wire.Marks
import AvroSchema.Proofs.Wire.RecordReadings

/-!
# Reloading Types

Writing a type and reading what was written goes through the type twice with two tables: the
definitions that the writer has opened and the ones that the reader has. `Reloads` relates a type to
what such a pass makes of it, without any nodes in between: a reference becomes whatever its name
resolves to, a definition is rebuilt from its parts, the members of a union are tagged anew, and
nullable fields lose their default values.

* `reloads_iff_of_standsFor`, `reloads_iff_of_not_standsFor`: references and definitions.
* `DataType.canonical_withParts_iff`: a rebuilt type comes back exactly if its parts do.
-/

namespace AvroSchema

/-! ## The relation -/

namespace DataType

/-- A named type with its parts replaced by others that were read for them. -/
def withParts (t : DataType) (parts : List DataType) : DataType :=
  match t with
  | .record r => .record { r with fields := List.zipWith Field.reloaded r.fields parts }
  | t => t

end DataType

mutual

/-- `Reloads space t opened read u left`: a type that is written in a namespace with some
definitions opened is read back as another type, which extends the definitions that are read. -/
inductive Reloads : Option String → DataType → Definitions → Definitions → DataType →
    Definitions → Prop where
  | unnamed {space : Option String} {p : Primitive} {opened read : Definitions} :
      p.wireName? = none → Reloads space (.primitive p) opened read (.primitive p) read
  | union {space : Option String} {members : List UnionMember} {us : List DataType}
      {opened read left : Definitions} :
      ReloadsAll space (members.map UnionMember.type) opened read us left →
      Reloads space (.union members) opened read (.union (us.map DataType.tagged)) left
  | array {space : Option String} {t u : DataType} {opened read left : Definitions} :
      Reloads space t opened read u left → Reloads space (.array t) opened read (.array u) left
  | map {space : Option String} {t u : DataType} {opened read left : Definitions} :
      Reloads space t opened read u left → Reloads space (.map t) opened read (.map u) left
  /-- A reference becomes the type that its name resolves to. -/
  | referred {space : Option String} {name : String} {t u : DataType}
      {opened read : Definitions} :
      t.fullName? space = some name → opened.standsFor name t = true →
      Wire.resolve? read space name = some u → Reloads space t opened read u read
  /-- A definition is rebuilt from its parts and then defined. -/
  | defined {space : Option String} {name : String} {t : DataType} {us : List DataType}
      {opened read left : Definitions} :
      t.fullName? space = some name → opened.standsFor name t = false →
      ReloadsAll (t.innerSpace space) t.parts (opened.define name t) read us left →
      Reloads space t opened read (t.withParts us) (left.define name (t.withParts us))

/-- The same for types that are written one after the other. -/
inductive ReloadsAll : Option String → List DataType → Definitions → Definitions →
    List DataType → Definitions → Prop where
  | nil {space : Option String} {opened read : Definitions} :
      ReloadsAll space [] opened read [] read
  | cons {space : Option String} {t u : DataType} {ts us : List DataType}
      {opened read between left : Definitions} :
      Reloads space t opened read u between →
      ReloadsAll space ts (t.write space opened).2 between us left →
      ReloadsAll space (t :: ts) opened read (u :: us) left

end

section

variable {space : Option String} {name : String} {t u : DataType} {ts us : List DataType}
  {opened read left : Definitions}

theorem reloads_unnamed_iff {p : Primitive} (hp : p.wireName? = none) :
    Reloads space (.primitive p) opened read u left ↔ u = .primitive p ∧ left = read := by
  -- without a full name, the type is neither referred to nor defined
  have hn : (DataType.primitive p).fullName? space = none := by simp [DataType.fullName?, hp]
  constructor
  · rintro (_ | _ | _ | _ | ⟨h, -, -⟩ | ⟨h, -, -⟩)
    · exact ⟨rfl, rfl⟩
    · rw [hn] at h
      cases h
    · rw [hn] at h
      cases h
  · rintro ⟨rfl, rfl⟩
    exact .unnamed hp

theorem reloads_union_iff {members : List UnionMember} :
    Reloads space (.union members) opened read u left ↔
      ∃ us, ReloadsAll space (members.map UnionMember.type) opened read us left ∧
        u = .union (us.map DataType.tagged) := by
  constructor
  · rintro (_ | h | _ | _ | ⟨h, -, -⟩ | ⟨h, -, -⟩)
    · exact ⟨_, h, rfl⟩
    · cases h
    · cases h
  · rintro ⟨us, h, rfl⟩
    exact .union h

theorem reloads_array_iff :
    Reloads space (.array t) opened read u left ↔
      ∃ v, Reloads space t opened read v left ∧ u = .array v := by
  constructor
  · rintro (_ | _ | h | _ | ⟨h, -, -⟩ | ⟨h, -, -⟩)
    · exact ⟨_, h, rfl⟩
    · cases h
    · cases h
  · rintro ⟨v, h, rfl⟩
    exact .array h

theorem reloads_map_iff :
    Reloads space (.map t) opened read u left ↔
      ∃ v, Reloads space t opened read v left ∧ u = .map v := by
  constructor
  · rintro (_ | _ | _ | h | ⟨h, -, -⟩ | ⟨h, -, -⟩)
    · exact ⟨_, h, rfl⟩
    · cases h
    · cases h
  · rintro ⟨v, h, rfl⟩
    exact .map h

/-- What a reference reloads as. -/
theorem reloads_iff_of_standsFor (hn : t.fullName? space = some name)
    (hs : opened.standsFor name t = true) :
    Reloads space t opened read u left ↔
      Wire.resolve? read space name = some u ∧ left = read := by
  constructor
  · intro h
    cases h with
    | unnamed hp => simp [DataType.fullName?, hp] at hn
    | union _ => cases hn
    | array _ => cases hn
    | map _ => cases hn
    | referred hn' _ hr =>
      rw [hn, Option.some.injEq] at hn'
      exact ⟨hn' ▸ hr, rfl⟩
    | defined hn' hs' _ =>
      -- the name stands for the type
      rw [hn, Option.some.injEq] at hn'
      subst hn'
      rw [hs] at hs'
      cases hs'
  · rintro ⟨hr, rfl⟩
    exact .referred hn hs hr

/-- What a definition reloads as. -/
theorem reloads_iff_of_not_standsFor (hn : t.fullName? space = some name)
    (hs : opened.standsFor name t = false) :
    Reloads space t opened read u left ↔
      ∃ us between, ReloadsAll (t.innerSpace space) t.parts (opened.define name t) read us between ∧
        u = t.withParts us ∧ left = between.define name (t.withParts us) := by
  constructor
  · intro h
    cases h with
    | unnamed hp => simp [DataType.fullName?, hp] at hn
    | union _ => cases hn
    | array _ => cases hn
    | map _ => cases hn
    | referred hn' hs' _ =>
      -- the name does not stand for the type
      rw [hn, Option.some.injEq] at hn'
      subst hn'
      rw [hs] at hs'
      cases hs'
    | defined hn' _ hr =>
      rw [hn, Option.some.injEq] at hn'
      subst hn'
      exact ⟨_, _, hr, rfl, rfl⟩
  · rintro ⟨us, between, hr, rfl, rfl⟩
    exact .defined hn hs hr

theorem reloadsAll_nil_iff :
    ReloadsAll space [] opened read us left ↔ us = [] ∧ left = read := by
  constructor
  · rintro ⟨⟩
    exact ⟨rfl, rfl⟩
  · rintro ⟨rfl, rfl⟩
    exact .nil

theorem reloadsAll_cons_iff :
    ReloadsAll space (t :: ts) opened read us left ↔
      ∃ u between rest, Reloads space t opened read u between ∧
        ReloadsAll space ts (t.write space opened).2 between rest left ∧ us = u :: rest := by
  constructor
  · rintro (_ | ⟨h, hs⟩)
    exact ⟨_, _, _, h, hs, rfl⟩
  · rintro ⟨u, between, rest, h, hs, rfl⟩
    exact .cons h hs

theorem ReloadsAll.length_eq (h : ReloadsAll space ts opened read us left) :
    us.length = ts.length := by
  induction ts generalizing opened read us with
  | nil => simp [(reloadsAll_nil_iff.1 h).1]
  | cons t ts ih =>
    obtain ⟨u, between, rest, -, hs, rfl⟩ := reloadsAll_cons_iff.1 h
    simp [ih hs]

end

/-! ## Rebuilt types -/

namespace Field

/-- A field comes back as its outline exactly if its type does. -/
theorem canonical_reloaded_iff {f : Field} {t : DataType} :
    (f.reloaded t).canonical = f.outline ↔ t.canonical = f.type.outline := by
  -- the default value that is lost is the one that the outline leaves out
  have hd : ((if f.nullable then none else f.defaultValue).map Json.canonical) =
      if f.nullable then none else f.defaultValue.map Json.canonical := by
    cases f.nullable <;> rfl
  rw [canonical, outline, mapDefaults_eq, mapDefaults_eq]
  simp [reloaded, hd, DataType.canonical, DataType.outline]

end Field

/-- Fields keep their names when they are read back. -/
theorem Field.map_name_zipWith_reloaded {fs : List Field} {us : List DataType}
    (hl : us.length = fs.length) :
    (List.zipWith Field.reloaded fs us).map Field.name = fs.map Field.name := by
  induction fs generalizing us with
  | nil => simp
  | cons f fs ih =>
    match us, hl with
    | u :: us, hl =>
      have hl : us.length = fs.length := by simpa using hl
      simp [Field.reloaded, ih hl]

namespace DataType

/-- Fields that were read back have the outlines of the original ones exactly if their types do. -/
theorem canonical_zipWith_reloaded_iff {fs : List Field} {us : List DataType}
    (hl : us.length = fs.length) :
    (List.zipWith Field.reloaded fs us).map Field.canonical = fs.map Field.outline ↔
      us.map canonical = (fs.map Field.type).map outline := by
  induction fs generalizing us with
  | nil =>
    obtain rfl : us = [] := List.length_eq_zero_iff.1 hl
    simp
  | cons f fs ih =>
    match us, hl with
    | u :: us, hl =>
      have hl : us.length = fs.length := by simpa using hl
      simp only [List.zipWith_cons_cons, List.map_cons, List.cons.injEq,
        Field.canonical_reloaded_iff, ih hl]

/-- The types in a union that comes back as its outline do so, too. -/
theorem map_canonical_of_canonical_union {members : List UnionMember} {us : List DataType}
    (h : (union (us.map tagged)).canonical = (union members).outline) :
    us.map canonical = (members.map UnionMember.type).map outline := by
  rw [canonical_union, outline, mapDefaults_union, union.injEq] at h
  have ht := congrArg (List.map UnionMember.type) h
  rwa [map_type_tagged, map_type_mapDefaults] at ht

/-- A rebuilt type has the outline of the original one exactly if its parts do. -/
theorem canonical_withParts_iff {t : DataType} {us : List DataType} (ht : t.isNamed = true)
    (hl : us.length = t.parts.length) :
    (t.withParts us).canonical = t.outline ↔ us.map canonical = t.parts.map outline := by
  cases t with
  | primitive p =>
    -- there is nothing to rebuild it from
    obtain rfl : us = [] := List.length_eq_zero_iff.1 hl
    simp [withParts, canonical, parts]
  | record r =>
    rw [withParts, canonical_record, outline_record, parts,
      ← canonical_zipWith_reloaded_iff (by simpa [parts] using hl), Record.canonical,
      Record.outline, Record.mapDefaults_eq, Record.mapDefaults_eq]
    simp only [record.injEq, Record.mk.injEq, true_and]
    rfl
  | _ => cases ht

end DataType

end AvroSchema
