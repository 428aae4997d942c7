import AvroSchema.Proofs.Wire.Nodes

/-!
# What Documents Determine

A document says everything about its record but the default values of nullable fields. Definitions
are replaced by names depending on everything that was written before, so two records are compared
in lockstep: while both are written, the tables of their definitions stay alike, except for the
definitions that are being written, and these are too large to be referred to inside themselves.

* `Definitions.Alike`, `Definitions.Grow`: the invariant of the two tables, and what writing does to
  them.
* `DataType.determined`: types that are written alike with tables that are alike have one outline.
* `Record.outline_eq_of_members`: the members of a document determine the outline of the record.
-/

namespace AvroSchema

/-! ## Alike definitions -/

namespace Definitions

/-- Two tables define the same names, and every type that is nested less than a bound has the
outline of the type of its name in the other table. -/
structure Alike (bound : Nat) (left right : Definitions) : Prop where
  /-- The same names are defined. -/
  defined : ∀ name, left.find? name = none ↔ right.find? name = none
  /-- Types that are nested less than the bound have one outline. -/
  outline : ∀ name t u, left.find? name = some t → right.find? name = some u →
    t.nesting < bound → t.outline = u.outline

/-- Two tables grow into others: what is defined stays, and what is new has one outline. -/
structure Grow (left right left' right' : Definitions) : Prop where
  /-- The left table keeps its definitions. -/
  keeps_left : ∀ name t, left.find? name = some t → left'.find? name = some t
  /-- The right table keeps its definitions. -/
  keeps_right : ∀ name u, right.find? name = some u → right'.find? name = some u
  /-- New definitions have one outline. -/
  fresh : ∀ name, left.find? name = none →
    (left'.find? name).map DataType.outline = (right'.find? name).map DataType.outline

section

variable {bound : Nat} {left right left' right' left'' right'' : Definitions} {name : String}
  {t u : DataType}

/-- Nothing is defined when a document starts. -/
theorem Alike.nil (bound : Nat) : Alike bound [] [] where
  defined _ := Iff.rfl
  outline _ _ _ h := nomatch h

theorem Alike.exists_right (h : Alike bound left right) (ht : left.find? name = some t) :
    ∃ u, right.find? name = some u :=
  Option.ne_none_iff_exists'.1 fun hr => by
    rw [(h.defined name).2 hr] at ht
    cases ht

/-- A definition starts: its outlines need not agree yet, but it is too large to be referred to. -/
theorem Alike.open_both (h : Alike bound left right) (hb : t.nesting ≤ bound) :
    Alike t.nesting (left.define name t) (right.define name u) where
  defined other := by
    rw [find?_define, find?_define]
    split
    · exact iff_of_false nofun nofun
    · exact h.defined other
  outline other v w hv hw hlt := by
    rw [find?_define] at hv hw
    split at hv
    · next he =>
      rw [if_pos he] at hw
      cases hl : left.find? name with
      | none =>
        -- the new definition is as large as the bound
        rw [hl, Option.getD_none, Option.some.injEq] at hv
        exact absurd hlt (hv ▸ Nat.lt_irrefl _)
      | some v' =>
        -- a definition that was there before stays, on both sides
        obtain ⟨w', hr⟩ := h.exists_right hl
        rw [hl, Option.getD_some, Option.some.injEq] at hv
        rw [hr, Option.getD_some, Option.some.injEq] at hw
        subst hv hw
        exact h.outline name _ _ hl hr (Nat.lt_of_lt_of_le hlt hb)
    · next he =>
      rw [if_neg he] at hw
      exact h.outline other v w hv hw (Nat.lt_of_lt_of_le hlt hb)

theorem Grow.refl (h : Alike bound left right) : Grow left right left right where
  keeps_left _ _ h := h
  keeps_right _ _ h := h
  fresh name hn := by rw [hn, (h.defined name).1 hn]

theorem Grow.trans (h : Grow left right left' right') (h' : Grow left' right' left'' right'') :
    Grow left right left'' right'' where
  keeps_left name t ht := h'.keeps_left name t (h.keeps_left name t ht)
  keeps_right name u hu := h'.keeps_right name u (h.keeps_right name u hu)
  fresh name hn := by
    have hf := h.fresh name hn
    cases hl : left'.find? name with
    | none => exact h'.fresh name hl
    | some v =>
      -- what is new after the first step stays in the second one
      rw [hl, Option.map_some, eq_comm, Option.map_eq_some_iff] at hf
      obtain ⟨w, hr, he⟩ := hf
      rw [h'.keeps_left name v hl, h'.keeps_right name w hr, Option.map_some, Option.map_some, he]

/-- Tables that grow stay alike. -/
theorem Alike.grow (h : Alike bound left right) (hg : Grow left right left' right') :
    Alike bound left' right' where
  defined name := by
    cases hl : left.find? name with
    | none =>
      have hf := congrArg Option.isNone (hg.fresh name hl)
      simpa [← Option.isNone_iff_eq_none, Bool.coe_iff_coe] using hf
    | some v =>
      obtain ⟨w, hr⟩ := h.exists_right hl
      rw [hg.keeps_left name v hl, hg.keeps_right name w hr]
      exact iff_of_false nofun nofun
  outline name t u ht hu hlt := by
    cases hl : left.find? name with
    | none => simpa [ht, hu] using hg.fresh name hl
    | some v =>
      obtain ⟨w, hr⟩ := h.exists_right hl
      rw [hg.keeps_left name v hl, Option.some.injEq] at ht
      rw [hg.keeps_right name w hr, Option.some.injEq] at hu
      subst ht hu
      exact h.outline name _ _ hl hr hlt

/-- A definition is complete: by now its outlines agree. -/
theorem Grow.close (h : Alike bound left right) (ho : t.outline = u.outline)
    (hg : Grow (left.define name t) (right.define name u) left' right') :
    Grow left right left' right' where
  keeps_left other v hv := hg.keeps_left other v (find?_define_of_some hv)
  keeps_right other w hw := hg.keeps_right other w (find?_define_of_some hw)
  fresh other hn := by
    by_cases he : other = name
    · subst he
      have hl : (left.define other t).find? other = some t := by simp [find?_define, hn]
      have hr : (right.define other u).find? other = some u := by
        simp [find?_define, (h.defined other).1 hn]
      rw [hg.keeps_left _ _ hl, hg.keeps_right _ _ hr, Option.map_some, Option.map_some, ho]
    · exact hg.fresh other (by rw [find?_define, if_neg he, hn])

end

end Definitions

/-! ## Written types -/

/-- No kind is tagged like a type that is not primitive. -/
theorem Kind.tag?_avro_ne {kind : Kind} {tag : WireTag} (h : kind.tag? = some tag) :
    tag.avro ≠ "array" ∧ tag.avro ≠ "map" ∧ tag.avro ≠ "record" := by
  cases kind <;> cases h <;> decide

namespace DataType

/-- The types of the members of a union; `AnyPrimitive` is one. -/
def members? : DataType → Option (List DataType)
  | .union members => some (members.map UnionMember.type)
  | .primitive (.plain .anyPrimitive _) => some anyPrimitiveMembers
  | _ => none

/-- The type that the node of a type names if it is written out. -/
def tag? : DataType → Option String
  | .primitive p => p.kind.tag?.map (·.avro)
  | .union _ => none
  | .array _ => some "array"
  | .map _ => some "map"
  | .record _ => some "record"

section

variable {space : Option String} {table : Definitions} {t u : DataType} {ts us : List DataType}

theorem isSome_members? (t : DataType) : t.members?.isSome = t.isUnion := by
  cases t with
  | primitive p =>
    cases p with
    | plain kind h => cases kind <;> rfl
    | _ => rfl
  | _ => rfl

theorem members?_cases (h : t.members? = some ts) :
    (∃ members, members.map UnionMember.type = ts ∧ t = .union members) ∨
      t = .plain .anyPrimitive ∧ ts = anyPrimitiveMembers := by
  cases t with
  | primitive p =>
    cases p with
    | plain kind hk =>
      cases kind <;> cases h
      exact Or.inr ⟨rfl, rfl⟩
    | _ => cases h
  | union members => exact Or.inl ⟨members, Option.some.inj h, rfl⟩
  | _ => cases h

/-- A union is written as the list of its members, one after the other. -/
theorem write_of_members? (h : t.members? = some ts) :
    t.write space table = (.array (writeAll space ts table).1, (writeAll space ts table).2) := by
  rcases members?_cases h with ⟨members, rfl, rfl⟩ | ⟨rfl, rfl⟩
  · exact write_union space members table
  · rfl

theorem names_of_members? (h : t.members? = some ts) :
    t.names space = ts.flatMap (names space) := by
  rcases members?_cases h with ⟨members, rfl, rfl⟩ | ⟨rfl, rfl⟩
  · rw [names_union, List.flatMap_map]
  · rfl

/-- An admissible union has at least two admissible members. -/
theorem admissible_of_members? (h : t.members? = some ts) (ha : t.Admissible) :
    2 ≤ ts.length ∧ ∀ m ∈ ts, m.Admissible := by
  rcases members?_cases h with ⟨members, rfl, rfl⟩ | ⟨rfl, rfl⟩
  · obtain ⟨ts, rfl⟩ := exists_tagged_of_admissible ha
    obtain ⟨hl, -, -, hm⟩ := admissible_union_iff.1 ha
    rw [map_type_tagged]
    exact ⟨hl, hm⟩
  · decide

/-- The members of a union are nested at most as much as the union. -/
theorem nesting_le_of_members? (h : t.members? = some ts) {m : DataType} (hm : m ∈ ts) :
    m.nesting ≤ t.nesting := by
  rcases members?_cases h with ⟨members, rfl, rfl⟩ | ⟨rfl, rfl⟩
  · obtain ⟨member, hmember, rfl⟩ := List.mem_map.1 hm
    exact Nat.le_of_lt (nesting_type_lt hmember)
  · obtain ⟨p, -, rfl⟩ := List.mem_map.1 hm
    exact Nat.le_refl _

/-- The members of an admissible union determine it. -/
theorem outline_eq_of_members? (ht : t.members? = some ts) (hu : u.members? = some us)
    (ha : t.Admissible) (hb : u.Admissible) (h : ts.map outline = us.map outline) :
    t.outline = u.outline := by
  have hany : areAnyPrimitive ts = areAnyPrimitive us := by
    have he := congrArg areAnyPrimitive h
    exact (areAnyPrimitive_mapDefaults _ ts).symm.trans
      (he.trans (areAnyPrimitive_mapDefaults _ us))
  have hself : areAnyPrimitive anyPrimitiveMembers = true := by decide
  rcases members?_cases ht with ⟨members, rfl, rfl⟩ | ⟨rfl, rfl⟩ <;>
    rcases members?_cases hu with ⟨others, rfl, rfl⟩ | ⟨rfl, rfl⟩
  · -- members of admissible unions are tagged by the names of their types
    obtain ⟨ts, rfl⟩ := exists_tagged_of_admissible ha
    obtain ⟨us, rfl⟩ := exists_tagged_of_admissible hb
    rw [map_type_tagged, map_type_tagged] at h
    rw [outline_union, outline_union, h]
  -- a union of the members of `AnyPrimitive` is not admissible
  · obtain ⟨ts, rfl⟩ := exists_tagged_of_admissible ha
    obtain ⟨-, -, hn, -⟩ := admissible_union_iff.1 ha
    rw [map_type_tagged, hself, hn] at hany
    cases hany
  · obtain ⟨us, rfl⟩ := exists_tagged_of_admissible hb
    obtain ⟨-, -, hn, -⟩ := admissible_union_iff.1 hb
    rw [map_type_tagged, hself, hn] at hany
    cases hany
  · rfl

/-- Only a reference to a type of the full name null is written like the null branch. -/
theorem branching_write (ha : t.Admissible) (hn : "null" ∉ t.names space) :
    (t.write space table).1.Branching := by
  cases hm : t.members? with
  | none =>
    refine Json.branching_of_array?_eq_none (Option.not_isSome_iff_eq_none.1 ?_)
    rw [isSome_array?_write, ← isSome_members?, hm]
    exact Bool.false_ne_true
  | some ts =>
    rw [write_of_members? hm]
    rintro items ⟨⟩
    rw [length_writeAll]
    -- only a member that is a reference named null would be written like the null branch
    refine ⟨(admissible_of_members? hm ha).1, fun hnull => ?_⟩
    obtain ⟨m, hmem, before, he⟩ := exists_write_of_mem_writeAll hnull
    have hfull := fullName?_of_write_eq_string he.symm
    rw [names_of_members? hm] at hn
    refine hn (List.mem_flatMap.2 ⟨m, hmem, ?_⟩)
    rw [names_of_fullName? hfull]
    exact List.mem_cons_self

/-- A type is written as a name exactly if it is a reference. -/
theorem write_eq_string_iff {name : String} :
    (t.write space table).1 = .string name ↔
      t.fullName? space = some name ∧ table.standsFor name t = true := by
  constructor
  · intro h
    have hn := fullName?_of_write_eq_string h
    refine ⟨hn, ?_⟩
    by_contra hs
    rw [write_of_not_standsFor hn (Bool.eq_false_iff.2 hs)] at h
    exact definition_ne_string t _ name h
  · rintro ⟨hn, hs⟩
    rw [write_of_standsFor hn hs]

/-- A type that is not written as a name is defined, if it has a full name. -/
theorem write_of_ne_string {name : String} (hn : t.fullName? space = some name)
    (h : ∀ name, (t.write space table).1 ≠ .string name) :
    t.write space table =
      (t.definition (writeAll (t.innerSpace space) t.parts (table.define name t)).1,
        (writeAll (t.innerSpace space) t.parts (table.define name t)).2) :=
  write_of_not_standsFor hn
    (Bool.eq_false_iff.2 fun hs => h name (write_eq_string_iff.2 ⟨hn, hs⟩))

/-- A primitive type that is no reference is written out. -/
theorem write_primitive_of_ne {p : Primitive}
    (h : ∀ name, ((primitive p).write space table).1 ≠ .string name) :
    ((primitive p).write space table).1 = p.wire := by
  cases hp : p.wireName? with
  | none => rw [write_unnamed hp]
  | some name =>
    rw [write_of_ne_string (by rw [fullName?, hp, Option.map_some]) h, definition]

/-- A node that is no name names the type that is written out. -/
theorem typeTag?_write (h : ∀ name, (t.write space table).1 ≠ .string name) :
    (t.write space table).1.typeTag? = t.tag? := by
  cases t with
  | primitive p =>
    rw [write_primitive_of_ne h]
    rcases p.wire_cases with rfl | ⟨hk, hw⟩
    · rfl
    · obtain ⟨tag, htag⟩ := Kind.exists_tag? hk
      rw [hw, Primitive.node_eq, Json.typeTag?, Wire.text?, Primitive.get?_members_type htag, tag?,
        htag]
      rfl
  | record r =>
    rw [write_of_ne_string rfl h]
    rfl
  | _ => rfl

/-- Types that are written out alike have one tag. -/
theorem tag?_eq_of_write {left right : Definitions}
    (ht : ∀ name, (t.write space left).1 ≠ .string name)
    (h : (t.write space left).1.canonical = (u.write space right).1.canonical) :
    (∀ name, (u.write space right).1 ≠ .string name) ∧ u.tag? = t.tag? := by
  have hu : ∀ name, (u.write space right).1 ≠ .string name := by
    intro name he
    rw [he, Json.canonical] at h
    exact ht name (Json.canonical_eq_string_iff.1 h)
  refine ⟨hu, ?_⟩
  rw [← typeTag?_write ht, ← typeTag?_write hu, Json.typeTag?_eq_of_canonical_eq h]

theorem eq_array_of_tag? (h : t.tag? = some "array") : ∃ items, t = .array items := by
  cases t with
  | primitive p =>
    obtain ⟨tag, htag, he⟩ := Option.map_eq_some_iff.1 h
    exact absurd he (Kind.tag?_avro_ne htag).1
  | array items => exact ⟨items, rfl⟩
  | _ => simp [tag?] at h

theorem eq_map_of_tag? (h : t.tag? = some "map") : ∃ values, t = .map values := by
  cases t with
  | primitive p =>
    obtain ⟨tag, htag, he⟩ := Option.map_eq_some_iff.1 h
    exact absurd he (Kind.tag?_avro_ne htag).2.1
  | map values => exact ⟨values, rfl⟩
  | _ => simp [tag?] at h

theorem eq_record_of_tag? (h : t.tag? = some "record") : ∃ r, t = .record r := by
  cases t with
  | primitive p =>
    obtain ⟨tag, htag, he⟩ := Option.map_eq_some_iff.1 h
    exact absurd he (Kind.tag?_avro_ne htag).2.2
  | record r => exact ⟨r, rfl⟩
  | _ => simp [tag?] at h

theorem eq_primitive_of_tag? {kind : Kind} {tag : WireTag} (hk : kind.tag? = some tag)
    (h : t.tag? = some tag.avro) : ∃ p, t = .primitive p ∧ p.kind ≠ .anyPrimitive := by
  obtain ⟨harray, hmap, hrecord⟩ := Kind.tag?_avro_ne hk
  cases t with
  | primitive p =>
    refine ⟨p, rfl, fun he => ?_⟩
    rw [tag?, he] at h
    cases h
  | union members => cases h
  | array items => exact absurd (Option.some.inj h).symm harray
  | map values => exact absurd (Option.some.inj h).symm hmap
  | record r => exact absurd (Option.some.inj h).symm hrecord

/-- A primitive type that is written out determines itself. -/
theorem eq_of_write_primitive {left right : Definitions} {p : Primitive}
    (hk : p.kind ≠ .anyPrimitive) (ha : p.Admissible) (hb : u.Admissible)
    (ht : ∀ name, ((primitive p).write space left).1 ≠ .string name)
    (h : ((primitive p).write space left).1.canonical = (u.write space right).1.canonical) :
    u = .primitive p := by
  obtain ⟨hu, htag⟩ := tag?_eq_of_write ht h
  obtain ⟨tag, hp⟩ := Kind.exists_tag? hk
  obtain ⟨q, rfl, hq⟩ := eq_primitive_of_tag? hp (by rw [htag, tag?, hp, Option.map_some])
  rw [write_primitive_of_ne ht, write_primitive_of_ne hu,
    (p.wire_cases.resolve_left (by rintro rfl; exact hk rfl)).2,
    (q.wire_cases.resolve_left (by rintro rfl; exact hq rfl)).2, Primitive.canonical_node,
    Primitive.canonical_node] at h
  rw [Primitive.eq_of_node_eq ha hb hk hq h]

end

/-! ## Two types in lockstep -/

/-- Written with alike tables, no other type gives the node of this one unless both have one
outline, and then the tables grow alike. The type is nested less than a bound above which the tables
may differ. -/
def Determined (t : DataType) : Prop :=
  ∀ {space : Option String} {bound : Nat} {left right : Definitions} {u : DataType},
    t.nesting < bound → t.Admissible → u.Admissible → "null" ∉ t.names space →
    "null" ∉ u.names space → left.Alike bound right →
    (t.write space left).1.canonical = (u.write space right).1.canonical →
    t.outline = u.outline ∧ left.Grow right (t.write space left).2 (u.write space right).2

section

variable {space : Option String} {bound : Nat} {left right : Definitions} {t u : DataType}
  {ts us : List DataType}

/-- A reference determines its type, because the bound keeps it from standing for a type that is
still being written. -/
private theorem determined_reference {name : String} (hb : t.nesting < bound)
    (hl : left.Alike bound right) (ht : (t.write space left).1 = .string name)
    (hu : (u.write space right).1 = .string name) :
    t.outline = u.outline ∧ left.Grow right (t.write space left).2 (u.write space right).2 := by
  obtain ⟨hn, hs⟩ := write_eq_string_iff.1 ht
  obtain ⟨hn', hs'⟩ := write_eq_string_iff.1 hu
  rw [write_of_standsFor hn hs, write_of_standsFor hn' hs']
  refine ⟨?_, .refl hl⟩
  -- the name stands for types that are equal to these
  obtain ⟨v, hv, he⟩ := Definitions.standsFor_iff.1 hs
  obtain ⟨w, hw, he'⟩ := Definitions.standsFor_iff.1 hs'
  have hvb : v.nesting < bound := nesting_eq_of_canonical_eq he ▸ hb
  rw [← outline_eq_of_canonical_eq he, ← outline_eq_of_canonical_eq he']
  exact hl.outline name v w hv hw hvb

/-- Types that are written one after the other are determined, once this is known of each. -/
private theorem determinedAll (h : ∀ t ∈ ts, t.Determined)
    (hb : ∀ t ∈ ts, t.nesting < bound)
    (ha : ∀ t ∈ ts, t.Admissible) (ha' : ∀ u ∈ us, u.Admissible)
    (hn : "null" ∉ ts.flatMap (names space)) (hn' : "null" ∉ us.flatMap (names space))
    (hl : left.Alike bound right)
    (he : (writeAll space ts left).1.map Json.canonical =
      (writeAll space us right).1.map Json.canonical) :
    ts.map outline = us.map outline ∧
      left.Grow right (writeAll space ts left).2 (writeAll space us right).2 := by
  induction ts generalizing us left right with
  | nil =>
    cases us with
    | nil => exact ⟨rfl, .refl hl⟩
    | cons u us => simp [writeAll] at he
  | cons t ts ih =>
    cases us with
    | nil => simp [writeAll] at he
    | cons u us =>
      rw [List.forall_mem_cons] at h hb ha ha'
      rw [List.flatMap_cons, List.mem_append, not_or] at hn hn'
      simp only [writeAll, List.map_cons, List.cons.injEq] at he ⊢
      obtain ⟨ho, hg⟩ := h.1 hb.1 ha.1 ha'.1 hn.1 hn'.1 hl he.1
      obtain ⟨hos, hgs⟩ := ih h.2 hb.2 ha.2 ha'.2 hn.2 hn'.2 (hl.grow hg) he.2
      exact ⟨⟨ho, hos⟩, hg.trans hgs⟩

/-- A union is determined, once this is known of its members. -/
private theorem determined_of_members? (hm : t.members? = some ts)
    (h : ∀ m ∈ ts, m.Determined) : t.Determined := by
  intro space bound left right u hb ha ha' hn hn' hl he
  -- the other type is written as a list too
  have hu : u.members?.isSome = true := by
    rw [isSome_members?, ← isSome_array?_write u space right, ← Option.isSome_map,
      ← Json.array?_canonical, ← he, write_of_members? hm, Json.array?_canonical]
    rfl
  obtain ⟨us, hus⟩ := Option.isSome_iff_exists.1 hu
  rw [write_of_members? hm, write_of_members? hus] at he ⊢
  rw [names_of_members? hm] at hn
  rw [names_of_members? hus] at hn'
  have hnodes : (writeAll space ts left).1.map Json.canonical =
      (writeAll space us right).1.map Json.canonical := by
    simpa [Json.canonical, Json.canonicalItems_eq_map] using he
  obtain ⟨ho, hg⟩ := determinedAll h
    (fun m hmem => Nat.lt_of_le_of_lt (nesting_le_of_members? hm hmem) hb)
    (admissible_of_members? hm ha).2 (admissible_of_members? hus ha').2 hn hn' hl hnodes
  exact ⟨outline_eq_of_members? hm hus ha ha' ho, hg⟩

/-- It is enough to look at types that are not written as names. -/
private theorem determined_of_ne_string
    (h : ∀ {space : Option String} {bound : Nat} {left right : Definitions} {u : DataType},
      t.nesting < bound → t.Admissible → u.Admissible → "null" ∉ t.names space →
      "null" ∉ u.names space → left.Alike bound right →
      (∀ name, (t.write space left).1 ≠ .string name) →
      (t.write space left).1.canonical = (u.write space right).1.canonical →
      t.outline = u.outline ∧
        left.Grow right (t.write space left).2 (u.write space right).2) : t.Determined := by
  intro space bound left right u hb ha ha' hn hn' hl he
  by_cases ht : ∃ name, (t.write space left).1 = .string name
  · obtain ⟨name, ht⟩ := ht
    refine determined_reference hb hl ht (Json.canonical_eq_string_iff.1 ?_)
    rw [← he, ht, Json.canonical]
  · exact h hb ha ha' hn hn' hl (not_exists.1 ht) he

/-- A primitive type other than `AnyPrimitive` is determined. -/
private theorem determined_primitive {p : Primitive} (hk : p.kind ≠ .anyPrimitive) :
    (primitive p).Determined := by
  refine determined_of_ne_string ?_
  intro space bound left right u hb ha ha' _ _ hl ht he
  have hu := (tag?_eq_of_write ht he).1
  obtain rfl := eq_of_write_primitive hk ha ha' ht he
  refine ⟨rfl, ?_⟩
  cases hp : p.wireName? with
  | none =>
    rw [write_unnamed hp, write_unnamed hp]
    exact .refl hl
  | some name =>
    have hn : (primitive p).fullName? space = some (AvroSchema.fullName space name) := by
      rw [fullName?, hp, Option.map_some]
    rw [write_of_ne_string hn ht, write_of_ne_string hn hu]
    exact .close hl rfl (.refl (hl.open_both (Nat.le_of_lt hb)))

/-- The members of the definition of a record determine it, also if there are others, once this is
known of the types of its fields. -/
private theorem determined_of_get?_members {r s : Record}
    (ih : ∀ f ∈ r.fields, f.type.Determined)
    (ha : r.Admissible) (ha' : s.Admissible) (hn : "null" ∉ (record r).innerNames space)
    (hn' : "null" ∉ (record s).innerNames space) (hl : left.Alike r.nesting right)
    (h : ∀ key ∈ Wire.recordKeys,
      (Json.Members.get? (r.members (List.zipWith Field.node r.fields
        (writeAll ((record r).innerSpace space) (record r).parts left).1)) key).map Json.canonical =
      (Json.Members.get? (s.members (List.zipWith Field.node s.fields
        (writeAll ((record s).innerSpace space) (record s).parts right).1)) key).map
          Json.canonical) :
    r.outline = s.outline ∧
      left.Grow right (writeAll ((record r).innerSpace space) (record r).parts left).2
        (writeAll ((record s).innerSpace space) (record s).parts right).2 := by
  obtain ⟨hname, hspace, hdoc, hfields⟩ := Record.eq_of_get?_members h
  have hparts : ∀ {q : Record}, q.Admissible → ∀ t ∈ (record q).parts, t.Admissible := by
    intro q hq t ht
    obtain ⟨f, hf, rfl⟩ := List.mem_map.1 ht
    exact (Record.admissible_iff.1 hq).2 f hf
  -- the nodes of the types can be told apart from the nullable ones
  have hbranch : ∀ {q : Record}, q.Admissible → "null" ∉ (record q).innerNames space →
      ∀ table, ∀ json ∈ (writeAll ((record q).innerSpace space) (record q).parts table).1,
        json.Branching := by
    intro q hq hq' table json hjson
    obtain ⟨t, ht, before, rfl⟩ := exists_write_of_mem_writeAll hjson
    refine branching_write (hparts hq t ht) fun hmem => hq' ?_
    rw [innerNames_eq]
    exact List.mem_flatMap.2 ⟨t, ht, hmem⟩
  obtain ⟨hnodes, hf⟩ := Field.map_canonical_eq_of_zipWith_node_eq
    (by rw [length_writeAll, parts, List.length_map])
    (by rw [length_writeAll, parts, List.length_map]) (hbranch ha hn left) (hbranch ha' hn' right)
    hfields
  have hinner : (record s).innerSpace space = (record r).innerSpace space := by
    rw [innerSpace, innerSpace, hspace]
  rw [innerNames_eq] at hn hn'
  rw [hinner] at hn' hnodes ⊢
  have hdet : ∀ t ∈ (record r).parts, t.Determined := by
    intro t ht
    obtain ⟨f, hf, rfl⟩ := List.mem_map.1 ht
    exact ih f hf
  obtain ⟨ho, hg⟩ := determinedAll hdet (fun t ht => nesting_lt_of_mem_parts ht) (hparts ha)
    (hparts ha') hn hn' hl hnodes
  refine ⟨Record.outline_eq_of_fields hname hspace hdoc (hf ?_), hg⟩
  simpa [parts, Function.comp_def] using ho

/-- A record is determined, once this is known of the types of its fields. -/
private theorem determined_record {r : Record} (ih : ∀ f ∈ r.fields, f.type.Determined) :
    (record r).Determined := by
  refine determined_of_ne_string ?_
  intro space bound left right u hb ha ha' hn hn' hl ht he
  obtain ⟨hu, htag⟩ := tag?_eq_of_write ht he
  obtain ⟨s, rfl⟩ := eq_record_of_tag? htag
  rw [names_of_fullName? rfl, List.mem_cons, not_or] at hn hn'
  rw [write_of_ne_string rfl ht, write_of_ne_string rfl hu] at he ⊢
  have hkeys := Json.get?_eq_of_canonical_eq he
  obtain ⟨hname, hspace, -, -⟩ := Record.eq_of_get?_members fun key _ => hkeys key
  have hfull : s.fullName space = r.fullName space := by
    rw [Record.fullName, Record.fullName, hname, hspace]
  rw [hfull] at hkeys ⊢
  -- while the fields are written, the record may differ between the tables
  obtain ⟨ho, hg⟩ := determined_of_get?_members ih ha ha' hn.2 hn'.2
    (hl.open_both (t := .record r) (Nat.le_of_lt hb)) fun key _ => hkeys key
  have ho : (record r).outline = (record s).outline := congrArg record ho
  exact ⟨ho, .close hl ho hg⟩

end

private theorem kind_of_mem_anyPrimitiveMembers :
    ∀ p ∈ Primitive.anyPrimitiveMembers, p.kind ≠ .anyPrimitive := by decide

/-- Every type is determined. -/
theorem determined (t : DataType) : t.Determined := by
  -- the other type has the same constructor, because its node has the same tag
  induction t with
  | primitive p =>
    rcases p.wire_cases with rfl | ⟨hk, -⟩
    · refine determined_of_members? rfl fun m hm => ?_
      obtain ⟨q, hq, rfl⟩ := List.mem_map.1 hm
      exact determined_primitive (kind_of_mem_anyPrimitiveMembers q hq)
    · exact determined_primitive hk
  | union members ih => exact determined_of_members? rfl (List.forall_mem_map.2 ih)
  | array items ih =>
    refine determined_of_ne_string ?_
    intro space bound left right u hb ha ha' hn hn' hl ht he
    obtain ⟨other, rfl⟩ := eq_array_of_tag? (tag?_eq_of_write ht he).2
    have hnode : (items.write space left).1.canonical = (other.write space right).1.canonical := by
      simpa [write, Json.canonical, Json.canonicalMembers] using he
    obtain ⟨ho, hg⟩ := ih (u := other) (Nat.lt_of_succ_lt hb) ha ha' hn hn' hl hnode
    exact ⟨congrArg array ho, hg⟩
  | map values ih =>
    refine determined_of_ne_string ?_
    intro space bound left right u hb ha ha' hn hn' hl ht he
    obtain ⟨other, rfl⟩ := eq_map_of_tag? (tag?_eq_of_write ht he).2
    have hnode : (values.write space left).1.canonical = (other.write space right).1.canonical := by
      simpa [write, Json.canonical, Json.canonicalMembers] using he
    obtain ⟨ho, hg⟩ := ih (u := other) (Nat.lt_of_succ_lt hb) ha ha' hn hn' hl hnode
    exact ⟨congrArg map ho, hg⟩
  | record r ih => exact determined_record ih

end DataType

/-! ## Documents -/

namespace Record

/-- The members of the document of a record determine its outline, also if there are others. -/
theorem outline_eq_of_members {r s : Record} (ha : r.Admissible) (ha' : s.Admissible)
    (hn : "null" ∉ r.innerNames) (hn' : "null" ∉ s.innerNames)
    (h : ∀ key ∈ Wire.recordKeys,
      (Json.Members.get? (r.members r.fieldNodes) key).map Json.canonical =
        (Json.Members.get? (s.members s.fieldNodes) key).map Json.canonical) :
    r.outline = s.outline := by
  obtain ⟨hname, hspace, -, -⟩ := eq_of_get?_members h
  have hfull : s.fullName none = r.fullName none := by
    rw [fullName, fullName, hname, hspace]
  have hl : (Definitions.define [] (r.fullName none) (.record r)).Alike r.nesting
      (Definitions.define [] (s.fullName none) (.record s)) := by
    rw [hfull]
    exact (Definitions.Alike.nil r.nesting).open_both (t := .record r) (Nat.le_refl _)
  exact (DataType.determined_of_get?_members (fun f _ => f.type.determined) ha ha' hn hn' hl h).1

end Record

end AvroSchema
