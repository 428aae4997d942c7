import AvroSchema.Proofs.Wire.Documents

/-!
# Transcripts of Documents

The marks of a document can be read off it. Where a named type stands, the document has either its
full name or its definition; going through a type and its node side by side, without any table of
definitions, one sees at each place which of the two it is. `Written` is this reading, and there is
only one for each document.

The marks that are read off a document define before they refer, and define once. A reference stands
for the first type that was defined under its name, and the definition of that type is complete by
then: what is still being written is nested more than anything in it, so it is not referred to
inside itself.

* `Written.marks_eq`: the marks are determined by the document.
* `DataType.orderly_marks`: the invariant of the writer, by induction over types.
* `definesBeforeReferring_of_document`: documents of records and of schemas of all three roles.
-/

namespace AvroSchema

/-! ## Reading marks off a document -/

mutual

/-- `Written space t node marks`: a node is a document of a type in a namespace, and the marks are
what it says about the named types in it. -/
inductive Written : Option String → DataType → Json → List Mark → Prop where
  | unnamed {space : Option String} {p : Primitive} :
      p.wireName? = none → Written space (.primitive p) p.wire []
  | union {space : Option String} {members : List UnionMember} {nodes : List Json}
      {marks : List Mark} :
      WrittenAll space (members.map UnionMember.type) nodes marks →
      Written space (.union members) (.array nodes) marks
  | array {space : Option String} {t : DataType} {node : Json} {marks : List Mark} :
      Written space t node marks →
      Written space (.array t) (.object [("items", node), ("type", .string "array")]) marks
  | map {space : Option String} {t : DataType} {node : Json} {marks : List Mark} :
      Written space t node marks →
      Written space (.map t)
        (.object [("logicalType", .string "MAP"), ("type", .string "map"), ("values", node)]) marks
  /-- A named type may be written as its full name. -/
  | referred {space : Option String} {t : DataType} {name : String} :
      t.fullName? space = some name → Written space t (.string name) [.referred ⟨space, name, t⟩]
  /-- Or it is written in full, with its parts inside. -/
  | defined {space : Option String} {t : DataType} {name : String} {nodes : List Json}
      {marks : List Mark} :
      t.fullName? space = some name → WrittenAll (t.innerSpace space) t.parts nodes marks →
      Written space t (t.definition nodes)
        (.opened ⟨space, name, t⟩ :: (marks ++ [.closed ⟨space, name, t⟩]))

/-- The same for types that are written one after the other. -/
inductive WrittenAll : Option String → List DataType → List Json → List Mark → Prop where
  | nil {space : Option String} : WrittenAll space [] [] []
  | cons {space : Option String} {t : DataType} {ts : List DataType} {node : Json}
      {nodes : List Json} {ms ns : List Mark} :
      Written space t node ms → WrittenAll space ts nodes ns →
      WrittenAll space (t :: ts) (node :: nodes) (ms ++ ns)

end

section

variable {space : Option String} {name : String} {t : DataType} {ts : List DataType} {node : Json}
  {nodes : List Json} {marks : List Mark}

theorem written_unnamed_iff {p : Primitive} (hp : p.wireName? = none) :
    Written space (.primitive p) node marks ↔ node = p.wire ∧ marks = [] := by
  -- without a full name, the type is neither referred to nor defined
  have hn : (DataType.primitive p).fullName? space = none := by simp [DataType.fullName?, hp]
  constructor
  · intro h
    cases h with
    | unnamed => exact ⟨rfl, rfl⟩
    | referred h => rw [hn] at h; cases h
    | defined h => rw [hn] at h; cases h
  · rintro ⟨rfl, rfl⟩
    exact .unnamed hp

theorem written_union_iff {members : List UnionMember} :
    Written space (.union members) node marks ↔
      ∃ nodes, node = .array nodes ∧
        WrittenAll space (members.map UnionMember.type) nodes marks := by
  constructor
  · intro h
    cases h with
    | union h => exact ⟨_, rfl, h⟩
    | referred h => cases h
    | defined h => cases h
  · rintro ⟨nodes, rfl, h⟩
    exact .union h

theorem written_array_iff :
    Written space (.array t) node marks ↔
      ∃ items, node = .object [("items", items), ("type", .string "array")] ∧
        Written space t items marks := by
  constructor
  · intro h
    cases h with
    | array h => exact ⟨_, rfl, h⟩
    | referred h => cases h
    | defined h => cases h
  · rintro ⟨items, rfl, h⟩
    exact .array h

theorem written_map_iff :
    Written space (.map t) node marks ↔
      ∃ values, node = .object [("logicalType", .string "MAP"), ("type", .string "map"),
        ("values", values)] ∧ Written space t values marks := by
  constructor
  · intro h
    cases h with
    | map h => exact ⟨_, rfl, h⟩
    | referred h => cases h
    | defined h => cases h
  · rintro ⟨values, rfl, h⟩
    exact .map h

/-- A named type is written as its full name or in full. -/
theorem written_named_iff (hn : t.fullName? space = some name) :
    Written space t node marks ↔
      (node = .string name ∧ marks = [.referred ⟨space, name, t⟩]) ∨
      ∃ nodes inner, node = t.definition nodes ∧
        WrittenAll (t.innerSpace space) t.parts nodes inner ∧
        marks = .opened ⟨space, name, t⟩ :: (inner ++ [.closed ⟨space, name, t⟩]) := by
  constructor
  · intro h
    cases h with
    | unnamed hp => simp [DataType.fullName?, hp] at hn
    | union => cases hn
    | array => cases hn
    | map => cases hn
    | referred h =>
      obtain rfl := Option.some.inj (hn.symm.trans h)
      exact Or.inl ⟨rfl, rfl⟩
    | defined h hs =>
      obtain rfl := Option.some.inj (hn.symm.trans h)
      exact Or.inr ⟨_, _, rfl, hs, rfl⟩
  · rintro (⟨rfl, rfl⟩ | ⟨nodes, inner, rfl, hs, rfl⟩)
    · exact .referred hn
    · exact .defined hn hs

theorem writtenAll_nil_iff : WrittenAll space [] nodes marks ↔ nodes = [] ∧ marks = [] := by
  constructor
  · rintro ⟨⟩
    exact ⟨rfl, rfl⟩
  · rintro ⟨rfl, rfl⟩
    exact .nil

theorem writtenAll_cons_iff :
    WrittenAll space (t :: ts) nodes marks ↔
      ∃ node rest ms ns, nodes = node :: rest ∧ marks = ms ++ ns ∧ Written space t node ms ∧
        WrittenAll space ts rest ns := by
  constructor
  · rintro (_ | ⟨h, hs⟩)
    exact ⟨_, _, _, _, rfl, rfl, h, hs⟩
  · rintro ⟨node, rest, ms, ns, rfl, rfl, h, hs⟩
    exact .cons h hs

theorem WrittenAll.length_eq (h : WrittenAll space ts nodes marks) : nodes.length = ts.length := by
  induction ts generalizing nodes marks with
  | nil => simp [(writtenAll_nil_iff.1 h).1]
  | cons t ts ih =>
    obtain ⟨node, rest, ms, ns, rfl, rfl, -, hs⟩ := writtenAll_cons_iff.1 h
    simp [ih hs]

/-- Only named types have full names. -/
theorem DataType.isNamed_of_fullName? (h : t.fullName? space = some name) : t.isNamed = true := by
  cases t with
  | primitive p =>
    obtain ⟨n, hp, -⟩ := Option.map_eq_some_iff.1 h
    simp [isNamed, hp]
  | record r => rfl
  | _ => cases h

/-- A node is a list exactly if it is written for a union, `AnyPrimitive` among them. -/
theorem Written.isSome_array? (h : Written space t node marks) :
    node.array?.isSome = t.isUnion := by
  cases h with
  | unnamed hp => rw [← DataType.isSome_array?_write _ space [], DataType.write_unnamed hp]
  | union => rfl
  | array => rfl
  | map => rfl
  | referred hn =>
    rw [DataType.isUnion_of_isNamed (DataType.isNamed_of_fullName? hn)]
    rfl
  | defined hn =>
    have ht := DataType.isNamed_of_fullName? hn
    rw [DataType.isUnion_of_isNamed ht, DataType.array?_definition ht]
    rfl

theorem WrittenAll.map_isSome_array? (h : WrittenAll space ts nodes marks) :
    nodes.map (·.array?.isSome) = ts.map DataType.isUnion := by
  induction ts generalizing nodes marks with
  | nil => simp [(writtenAll_nil_iff.1 h).1]
  | cons t ts ih =>
    obtain ⟨node, rest, ms, ns, rfl, rfl, ht, hs⟩ := writtenAll_cons_iff.1 h
    simp [ih hs, ht.isSome_array?]

end

/-! ## One transcript for each document -/

section

variable {space : Option String} {t : DataType} {ts : List DataType} {node other : Json}
  {as bs : List Json} {ms ns : List Mark}

/-- The nodes of some types determine their marks, once this is known of each. -/
private theorem WrittenAll.marks_eq_of
    (h : ∀ t ∈ ts, ∀ {space node other ms ns}, Written space t node ms →
      Written space t other ns → node.canonical = other.canonical → ms = ns)
    (ha : WrittenAll space ts as ms) (hb : WrittenAll space ts bs ns)
    (hc : as.map Json.canonical = bs.map Json.canonical) : ms = ns := by
  induction ts generalizing as bs ms ns with
  | nil => rw [(writtenAll_nil_iff.1 ha).2, (writtenAll_nil_iff.1 hb).2]
  | cons t ts ih =>
    obtain ⟨a, as, ms, ms', rfl, rfl, ha, has⟩ := writtenAll_cons_iff.1 ha
    obtain ⟨b, bs, ns, ns', rfl, rfl, hb, hbs⟩ := writtenAll_cons_iff.1 hb
    obtain ⟨ht, hts⟩ := List.forall_mem_cons.1 h
    simp only [List.map_cons, List.cons.injEq] at hc
    rw [ht ha hb hc.1, ih hts has hbs hc.2]

/-- A document determines its marks. -/
theorem Written.marks_eq (h : Written space t node ms) (h' : Written space t other ns)
    (hc : node.canonical = other.canonical) : ms = ns := by
  induction t using DataType.namedInduction generalizing space node other ms ns with
  | unnamed p hp => rw [((written_unnamed_iff hp).1 h).2, ((written_unnamed_iff hp).1 h').2]
  | union members ih =>
    obtain ⟨as, rfl, ha⟩ := written_union_iff.1 h
    obtain ⟨bs, rfl, hb⟩ := written_union_iff.1 h'
    refine WrittenAll.marks_eq_of ih ha hb ?_
    simpa [Json.canonical, Json.canonicalItems_eq_map] using hc
  | array items ih =>
    obtain ⟨a, rfl, ha⟩ := written_array_iff.1 h
    obtain ⟨b, rfl, hb⟩ := written_array_iff.1 h'
    exact ih ha hb (by simpa [Json.canonical, Json.canonicalMembers] using hc)
  | map values ih =>
    obtain ⟨a, rfl, ha⟩ := written_map_iff.1 h
    obtain ⟨b, rfl, hb⟩ := written_map_iff.1 h'
    exact ih ha hb (by simpa [Json.canonical, Json.canonicalMembers] using hc)
  | named t ht ih =>
    obtain ⟨name, hn⟩ := DataType.exists_fullName? ht space
    -- a definition is not a name, so both nodes are names or both are definitions
    rcases (written_named_iff hn).1 h with ⟨rfl, rfl⟩ | ⟨as, inner, rfl, ha, rfl⟩
    · rcases (written_named_iff hn).1 h' with ⟨-, rfl⟩ | ⟨bs, inner, rfl, -, -⟩
      · rfl
      · exact absurd (Json.canonical_eq_string_iff.1 hc.symm) (t.definition_ne_string bs name)
    · rcases (written_named_iff hn).1 h' with ⟨rfl, -⟩ | ⟨bs, inner', rfl, hb, rfl⟩
      · exact absurd (Json.canonical_eq_string_iff.1 hc) (t.definition_ne_string as name)
      · have hs : as.map (·.array?.isSome) = bs.map (·.array?.isSome) :=
          ha.map_isSome_array?.trans hb.map_isSome_array?.symm
        have hnodes := DataType.map_canonical_eq_of_definition ha.length_eq hb.length_eq hs hc
        rw [WrittenAll.marks_eq_of ih ha hb hnodes]

theorem WrittenAll.marks_eq (ha : WrittenAll space ts as ms) (hb : WrittenAll space ts bs ns)
    (hc : as.map Json.canonical = bs.map Json.canonical) : ms = ns :=
  WrittenAll.marks_eq_of (fun _ _ => Written.marks_eq) ha hb hc

end

namespace DataType

/-- What is written for some types has their marks, once this is known of each. -/
private theorem writtenAll_writeAll_of {ts : List DataType}
    (h : ∀ t ∈ ts, ∀ space table, Written space t (t.write space table).1 (t.marks space table))
    (space : Option String) (table : Definitions) :
    WrittenAll space ts (writeAll space ts table).1 (marksAll space ts table) := by
  induction ts generalizing table with
  | nil => exact .nil
  | cons t ts ih =>
    obtain ⟨ht, hts⟩ := List.forall_mem_cons.1 h
    exact .cons (ht space table) (ih hts _)

/-- What is written for a type has the marks of the type. -/
theorem written_write (t : DataType) (space : Option String) (table : Definitions) :
    Written space t (t.write space table).1 (t.marks space table) := by
  induction t using namedInduction generalizing space table with
  | unnamed p hp =>
    rw [write_unnamed hp, marks_unnamed hp]
    exact .unnamed hp
  | union members ih =>
    rw [write_union, marks_union]
    exact .union (writtenAll_writeAll_of ih space table)
  | array items ih => exact .array (ih space table)
  | map values ih => exact .map (ih space table)
  | named t ht ih =>
    obtain ⟨name, hn⟩ := exists_fullName? ht space
    cases hs : table.standsFor name t with
    | true =>
      rw [write_of_standsFor hn hs, marks_of_standsFor hn hs]
      exact .referred hn
    | false =>
      rw [write_of_not_standsFor hn hs, marks_of_not_standsFor hn hs]
      exact .defined hn (writtenAll_writeAll_of ih _ _)

theorem writtenAll_writeAll (ts : List DataType) (space : Option String) (table : Definitions) :
    WrittenAll space ts (writeAll space ts table).1 (marksAll space ts table) :=
  writtenAll_writeAll_of (fun t _ => t.written_write) space table

end DataType

/-! ## Definitions before references -/

namespace Mark

/-- The first occurrence that some marks open under a name. -/
def definition? (name : String) (marks : List Mark) : Option Occurrence :=
  marks.findSome? fun
    | .opened o => if o.name = name then some o else none
    | _ => none

/-- The occurrences that a mark stands for: the one it opens, or all that the document leaves out
where it refers to a type. -/
def occurrences : Mark → List Occurrence
  | .opened o => [o]
  | .closed _ => []
  | .referred o => o :: o.type.inner o.space

/-- What a document may say after some marks. It refers to the first type that was defined under a
name, and only when that definition is complete; and it defines no type equal to that first one. -/
def Follows (before : List Mark) : Mark → Prop
  | .opened o => ∀ d, definition? o.name before = some d → (d.type == o.type) = false
  | .closed _ => True
  | .referred o =>
    ∃ d, definition? o.name before = some d ∧ .closed d ∈ before ∧ (d.type == o.type) = true

end Mark

/-- Each of some marks follows the marks before it. -/
def Orderly : List Mark → List Mark → Prop
  | _, [] => True
  | before, m :: rest => m.Follows before ∧ Orderly (before ++ [m]) rest

@[simp]
theorem orderly_nil (before : List Mark) : Orderly before [] := trivial

@[simp]
theorem orderly_cons {before : List Mark} {m : Mark} {rest : List Mark} :
    Orderly before (m :: rest) ↔ m.Follows before ∧ Orderly (before ++ [m]) rest := Iff.rfl

@[simp]
theorem orderly_append {before ms ns : List Mark} :
    Orderly before (ms ++ ns) ↔ Orderly before ms ∧ Orderly (before ++ ms) ns := by
  induction ms generalizing before with
  | nil => simp
  | cons m ms ih => simp [ih, and_assoc]

/-- Marks are orderly exactly if each follows those before it, wherever they are split. -/
theorem orderly_iff {marks : List Mark} :
    Orderly [] marks ↔ ∀ before m after, marks = before ++ m :: after → m.Follows before := by
  constructor
  · rintro h before m after rfl
    exact (orderly_cons.1 (orderly_append.1 h).2).1
  · intro h
    -- the marks are gone through from the left, so the split is carried along
    suffices hs : ∀ before rest, marks = before ++ rest → Orderly before rest from
      hs [] marks rfl
    intro before rest he
    induction rest generalizing before with
    | nil => trivial
    | cons m rest ih => exact ⟨h before m rest he, ih (before ++ [m]) (by simpa using he)⟩

namespace Mark

variable {name : String} {d : Occurrence} {marks before : List Mark} {bound : Nat}

theorem definition?_append (name : String) (ms ns : List Mark) :
    definition? name (ms ++ ns) = (definition? name ms).or (definition? name ns) := by
  rw [definition?, List.findSome?_append]
  rfl

/-- What is found under a name is opened, and it has this name. -/
theorem opened_of_definition? (h : definition? name marks = some d) :
    .opened d ∈ marks ∧ d.name = name := by
  obtain ⟨m, hm, hd⟩ := List.exists_of_findSome?_eq_some h
  cases m with
  | opened o =>
    by_cases hn : o.name = name
    · obtain rfl : o = d := by simpa [hn] using hd
      exact ⟨hm, hn⟩
    · simp [hn] at hd
  | _ => simp at hd

/-- The table of the writer has the first definition of each name. -/
theorem find?_foldl_opening (name : String) (marks : List Mark) (table : Definitions) :
    (marks.foldl Definitions.opening table).find? name =
      (table.find? name).or ((definition? name marks).map Occurrence.type) := by
  induction marks generalizing table with
  | nil => simp [definition?]
  | cons m rest ih =>
    rw [List.foldl_cons, ih, ← List.singleton_append, definition?_append]
    cases m with
    | opened o =>
      rw [Definitions.opening, Definitions.find?_define]
      by_cases hn : o.name = name
      · -- this is the first definition, unless the name is in the table
        subst hn
        cases h : table.find? o.name <;> simp [definition?]
      · rw [if_neg (Ne.symm hn)]
        simp [definition?, hn]
    | _ => rfl

/-- The definitions that some marks open are complete, or of types that are nested at least as much
as a bound. -/
def Settled (bound : Nat) (marks : List Mark) : Prop :=
  ∀ name d, definition? name marks = some d → .closed d ∈ marks ∨ bound ≤ d.type.nesting

/-- Marks that close what they open leave everything settled. -/
theorem Settled.append (h : Settled bound before)
    (hc : ∀ d, .opened d ∈ marks → .closed d ∈ marks) : Settled bound (before ++ marks) := by
  intro name d hd
  rw [definition?_append, Option.or_eq_some_iff] at hd
  rcases hd with hd | ⟨-, hd⟩
  · exact (h name d hd).imp_left (List.mem_append_left marks)
  · exact Or.inl (List.mem_append_right _ (hc d (opened_of_definition? hd).1))

/-- While a definition is written, it is the least nested one that is not complete. -/
theorem Settled.open {o : Occurrence} (h : Settled bound before) (hb : o.type.nesting ≤ bound) :
    Settled o.type.nesting (before ++ [.opened o]) := by
  intro name d hd
  rw [definition?_append, Option.or_eq_some_iff] at hd
  rcases hd with hd | ⟨-, hd⟩
  · exact (h name d hd).imp (List.mem_append_left _) (Nat.le_trans hb)
  · obtain ⟨hm, -⟩ := opened_of_definition? hd
    obtain rfl : d = o := by simpa using hm
    exact Or.inr (Nat.le_refl _)

end Mark

namespace DataType

/-- What is opened in some types is closed in them, once this is known of each. -/
private theorem closed_mem_marksAll_of {ts : List DataType} {d : Occurrence}
    (h : ∀ t ∈ ts, ∀ {space table}, .opened d ∈ t.marks space table →
      .closed d ∈ t.marks space table)
    {space : Option String} {table : Definitions} (hd : .opened d ∈ marksAll space ts table) :
    .closed d ∈ marksAll space ts table := by
  induction ts generalizing table with
  | nil => cases hd
  | cons t ts ih =>
    obtain ⟨ht, hts⟩ := List.forall_mem_cons.1 h
    rw [marksAll, List.mem_append] at hd ⊢
    exact hd.imp ht (ih hts)

/-- What is opened in a type is closed in it. -/
theorem closed_mem_marks {t : DataType} {space : Option String} {table : Definitions}
    {d : Occurrence} (hd : .opened d ∈ t.marks space table) : .closed d ∈ t.marks space table := by
  induction t using namedInduction generalizing space table with
  | unnamed p hp => simp [marks_unnamed hp] at hd
  | union members ih =>
    rw [marks_union] at hd ⊢
    exact closed_mem_marksAll_of ih hd
  | array items ih => exact ih hd
  | map values ih => exact ih hd
  | named t ht ih =>
    obtain ⟨name, hn⟩ := exists_fullName? ht space
    cases hs : table.standsFor name t with
    | true => simp [marks_of_standsFor hn hs] at hd
    | false =>
      rw [marks_of_not_standsFor hn hs] at hd ⊢
      -- the type itself is closed by the last mark, and what is inside it before that
      rcases List.mem_cons.1 hd with he | hd
      · cases he
        simp
      · have hi : .opened d ∈ t.innerMarks space (table.define name t) := by simpa using hd
        exact List.mem_cons_of_mem _ (List.mem_append_left _ (closed_mem_marksAll_of ih hi))

section

open Mark

variable {before : List Mark} {bound : Nat} {space : Option String}

/-- The marks of types are orderly, once this is known of each. -/
private theorem orderly_marksAll_of {ts : List DataType}
    (h : ∀ t ∈ ts, ∀ {before bound space}, t.nesting < bound → Settled bound before →
      Orderly before (t.marks space (before.foldl Definitions.opening [])))
    (hb : ∀ t ∈ ts, t.nesting < bound) (hs : Settled bound before) (space : Option String) :
    Orderly before (marksAll space ts (before.foldl Definitions.opening [])) := by
  induction ts generalizing before with
  | nil => trivial
  | cons t ts ih =>
    obtain ⟨ht, hts⟩ := List.forall_mem_cons.1 h
    obtain ⟨hb, hbs⟩ := List.forall_mem_cons.1 hb
    rw [marksAll, write_snd, ← List.foldl_append]
    exact orderly_append.2
      ⟨ht hb hs, ih hts hbs (hs.append fun _ => closed_mem_marks)⟩

/-- The marks of a type are orderly if it is nested less than everything that is not complete. -/
theorem orderly_marks (t : DataType) (hb : t.nesting < bound) (hs : Settled bound before) :
    Orderly before (t.marks space (before.foldl Definitions.opening [])) := by
  induction t using namedInduction generalizing space before bound with
  | unnamed p hp =>
    rw [marks_unnamed hp]
    trivial
  | union members ih =>
    rw [marks_union]
    refine orderly_marksAll_of ih (List.forall_mem_map.2 fun m hm => ?_) hs space
    exact Nat.lt_trans (nesting_type_lt hm) hb
  | array items ih =>
    rw [nesting] at hb
    exact ih (by omega) hs
  | map values ih =>
    rw [nesting] at hb
    exact ih (by omega) hs
  | named t ht ih =>
    obtain ⟨name, hn⟩ := exists_fullName? ht space
    have hfind := find?_foldl_opening name before []
    rw [Definitions.find?_nil, Option.none_or] at hfind
    cases hstands : (before.foldl Definitions.opening []).standsFor name t with
    | true =>
      rw [marks_of_standsFor hn hstands]
      refine ⟨?_, trivial⟩
      obtain ⟨u, hu, he⟩ := Definitions.standsFor_iff.1 hstands
      obtain ⟨d, hd, rfl⟩ := Option.map_eq_some_iff.1 (hfind.symm.trans hu)
      refine ⟨d, hd, ?_, DataType.beq_eq_true_iff.2 he⟩
      -- a type that is not complete is nested more, and so it is not equal to this one
      rcases hs name d hd with hc | hle
      · exact hc
      · rw [nesting_eq_of_canonical_eq he] at hle
        omega
    | false =>
      rw [marks_of_not_standsFor hn hstands]
      refine orderly_cons.2 ⟨fun d hd => ?_, orderly_append.2 ⟨?_, trivial, trivial⟩⟩
      · -- an equal first definition would have been referred to
        rw [Bool.eq_false_iff]
        intro he
        have hf := hfind.trans (congrArg (Option.map Occurrence.type) hd)
        exact Bool.eq_false_iff.1 hstands
          (Definitions.standsFor_iff.2 ⟨d.type, hf, DataType.beq_eq_true_iff.1 he⟩)
      · have hopen := hs.open (o := ⟨space, name, t⟩) (Nat.le_of_lt hb)
        have hinner := orderly_marksAll_of ih (fun u hu => nesting_lt_of_mem_parts hu) hopen
          (t.innerSpace space)
        rwa [List.foldl_append] at hinner

end

/-- What is inside a named type occurs in its parts. -/
theorem inner_eq (t : DataType) (space : Option String) :
    t.inner space = t.parts.flatMap (occurrences (t.innerSpace space)) := by
  cases t with
  | record r => rw [inner, Record.inner_eq, parts, List.flatMap_map, innerSpace]
  | _ => rfl

/-- The marks of some types stand for what occurs in them, once this is known of each. -/
private theorem flatMap_marksAll_of {ts : List DataType}
    (h : ∀ t ∈ ts, ∀ space table,
      (t.marks space table).flatMap Mark.occurrences = t.occurrences space)
    (space : Option String) (table : Definitions) :
    (marksAll space ts table).flatMap Mark.occurrences = ts.flatMap (occurrences space) := by
  induction ts generalizing table with
  | nil => rfl
  | cons t ts ih =>
    obtain ⟨ht, hts⟩ := List.forall_mem_cons.1 h
    rw [marksAll, List.flatMap_append, ht, ih hts, List.flatMap_cons]

/-- The marks of a type stand for what occurs in it, in the same order. -/
theorem flatMap_marks (t : DataType) (space : Option String) (table : Definitions) :
    (t.marks space table).flatMap Mark.occurrences = t.occurrences space := by
  induction t using namedInduction generalizing space table with
  | unnamed p hp => simp [marks_unnamed hp, occurrences, hp]
  | union members ih =>
    rw [marks_union, flatMap_marksAll_of ih, occurrences, UnionMember.occurrencesAll_eq,
      List.flatMap_map]
  | array items ih => exact ih space table
  | map values ih => exact ih space table
  | named t ht ih =>
    obtain ⟨name, hn⟩ := exists_fullName? ht space
    rw [occurrences_of_fullName? hn]
    cases hs : table.standsFor name t with
    | true => simp [marks_of_standsFor hn hs, Mark.occurrences]
    | false =>
      rw [marks_of_not_standsFor hn hs, inner_eq]
      simp [Mark.occurrences, innerMarks, flatMap_marksAll_of ih]

end DataType

/-! ## Documents -/

namespace Record

/-- The marks of a document that describes a record, maybe with further members: it opens the record
and closes it at its end. -/
def Transcribes (r : Record) (document : Json) (marks : List Mark) : Prop :=
  ∃ members nodes inner, document = .object members ∧
    Wire.Describes members r (List.zipWith Field.node r.fields nodes) ∧
    WrittenAll r.space (r.fields.map Field.type) nodes inner ∧
    marks = .opened ⟨none, r.fullName none, .record r⟩ ::
      (inner ++ [.closed ⟨none, r.fullName none, .record r⟩])

/-- A document of a record has one transcript. At every reference in it, the first definition under
the name is complete and of an equal type; at every definition, the first one under the name, if
there was one, is of a different type. Whatever occurs in the record is defined where it occurs,
unless it is referred to there or lies inside a type that is. -/
def DefinesBeforeReferring (r : Record) (document : Json) : Prop :=
  ∃ marks, (∀ other, r.Transcribes document other ↔ other = marks) ∧
    (∀ before m after, marks = before ++ m :: after → m.Follows before) ∧
    marks.flatMap Mark.occurrences = (DataType.record r).occurrences none

variable {r : Record}

/-- A document transcribes a record in at most one way. -/
theorem Transcribes.marks_eq {document : Json} {ms ns : List Mark} (h : r.Transcribes document ms)
    (h' : r.Transcribes document ns) : ms = ns := by
  obtain ⟨members, as, inner, rfl, ha, hs, rfl⟩ := h
  obtain ⟨others, bs, inner', he, hb, hs', rfl⟩ := h'
  obtain rfl := Json.object.inj he
  -- both transcripts are of the same nodes of fields
  have hnodes := Option.some.inj (ha.fields.symm.trans hb.fields)
  have hlists : as.map (·.array?.isSome) = bs.map (·.array?.isSome) :=
    hs.map_isSome_array?.trans hs'.map_isSome_array?.symm
  have hc := Field.map_canonical_eq_of_zipWith_node (by simpa using hs.length_eq)
    (by simpa using hs'.length_eq) hlists (congrArg (List.map Json.canonical) hnodes)
  rw [hs.marks_eq hs' hc]

/-- Members that describe the document of a record have the marks of the record. -/
theorem transcribes_marks {members : Json.Members} (h : Wire.Describes members r r.fieldNodes) :
    r.Transcribes (.object members) r.marks := by
  have hw := DataType.writtenAll_writeAll (DataType.record r).parts
    ((DataType.record r).innerSpace none) (Definitions.define [] (r.fullName none) (.record r))
  have hspace : (DataType.record r).innerSpace none = r.space := by
    cases hr : r.space <;> simp [DataType.innerSpace, hr]
  rw [hspace] at hw
  refine ⟨members, _, _, rfl, ?_, hw, ?_⟩
  · rwa [fieldNodes, hspace] at h
  · rw [marks_eq, DataType.innerMarks, hspace]

/-- Members that describe the document of a record define before they refer. -/
theorem definesBeforeReferring_of_describes {members : Json.Members}
    (h : Wire.Describes members r r.fieldNodes) : r.DefinesBeforeReferring (.object members) := by
  refine ⟨r.marks, fun other => ⟨fun ho => ho.marks_eq (transcribes_marks h), ?_⟩, ?_, ?_⟩
  · rintro rfl
    exact transcribes_marks h
  · -- nothing is open before the document
    exact orderly_iff.1 ((DataType.record r).orderly_marks (Nat.lt_succ_self _) nofun)
  · exact (DataType.record r).flatMap_marks none []

end Record

open SchemaTree

/-- The document of any record, and so those of root schemas, value schemas and keys, defines before
it refers, and defines once. -/
theorem definesBeforeReferring_of_document :
    (∀ r : Record, r.DefinesBeforeReferring r.wire) ∧
    (∀ s : RootSchema, s.record.DefinesBeforeReferring (document s)) ∧
    (∀ s : ValueSchema, s.record.DefinesBeforeReferring (document s)) ∧
    (∀ s : KeySchema, s.record.DefinesBeforeReferring (document s)) := by
  have hrecord : ∀ r : Record, r.DefinesBeforeReferring r.wire := by
    intro r
    rw [Record.wire, Record.wireMembers_eq]
    exact Record.definesBeforeReferring_of_describes (Wire.describes_members r r.fieldNodes)
  refine ⟨hrecord, fun s => hrecord s.record, fun s => ?_, fun s => hrecord s.record⟩
  -- governance metadata have other keys than the members of the record
  refine Record.definesBeforeReferring_of_describes ?_
  exact (Wire.describes_members s.record s.record.fieldNodes).congr fun key hm =>
    Record.get?_insert s.governance.key_notMem_recordKeys hm

end AvroSchema
