import AvroSchema.Proofs.Wire.Reconstruction
import AvroSchema.Proofs.Wire.Standing

/-!
# Round Trips of Records

A record that is written and read back comes back unchanged, up to the default values of nullable
fields, exactly if every reference in its document means nothing else in its place and resolves to
the type that it stands for. The table of the reader then holds the closed definitions of the
document, without those default values (`Definitions.Matches`), so this can be said without the
reader: `Record.roundTrips_iff_legible_and_resolve`, and `Record.roundTrips_iff_resolve` if no name
means anything else at all.

From that and from `Record.marks_stand`, which says what the closed definitions are, three results
follow for records whose names mean nothing else in a document:

* `Record.roundTrips_of_unambiguous`: if no named type contains one of its own full name and no
  full name is another one put into a namespace, every record comes back.
* `Record.roundTrips_iff_unnested`: if only the second is known, a record comes back exactly if no
  type that is referred to contains a named type with its own full name.
* `Record.roundTrips_iff_uncaptured`: if every full name denotes one type, a record comes back
  exactly if no reference, put into the namespace around it, is the full name of another type that
  was read before.
-/

namespace AvroSchema

namespace Definitions

/-! ## Tables of both sides -/

/-- The name of an occurrence resolves to its type, up to the defaults of nullable fields. -/
def Resolves (table : Definitions) (o : Occurrence) : Prop :=
  ∃ found, Wire.resolve? table o.space o.name = some found ∧ found.outline = o.type.outline

/-- The definitions of a reader are the closed ones without the defaults of nullable fields. -/
def Matches (read closed : Definitions) : Prop :=
  ∀ name, (read.find? name).map DataType.canonical = (closed.find? name).map DataType.outline

namespace Matches

variable {read closed : Definitions}

theorem nil : Matches [] [] := fun _ => rfl

/-- Both sides define a type when it is complete. -/
theorem define (h : Matches read closed) {name : String} {t u : DataType}
    (hc : u.canonical = t.outline) :
    Matches (read.define name u) (closed.define name t) := by
  intro other
  rw [find?_define, find?_define]
  by_cases he : other = name
  · -- both tables keep the type that they have, or both take the new one
    rw [if_pos he, if_pos he]
    have hn := h name
    cases hr : read.find? name <;> cases hk : closed.find? name <;> simp_all
  · rw [if_neg he, if_neg he]
    exact h other

/-- Both sides resolve a name alike. -/
theorem resolve? (h : Matches read closed) (space : Option String) (name : String) :
    (Wire.resolve? read space name).map DataType.canonical =
      (Wire.resolve? closed space name).map DataType.outline := by
  have hf := h (fullName space name)
  unfold Wire.resolve?
  cases hr : read.find? (fullName space name) <;>
    cases hk : closed.find? (fullName space name) <;> simp_all [h name]

/-- The type that the reader finds for a reference is unchanged exactly if the reference resolves to
it in the closed definitions. -/
theorem resolves_iff (h : Matches read closed) {o : Occurrence} :
    closed.Resolves o ↔
      ∃ u, Wire.resolve? read o.space o.name = some u ∧ u.canonical = o.type.outline := by
  have hr := h.resolve? o.space o.name
  unfold Resolves
  cases hu : Wire.resolve? read o.space o.name <;>
    cases hf : Wire.resolve? closed o.space o.name <;> simp_all

end Matches

end Definitions

/-- Every reference among some marks resolves in the definitions that are closed before it. -/
def ReferencesResolve (closed : Definitions) (marks : List Mark) : Prop :=
  Along Definitions.closing (fun table m => ∀ o, m = .referred o → table.Resolves o) closed marks

namespace DataType

/-- If a type comes back unchanged, all references in it resolve, and the tables still match. -/
def ResolvesIfUnchanged (t : DataType) : Prop :=
  ∀ {space : Option String} {opened read closed left : Definitions} {u : DataType},
    Reloads space t opened read u left → u.canonical = t.outline → read.Matches closed →
    ReferencesResolve closed (t.marks space opened) ∧
      left.Matches ((t.marks space opened).foldl Definitions.closing closed)

/-- If all references in an admissible type resolve, it comes back unchanged. -/
def UnchangedIfResolves (t : DataType) : Prop :=
  ∀ {space : Option String} {opened read closed : Definitions}, t.Admissible →
    read.Matches closed → ReferencesResolve closed (t.marks space opened) →
    ∃ u left, Reloads space t opened read u left ∧ u.canonical = t.outline

section

variable {space : Option String} {opened read closed left : Definitions} {ts us : List DataType}

private theorem resolvesAll_of_reloadsAll (h : ∀ t ∈ ts, t.ResolvesIfUnchanged)
    (hr : ReloadsAll space ts opened read us left) (hc : us.map canonical = ts.map outline)
    (hm : read.Matches closed) :
    ReferencesResolve closed (marksAll space ts opened) ∧
      left.Matches ((marksAll space ts opened).foldl Definitions.closing closed) := by
  induction ts generalizing opened read closed us with
  | nil =>
    obtain ⟨rfl, rfl⟩ := reloadsAll_nil_iff.1 hr
    exact ⟨trivial, hm⟩
  | cons t ts ih =>
    obtain ⟨u, between, rest, hu, hrest, rfl⟩ := reloadsAll_cons_iff.1 hr
    rw [List.forall_mem_cons] at h
    simp only [List.map_cons, List.cons.injEq] at hc
    obtain ⟨hal, hb⟩ := h.1 hu hc.1 hm
    obtain ⟨hals, hl⟩ := ih h.2 hrest hc.2 hb
    rw [marksAll, List.foldl_append]
    exact ⟨along_append.2 ⟨hal, hals⟩, hl⟩

end

/-- If a type comes back unchanged, all references in it resolve, and the tables still match. -/
theorem resolvesIfUnchanged (t : DataType) : t.ResolvesIfUnchanged := by
  induction t using namedInduction with
  | unnamed p hp =>
    intro space opened read closed left u hr hc hm
    obtain ⟨rfl, rfl⟩ := (reloads_unnamed_iff hp).1 hr
    rw [marks_unnamed hp]
    exact ⟨trivial, hm⟩
  | union members ih =>
    intro space opened read closed left u hr hc hm
    obtain ⟨us, hus, rfl⟩ := reloads_union_iff.1 hr
    rw [marks_union]
    exact resolvesAll_of_reloadsAll ih hus (map_canonical_of_canonical_union hc) hm
  | array items ih =>
    intro space opened read closed left u hr hc hm
    obtain ⟨v, hv, rfl⟩ := reloads_array_iff.1 hr
    exact ih hv (array.inj hc) hm
  | map values ih =>
    intro space opened read closed left u hr hc hm
    obtain ⟨v, hv, rfl⟩ := reloads_map_iff.1 hr
    exact ih hv (map.inj hc) hm
  | named t ht ih =>
    intro space opened read closed left u hr hc hm
    obtain ⟨name, hn⟩ := exists_fullName? ht space
    cases hs : opened.standsFor name t with
    | true =>
      -- the name resolves alike in both tables
      obtain ⟨hres, rfl⟩ := (reloads_iff_of_standsFor hn hs).1 hr
      rw [marks_of_standsFor hn hs]
      refine ⟨⟨?_, trivial⟩, hm⟩
      rintro _ ⟨⟩
      exact hm.resolves_iff.2 ⟨u, hres, hc⟩
    | false =>
      obtain ⟨us, between, hus, rfl, rfl⟩ := (reloads_iff_of_not_standsFor hn hs).1 hr
      have hparts := (canonical_withParts_iff ht hus.length_eq).1 hc
      obtain ⟨hal, hb⟩ := resolvesAll_of_reloadsAll ih hus hparts hm
      -- the reader defines the type where its definition is closed
      rw [marks_of_not_standsFor hn hs]
      refine ⟨along_cons.2 ⟨nofun, along_append.2 ⟨hal, along_cons.2 ⟨nofun, trivial⟩⟩⟩, ?_⟩
      rw [List.foldl_cons, List.foldl_append]
      exact hb.define hc

section

variable {space : Option String} {opened read closed : Definitions} {ts : List DataType}

private theorem exists_reloadsAll_of_resolve (h : ∀ t ∈ ts, t.UnchangedIfResolves)
    (ha : ∀ t ∈ ts, t.Admissible) (hm : read.Matches closed)
    (hal : ReferencesResolve closed (marksAll space ts opened)) :
    ∃ us left, ReloadsAll space ts opened read us left ∧ us.map canonical = ts.map outline := by
  induction ts generalizing opened read closed with
  | nil => exact ⟨[], read, .nil, rfl⟩
  | cons t ts ih =>
    rw [List.forall_mem_cons] at h ha
    obtain ⟨hal, hals⟩ := along_append.1 hal
    obtain ⟨u, between, hu, hc⟩ := h.1 ha.1 hm hal
    obtain ⟨us, left, hus, hcs⟩ := ih h.2 ha.2 (t.resolvesIfUnchanged hu hc hm).2 hals
    exact ⟨u :: us, left, .cons hu hus, by rw [List.map_cons, hc, hcs, List.map_cons]⟩

end

/-- If all references in an admissible type resolve, it comes back unchanged. -/
theorem unchangedIfResolves (t : DataType) : t.UnchangedIfResolves := by
  induction t using namedInduction with
  | unnamed p hp =>
    intro space opened read closed _ hm _
    exact ⟨.primitive p, read, .unnamed hp, rfl⟩
  | union members ih =>
    intro space opened read closed ha hm hal
    -- the members are tagged anew, by the names that they had
    obtain ⟨ts, rfl⟩ := exists_tagged_of_admissible ha
    rw [marks_union] at hal
    rw [map_type_tagged] at ih hal
    obtain ⟨-, -, -, hts⟩ := admissible_union_iff.1 ha
    obtain ⟨us, left, hus, hc⟩ := exists_reloadsAll_of_resolve ih hts hm hal
    rw [← map_type_tagged ts] at hus
    exact ⟨.union (us.map tagged), left, .union hus, by rw [canonical_union, hc, outline_union]⟩
  | array items ih =>
    intro space opened read closed ha hm hal
    obtain ⟨v, left, hv, hc⟩ := ih ha hm hal
    exact ⟨.array v, left, .array hv, congrArg array hc⟩
  | map values ih =>
    intro space opened read closed ha hm hal
    obtain ⟨v, left, hv, hc⟩ := ih ha hm hal
    exact ⟨.map v, left, .map hv, congrArg map hc⟩
  | named t ht ih =>
    intro space opened read closed ha hm hal
    obtain ⟨name, hn⟩ := exists_fullName? ht space
    cases hs : opened.standsFor name t with
    | true =>
      rw [marks_of_standsFor hn hs] at hal
      obtain ⟨u, hres, hc⟩ := hm.resolves_iff.1 (hal.1 _ rfl)
      exact ⟨u, read, .referred hn hs hres, hc⟩
    | false =>
      rw [marks_of_not_standsFor hn hs] at hal
      obtain ⟨hinner, -⟩ := along_append.1 (along_cons.1 hal).2
      obtain ⟨us, left, hus, hc⟩ :=
        exists_reloadsAll_of_resolve ih (fun u => admissible_of_mem_parts ha) hm hinner
      exact ⟨_, _, .defined hn hs hus, (canonical_withParts_iff ht hus.length_eq).2 hc⟩

end DataType

/-! ## Records -/

namespace Record

/-- A record reloads unchanged exactly if all references in its document resolve. -/
theorem exists_reloadsAs_iff {r : Record} (ha : r.Admissible) :
    (∃ s, r.ReloadsAs s ∧ s.canonical = r.outline) ↔ ReferencesResolve [] r.marks := by
  -- the two marks of the record itself are no references
  have hinner : ReferencesResolve [] r.marks ↔ ReferencesResolve []
      ((DataType.record r).innerMarks none
        (Definitions.define [] (r.fullName none) (.record r))) := by
    rw [marks_eq, ReferencesResolve, along_cons, along_append]
    exact ⟨fun h => h.2.1, fun h => ⟨nofun, h, nofun, trivial⟩⟩
  rw [hinner]
  constructor
  · rintro ⟨_, ⟨us, left, hus, rfl⟩, hc⟩
    have hparts : us.map DataType.canonical = (DataType.record r).parts.map DataType.outline :=
      (DataType.canonical_withParts_iff rfl hus.length_eq).1 (congrArg DataType.record hc)
    exact (DataType.resolvesAll_of_reloadsAll (fun t _ => t.resolvesIfUnchanged) hus hparts .nil).1
  · intro h
    have hparts : ∀ t ∈ (DataType.record r).parts, t.Admissible :=
      fun t => DataType.admissible_of_mem_parts (t := .record r) ha
    obtain ⟨us, left, hus, hc⟩ :=
      DataType.exists_reloadsAll_of_resolve (fun t _ => t.unchangedIfResolves) hparts .nil h
    refine ⟨_, ⟨us, left, hus, rfl⟩, ?_⟩
    exact DataType.record.inj ((DataType.canonical_withParts_iff rfl hus.length_eq).2 hc)

/-- Whether there is a result with a property is decided by looking at the result. -/
instance {ε α : Type} (x : Except ε α) (p : α → Prop) [DecidablePred p] :
    Decidable (∃ a, x = .ok a ∧ p a) :=
  match x with
  | .ok a => decidable_of_iff (p a) ⟨fun h => ⟨a, rfl, h⟩, fun ⟨_, he, h⟩ => by cases he; exact h⟩
  | .error _ => .isFalse fun ⟨_, he, _⟩ => by cases he

/-- A record comes back from its document, up to the default values of nullable fields. -/
def RoundTrips (limit : Nat) (r : Record) : Prop :=
  ∃ s, ofWire limit r.wire = .ok s ∧ (s == r.dropDefaults) = true

instance (limit : Nat) (r : Record) : Decidable (r.RoundTrips limit) :=
  inferInstanceAs (Decidable (∃ s, ofWire limit r.wire = .ok s ∧ (s == r.dropDefaults) = true))

/-- A record comes back from its document exactly if all references in it mean nothing else in their
places and resolve. -/
theorem roundTrips_iff_legible_and_resolve {r : Record} {limit : Nat} (ha : r.Admissible)
    (hl : 3 * r.nesting + 1 ≤ limit) :
    r.RoundTrips limit ↔ (∀ ref ∈ r.references, ref.Legible) ∧ ReferencesResolve [] r.marks := by
  have hd : Wire.Describes r.wireMembers r r.fieldNodes := by
    rw [wireMembers_eq]
    exact Wire.describes_members r _
  rw [← exists_reloadsAs_iff ha]
  constructor
  · rintro ⟨s, hs, he⟩
    rw [beq_dropDefaults_iff] at he
    exact ⟨legible_of_ofMembers ha hd hs he, s, reloadsAs_of_ofMembers ha hd hs he, he⟩
  · rintro ⟨hu, s, hs, hc⟩
    exact ⟨s, ofMembers_of_reloadsAs ha hu hl hd hs hc, beq_dropDefaults_iff.2 hc⟩

/-- If no full name means anything else, a record comes back from its document exactly if all
references in it resolve. -/
theorem roundTrips_iff_resolve {r : Record} {limit : Nat} (ha : r.Admissible)
    (hu : r.NamesUntagged) (hl : 3 * r.nesting + 1 ≤ limit) :
    r.RoundTrips limit ↔ ReferencesResolve [] r.marks := by
  rw [roundTrips_iff_legible_and_resolve ha hl, and_iff_right (legible_of_namesUntagged hu)]

/-! ## References -/

/-- A reference resolves wherever it stands in the document of a record. -/
theorem referencesResolve_iff {r : Record} :
    ReferencesResolve [] r.marks ↔ ∀ before o after, r.marks = before ++ .referred o :: after →
      (before.foldl Definitions.closing []).Resolves o := by
  rw [ReferencesResolve, along_iff]
  constructor
  · intro h before o after he
    exact h before _ after he o rfl
  · rintro h before m after he o rfl
    exact h before o after he

section

variable {r : Record} {before after : List Mark} {o : Occurrence}

/-- At a reference of a document, its name stands for what it should. -/
theorem stands_of_marks_eq (h : r.marks = before ++ .referred o :: after) :
    (before.foldl Definitions.closing []).Stands o :=
  along_iff.1 r.marks_stand before _ after h o rfl

/-- A name that is defined in front of a reference is that of a type that was closed inside the
record. -/
theorem exists_closed_of_find? {name : String} {t : DataType}
    (hf : (before.foldl Definitions.closing []).find? name = some t) :
    ∃ c, .closed c ∈ before ∧ c.name = name ∧ c.type = t := by
  rcases Definitions.find?_foldl_closing hf with hnil | hc
  · cases hnil
  · exact hc

/-- If no full name is another one put into a namespace, a reference resolves like its own name. -/
theorem resolve?_of_namesUncaptured (h : r.marks = before ++ .referred o :: after)
    (hc : r.NamesUncaptured) :
    Wire.resolve? (before.foldl Definitions.closing []) o.space o.name =
      (before.foldl Definitions.closing []).find? o.name := by
  obtain ⟨ho, hbefore⟩ := mem_inner_of_marks_eq h
  rcases DataType.space_of_mem_occurrences (t := .record r) (List.mem_cons_of_mem _ ho)
    with hs | ⟨space, hin, hs⟩
  · simp [Wire.resolve?, hs, AvroSchema.fullName]
  by_cases he : space = ""
  · simp [Wire.resolve?, hs, AvroSchema.fullName, he]
  -- whatever is defined in front of the reference is named inside the record
  have hnone : (before.foldl Definitions.closing []).find? (space ++ "." ++ o.name) = none := by
    rw [Option.eq_none_iff_forall_ne_some]
    intro t ht
    obtain ⟨c, hcl, hn, -⟩ := exists_closed_of_find? ht
    refine hc space hin he o.name (List.mem_map_of_mem ho) ?_
    rw [← hn]
    exact List.mem_map_of_mem (hbefore c hcl)
  simp [Wire.resolve?, hs, AvroSchema.fullName, he, hnone]

/-- A named type without one of its own full name inside it resolves to itself, if its name does not
resolve to anything else in the namespace around the reference. -/
theorem resolves_of_unnested (h : r.marks = before ++ .referred o :: after)
    (hn : o.name ∉ o.type.innerNames o.space)
    (hr : Wire.resolve? (before.foldl Definitions.closing []) o.space o.name =
      (before.foldl Definitions.closing []).find? o.name) :
    (before.foldl Definitions.closing []).Resolves o := by
  obtain ⟨found, hf, -, he⟩ := stands_of_marks_eq h
  exact ⟨found, hr.trans hf, DataType.outline_eq_of_canonical_eq (he hn)⟩

/-- A named type with one of its own full name inside it does not resolve to itself. -/
theorem not_resolves_of_nested (h : r.marks = before ++ .referred o :: after)
    (hn : o.name ∈ o.type.innerNames o.space)
    (hr : Wire.resolve? (before.foldl Definitions.closing []) o.space o.name =
      (before.foldl Definitions.closing []).find? o.name) :
    ¬ (before.foldl Definitions.closing []).Resolves o := by
  obtain ⟨found, hf, hlt, -⟩ := stands_of_marks_eq h
  rintro ⟨t, ht, ho⟩
  rw [hr, hf, Option.some.injEq] at ht
  subst ht
  -- what it resolves to is nested less, so the outlines cannot be the same
  have hnest := DataType.nesting_eq_of_outline_eq ho
  exact absurd (hlt hn) (by omega)

end

/-! ## Main results -/

section

variable {r : Record} {limit : Nat}

/-- If no named type contains one of its own full name, no full name means anything else and none is
another one put into a namespace, a record comes back from its document. -/
theorem roundTrips_of_unambiguous (ha : r.Admissible) (hn : r.NamesUnnested)
    (hu : r.NamesUntagged) (hc : r.NamesUncaptured) (hl : 3 * r.nesting + 1 ≤ limit) :
    r.RoundTrips limit := by
  rw [roundTrips_iff_resolve ha hu hl, referencesResolve_iff]
  intro before o after h
  exact resolves_of_unnested h (hn o (mem_inner_of_marks_eq h).1)
    (resolve?_of_namesUncaptured h hc)

/-- A line of an order, with a namespace of its own. -/
def line : Record where
  name := "line"
  space := some "shop.items"
  fields := [
    { name := "sku", type := .primitive (.fixed 8 "sku") },
    { name := "price", type := .primitive (.decimal 12 2), nullable := false,
      defaultValue := some (.int 0) }]

/-- An order, which refers to lines and identifiers again, inside arrays, maps and nullable unions,
and in which two types share the full name `shop.sku`. -/
def order : Record where
  name := "order"
  space := some "shop"
  fields := [
    { name := "first", type := .record line, nullable := false },
    { name := "rest", type := .array (.record line), defaultValue := some (.array []) },
    { name := "extras", type := .map (.union (List.map DataType.tagged [.record line,
        .plain .string (.refl true), .primitive (.enum "colour" ["red", "green"])])) },
    { name := "sku", type := .primitive (.fixed 16 "sku") },
    { name := "code", type := .primitive (.fixed 4 "sku"), nullable := false },
    { name := "id", type := .plain .uuid (.refl true), nullable := false },
    { name := "parent", type := .plain .uuid (.refl true) },
    { name := "payload", type := .plain .anyPrimitive (.refl true) }]

/-- The order comes back within the smallest limit for four layers of nesting. -/
theorem order_roundTrips :
    order.Admissible ∧ order.NamesUnnested ∧ order.NamesUntagged ∧ order.NamesUncaptured ∧
      3 * order.nesting + 1 ≤ 13 ∧ order.RoundTrips 13 := by
  have ha : order.Admissible := by decide
  have hn : order.NamesUnnested := by decide +kernel
  have hu : order.NamesUntagged := by decide +kernel
  have hc : order.NamesUncaptured := by decide +kernel
  have hl : 3 * order.nesting + 1 ≤ 13 := by decide
  exact ⟨ha, hn, hu, hc, hl, roundTrips_of_unambiguous ha hn hu hc hl⟩

/-- If no full name means anything else and none is another one put into a namespace, a record comes
back from its document exactly if no type that the document refers to contains a named type with its
own full name. -/
theorem roundTrips_iff_unnested (ha : r.Admissible) (hu : r.NamesUntagged)
    (hc : r.NamesUncaptured) (hl : 3 * r.nesting + 1 ≤ limit) :
    r.RoundTrips limit ↔ ∀ o, .referred o ∈ r.marks → o.name ∉ o.type.innerNames o.space := by
  rw [roundTrips_iff_resolve ha hu hl, referencesResolve_iff]
  constructor
  · intro hr o ho hn
    obtain ⟨before, after, h⟩ := List.append_of_mem ho
    exact not_resolves_of_nested h hn (resolve?_of_namesUncaptured h hc) (hr before o after h)
  · intro hn before o after h
    exact resolves_of_unnested h (hn o (by simp [h])) (resolve?_of_namesUncaptured h hc)

/-- A record with a fixed type of its own full name inside. -/
def shadowed : Record where
  name := "n"
  fields := [{ name := "x", type := .primitive (.fixed 4 "n") }]

/-- A record that refers to such a record again. -/
def shadowedTwice : Record where
  name := "r"
  fields := [{ name := "a", type := .record shadowed }, { name := "b", type := .record shadowed }]

/-- What decides about the record that refers to one with its own full name inside. -/
theorem shadowedTwice_roundTrips_iff :
    shadowedTwice.Admissible ∧ shadowedTwice.NamesUntagged ∧ shadowedTwice.NamesUncaptured ∧
      3 * shadowedTwice.nesting + 1 ≤ 64 ∧
      (shadowedTwice.RoundTrips 64 ↔
        ∀ o, .referred o ∈ shadowedTwice.marks → o.name ∉ o.type.innerNames o.space) := by
  have ha : shadowedTwice.Admissible := by decide
  have hu : shadowedTwice.NamesUntagged := by decide +kernel
  have hc : shadowedTwice.NamesUncaptured := by decide +kernel
  have hl : 3 * shadowedTwice.nesting + 1 ≤ 64 := by decide
  exact ⟨ha, hu, hc, hl, roundTrips_iff_unnested ha hu hc hl⟩

/-- The second occurrence of the record comes back as the fixed type inside it. -/
theorem shadowedTwice_not_roundTrips :
    shadowedTwice.Admissible ∧ shadowedTwice.NamesUntagged ∧ shadowedTwice.NamesUncaptured ∧
      ¬ shadowedTwice.RoundTrips 64 := by
  decide +kernel

/-- If every full name denotes one type, no named type contains one of its own full name. -/
theorem namesUnnested_of_namesUnique (h : r.NamesUnique) : r.NamesUnnested := by
  intro o ho hn
  obtain ⟨inside, hi, he⟩ := List.mem_map.1 hn
  have heq := h inside (mem_inner_of_mem_inner ho hi) o ho he
  -- equal types are nested alike, but one of these is inside the other
  have hnest := DataType.nesting_eq_of_canonical_eq (DataType.beq_eq_true_iff.1 heq)
  have hlt := DataType.nesting_lt_of_mem_inner hi
  omega

/-- If every full name denotes one type and none means anything else, a record comes back from its
document exactly if every reference, put into the namespace around it, is not the full name of
another type whose definition was read before. -/
theorem roundTrips_iff_uncaptured (ha : r.Admissible) (hq : r.NamesUnique)
    (hu : r.NamesUntagged) (hl : 3 * r.nesting + 1 ≤ limit) :
    r.RoundTrips limit ↔ ∀ before o after, r.marks = before ++ .referred o :: after →
      ∀ c, .closed c ∈ before → c.name = AvroSchema.fullName o.space o.name →
        (c.type.dropDefaults == o.type.dropDefaults) = true := by
  rw [roundTrips_iff_resolve ha hu hl, referencesResolve_iff]
  simp only [DataType.dropDefaults_beq_iff]
  constructor
  · intro hr before o after h c hcl hn
    obtain ⟨-, hbefore⟩ := mem_inner_of_marks_eq h
    obtain ⟨t, ht⟩ : ∃ t, (before.foldl Definitions.closing []).find? c.name = some t :=
      Definitions.find?_foldl_closing_of_mem hcl
    obtain ⟨d, hd, hdn, rfl⟩ := exists_closed_of_find? ht
    -- every closed type of that name is equal to the one that is found
    have heq := hq c (hbefore c hcl) d (hbefore d hd) hdn.symm
    obtain ⟨found, hf, ho⟩ := hr before o after h
    rw [Wire.resolve?_eq_some_iff, ← hn, ht] at hf
    obtain rfl : d.type = found := by simpa using hf
    rw [DataType.outline_eq_of_canonical_eq (DataType.beq_eq_true_iff.1 heq), ho]
  · intro hcap before o after h
    cases hf : (before.foldl Definitions.closing []).find? (AvroSchema.fullName o.space o.name) with
    | some t =>
      obtain ⟨c, hcl, hn, rfl⟩ := exists_closed_of_find? hf
      exact ⟨c.type, Wire.resolve?_eq_some_iff.2 (Or.inl hf), hcap before o after h c hcl hn⟩
    | none =>
      refine resolves_of_unnested h
        (namesUnnested_of_namesUnique hq o (mem_inner_of_marks_eq h).1) ?_
      simp [Wire.resolve?, hf]

/-- A record with a fixed type whose full name is `a.a.x`. -/
def deeper : Record where
  name := "deeper"
  space := some "a.a"
  fields := [{ name := "x", type := .primitive (.fixed 8 "x") }]

/-- A record that refers to the fixed type `a.x` after the other one was defined. -/
def captured : Record where
  name := "r"
  space := some "a"
  fields := [
    { name := "first", type := .primitive (.fixed 4 "x") },
    { name := "deeper", type := .record deeper },
    { name := "again", type := .primitive (.fixed 4 "x") }]

/-- What decides about the record whose reference is captured. -/
theorem captured_roundTrips_iff :
    captured.Admissible ∧ captured.NamesUnique ∧ captured.NamesUntagged ∧
      3 * captured.nesting + 1 ≤ 64 ∧
      (captured.RoundTrips 64 ↔ ∀ before o after, captured.marks = before ++ .referred o :: after →
        ∀ c, .closed c ∈ before → c.name = AvroSchema.fullName o.space o.name →
          (c.type.dropDefaults == o.type.dropDefaults) = true) := by
  have ha : captured.Admissible := by decide
  have hq : captured.NamesUnique := by decide +kernel
  have hu : captured.NamesUntagged := by decide +kernel
  have hl : 3 * captured.nesting + 1 ≤ 64 := by decide
  exact ⟨ha, hq, hu, hl, roundTrips_iff_uncaptured ha hq hu hl⟩

/-- The reference to `a.x` comes back as the type `a.a.x`. -/
theorem captured_not_roundTrips :
    captured.Admissible ∧ captured.NamesUnique ∧ captured.NamesUntagged ∧
      ¬ captured.RoundTrips 64 := by
  decide +kernel

end

end Record

end AvroSchema
