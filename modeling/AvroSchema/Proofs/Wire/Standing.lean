import AvroSchema.Proofs.Wire.Marks

/-!
# What References Stand For

The table of a writer holds the opened definitions, since a record is defined before its fields are
written; the table of a reader holds the closed ones, since a record is defined after its fields are
read. Both keep the first type of a name. They need not agree: inside a record, a type with the name
of the record is closed before the record is.

`Definitions.Stands` says what the name of a reference stands for in the closed definitions: the
type that is referred to, unless that type contains a named type with its own full name, and then a
type that is nested less. The invariant that carries this through a document is `Tracks`. It treats
the names whose definitions are being written apart from all others: such a name may stand for
nothing yet, and otherwise stands for a type that is nested less than the one that is written.

* `Tracks.open_new`, `Keeps.defined_of_inner`: the invariant when a definition starts and when it is
  complete.
* `DataType.marks_keeps`: the marks of a type keep the invariant.
* `Record.marks_stand`: what the references of a document stand for.
-/

namespace AvroSchema

namespace Definitions

/-- The name of an occurrence stands for a type equal to it if no named type inside it has that
name, and for a type that is nested less if one does. -/
def Stands (table : Definitions) (o : Occurrence) : Prop :=
  ∃ found, table.find? o.name = some found ∧
    (o.name ∈ o.type.innerNames o.space → found.nesting < o.type.nesting) ∧
    (o.name ∉ o.type.innerNames o.space → found.canonical = o.type.canonical)

/-- The names of an occurrence and of everything inside it are defined, and its own stands for what
it should. -/
def Complete (table : Definitions) (o : Occurrence) : Prop :=
  table.Stands o ∧ ∀ name ∈ o.type.innerNames o.space, ∃ t, table.find? name = some t

/-- Completeness of an occurrence passes on to larger tables. -/
theorem Complete.mono {table larger : Definitions} {o : Occurrence} (h : table.Complete o)
    (hl : ∀ name t, table.find? name = some t → larger.find? name = some t) :
    larger.Complete o := by
  obtain ⟨⟨found, hf, hs⟩, hi⟩ := h
  refine ⟨⟨found, hl _ _ hf, hs⟩, ?_⟩
  intro name hn
  obtain ⟨t, ht⟩ := hi name hn
  exact ⟨t, hl _ _ ht⟩

/-- Completeness of an occurrence passes on to an equal type of the same full name. -/
theorem Complete.congr {table : Definitions} {name : String} {t u : DataType}
    {space other : Option String} (h : table.Complete ⟨space, name, t⟩)
    (he : t.canonical = u.canonical) (ht : t.fullName? space = some name)
    (hu : u.fullName? other = some name) : table.Complete ⟨other, name, u⟩ := by
  have hnames : u.innerNames other = t.innerNames space :=
    (DataType.innerNames_eq_of_outline (DataType.outline_eq_of_canonical_eq he) ht hu).symm
  have hnesting : u.nesting = t.nesting := (DataType.nesting_eq_of_canonical_eq he).symm
  simpa only [Complete, Stands, hnames, hnesting, he] using h

/-- A name that was not opened is still not closed when another one is that was. -/
theorem find?_define_eq_none {opened closed : Definitions} {name other : String} {t u : DataType}
    (h : ∀ name, opened.find? name = none → closed.find? name = none)
    (ho : opened.find? other = some t) (hn : opened.find? name = none) :
    (closed.define other u).find? name = none := by
  have hne : name ≠ other := by
    rintro rfl
    rw [ho] at hn
    cases hn
  rw [find?_define, if_neg hne]
  exact h name hn

end Definitions

/-! ## The invariant -/

/-- How the opened definitions and the closed ones belong together while some definitions are
pending, all of them of types that are nested at least as much as a bound. -/
structure Tracks (bound : Nat) (pending : List String) (opened closed : Definitions) : Prop where
  /-- Nothing is closed that was not opened. -/
  unopened : ∀ name, opened.find? name = none → closed.find? name = none
  /-- What was opened and is not pending is complete. -/
  complete : ∀ name t, opened.find? name = some t → name ∉ pending →
    ∃ space, t.fullName? space = some name ∧ closed.Complete ⟨space, name, t⟩
  /-- A pending name stands for nothing, or for a type that is nested less. -/
  pending : ∀ name ∈ pending, ∃ t, opened.find? name = some t ∧ bound ≤ t.nesting ∧
    ∀ found, closed.find? name = some found → found.nesting < t.nesting

/-- Some marks keep the invariant, all their references stand for what they should, and afterwards
some names are defined. -/
structure Keeps (bound : Nat) (pending : List String) (opened closed : Definitions)
    (marks : List Mark) (names : List String) : Prop where
  /-- The references stand for what they should. -/
  stand : Along Definitions.closing (fun table m => ∀ o, m = .referred o → table.Stands o)
    closed marks
  /-- The invariant holds afterwards. -/
  tracks : Tracks bound pending (marks.foldl Definitions.opening opened)
    (marks.foldl Definitions.closing closed)
  /-- The names are defined afterwards. -/
  defined : ∀ name ∈ names, ∃ t, (marks.foldl Definitions.closing closed).find? name = some t

section

variable {bound : Nat} {pending : List String} {opened closed : Definitions} {o : Occurrence}

/-- Nothing is pending when a document starts. -/
theorem Tracks.start (bound : Nat) : Tracks bound [] [] [] where
  unopened _ h := h
  complete _ _ h := nomatch h
  pending _ h := nomatch h

/-- A definition of a new name starts: the name is pending, and the bound is its nesting. -/
theorem Tracks.open_new (h : Tracks bound pending opened closed) (hb : o.type.nesting < bound)
    (hnew : opened.find? o.name = none) :
    Tracks o.type.nesting (o.name :: pending) (opened.define o.name o.type) closed where
  unopened name hn := by
    rw [Definitions.find?_define] at hn
    split at hn
    · cases hn
    · exact h.unopened name hn
  complete name t ht hp := by
    rw [List.mem_cons, not_or] at hp
    rw [Definitions.find?_define, if_neg hp.1] at ht
    exact h.complete name t ht hp.2
  pending name hp := by
    rcases List.mem_cons.1 hp with rfl | hp
    -- the new name was not opened, so it was not closed either
    · refine ⟨o.type, by simp [Definitions.find?_define, hnew], Nat.le_refl _, ?_⟩
      intro found hf
      rw [h.unopened _ hnew] at hf
      cases hf
    · obtain ⟨t, ht, hle, hf⟩ := h.pending name hp
      exact ⟨t, Definitions.find?_define_of_some ht, Nat.le_of_lt (Nat.lt_of_lt_of_le hb hle), hf⟩

namespace Keeps

/-- Marks that keep the invariant one after the other keep it together. -/
theorem append {ms ns : List Mark} {names others : List String}
    (h : Keeps bound pending opened closed ms names)
    (h' : Keeps bound pending (ms.foldl Definitions.opening opened)
      (ms.foldl Definitions.closing closed) ns others) :
    Keeps bound pending opened closed (ms ++ ns) (names ++ others) where
  stand := along_append.2 ⟨h.stand, h'.stand⟩
  tracks := by simpa only [List.foldl_append] using h'.tracks
  defined name hn := by
    rw [List.foldl_append]
    rcases List.mem_append.1 hn with hn | hn
    · obtain ⟨t, ht⟩ := h.defined name hn
      exact ⟨t, Definitions.find?_foldl_closing_of_some ht⟩
    · exact h'.defined name hn

/-- A reference to a type that is nested less than all pending ones. -/
theorem referred (h : Tracks bound pending opened closed) (hb : o.type.nesting < bound)
    (hn : o.type.fullName? o.space = some o.name)
    (hs : opened.standsFor o.name o.type = true) :
    Keeps bound pending opened closed [.referred o] (o.name :: o.type.innerNames o.space) := by
  obtain ⟨t, ht, he⟩ := Definitions.standsFor_iff.1 hs
  have hfree : o.name ∉ pending := by
    -- a pending type would be nested too much to equal this one
    intro hp
    obtain ⟨u, hu, hle, -⟩ := h.pending _ hp
    rw [ht, Option.some.injEq] at hu
    subst hu
    have hnest := DataType.nesting_eq_of_canonical_eq he
    omega
  obtain ⟨space, hname, hcomplete⟩ := h.complete _ _ ht hfree
  have hc : closed.Complete o := hcomplete.congr he hname hn
  refine ⟨⟨?_, trivial⟩, h, ?_⟩
  · rintro _ ⟨⟩
    exact hc.1
  · intro name hm
    rcases List.mem_cons.1 hm with rfl | hm
    · obtain ⟨found, hf, -⟩ := hc.1
      exact ⟨found, hf⟩
    · exact hc.2 name hm

/-- The definition of a name that is new, closed after the marks inside it. -/
private theorem defined_new {ms : List Mark} (h : Tracks bound pending opened closed)
    (hn : o.type.fullName? o.space = some o.name) (hnew : opened.find? o.name = none)
    (hk : Keeps o.type.nesting (o.name :: pending) (opened.define o.name o.type) closed ms
      (o.type.innerNames o.space))
    (hms : ∀ c, .closed c ∈ ms → c.name ∈ o.type.innerNames o.space) :
    Tracks bound pending (ms.foldl Definitions.opening (opened.define o.name o.type))
      ((ms.foldl Definitions.closing closed).define o.name o.type) := by
  have hop : (ms.foldl Definitions.opening (opened.define o.name o.type)).find? o.name =
      some o.type :=
    Definitions.find?_foldl_opening_of_some (by simp [Definitions.find?_define, hnew])
  have hstands : ((ms.foldl Definitions.closing closed).define o.name o.type).Stands o := by
    by_cases hin : o.name ∈ o.type.innerNames o.space
    · -- something inside took the name first, so closing the type changes nothing
      obtain ⟨found, hf⟩ := hk.defined _ hin
      obtain ⟨t, ht, -, hlt⟩ := hk.tracks.pending o.name List.mem_cons_self
      rw [hop, Option.some.injEq] at ht
      subst ht
      exact ⟨found, Definitions.find?_define_of_some hf, fun _ => hlt found hf, absurd hin⟩
    · -- nothing inside has the name, and nothing before opened it
      have hnone : (ms.foldl Definitions.closing closed).find? o.name = none := by
        rw [Option.eq_none_iff_forall_ne_some]
        intro found hf
        rcases Definitions.find?_foldl_closing hf with hf | ⟨c, hc, hname, -⟩
        · rw [h.unopened _ hnew] at hf
          cases hf
        · exact hin (hname ▸ hms c hc)
      refine ⟨o.type, ?_, fun h => absurd h hin, fun _ => rfl⟩
      rw [Definitions.find?_define, if_pos rfl, hnone, Option.getD_none]
  refine ⟨fun _ => Definitions.find?_define_eq_none hk.tracks.unopened hop, ?_, ?_⟩
  · intro name t ht hp
    by_cases hne : name = o.name
    · -- the name that was pending until now is complete
      subst hne
      rw [hop, Option.some.injEq] at ht
      subst ht
      refine ⟨o.space, hn, hstands, ?_⟩
      intro inside hi
      obtain ⟨u, hu⟩ := hk.defined inside hi
      exact ⟨u, Definitions.find?_define_of_some hu⟩
    · obtain ⟨space, hname, hc⟩ := hk.tracks.complete name t ht (by simp [hne, hp])
      exact ⟨space, hname, hc.mono fun _ _ => Definitions.find?_define_of_some⟩
  · intro name hp
    obtain ⟨t, ht, hle, -⟩ := h.pending name hp
    obtain ⟨u, hu, -, hlt⟩ := hk.tracks.pending name (List.mem_cons_of_mem _ hp)
    have hne : name ≠ o.name := by
      rintro rfl
      rw [hnew] at ht
      cases ht
    -- a name keeps the type that it was opened with
    have htu : u = t := by
      have ht' : (opened.define o.name o.type).find? name = some t :=
        Definitions.find?_define_of_some ht
      have hf : (ms.foldl Definitions.opening (opened.define o.name o.type)).find? name = some t :=
        Definitions.find?_foldl_opening_of_some ht'
      rw [hu, Option.some.injEq] at hf
      exact hf
    subst htu
    refine ⟨u, hu, hle, ?_⟩
    rw [Definitions.find?_define, if_neg hne]
    exact hlt

/-- The definition of a name that is taken already, closed after the marks inside it. -/
private theorem defined_taken {ms : List Mark} (hb : o.type.nesting < bound)
    (htaken : ∃ t, opened.find? o.name = some t)
    (hk : Keeps bound pending opened closed ms (o.type.innerNames o.space)) :
    Tracks bound pending (ms.foldl Definitions.opening opened)
      ((ms.foldl Definitions.closing closed).define o.name o.type) := by
  obtain ⟨t, ht⟩ := htaken
  have hop : (ms.foldl Definitions.opening opened).find? o.name = some t :=
    Definitions.find?_foldl_opening_of_some ht
  refine ⟨fun _ => Definitions.find?_define_eq_none hk.tracks.unopened hop, ?_, ?_⟩
  · intro name u hu hp
    obtain ⟨space, hname, hc⟩ := hk.tracks.complete name u hu hp
    exact ⟨space, hname, hc.mono fun _ _ => Definitions.find?_define_of_some⟩
  · intro name hp
    obtain ⟨u, hu, hle, hlt⟩ := hk.tracks.pending name hp
    refine ⟨u, hu, hle, ?_⟩
    intro found hf
    rw [Definitions.find?_define] at hf
    split at hf
    · -- the type that takes a pending name is nested less than the pending type
      next he =>
      subst he
      cases hc : (ms.foldl Definitions.closing closed).find? o.name with
      | some v =>
        rw [hc, Option.getD_some, Option.some.injEq] at hf
        exact hf ▸ hlt v hc
      | none =>
        rw [hc, Option.getD_none, Option.some.injEq] at hf
        subst hf
        omega
    · exact hlt found hf

/-- A definition with marks inside it that keep the invariant for all bounds and pending names. -/
theorem defined_of_inner {ms : List Mark} (h : Tracks bound pending opened closed)
    (hb : o.type.nesting < bound) (hn : o.type.fullName? o.space = some o.name)
    (hk : ∀ bound pending, o.type.nesting ≤ bound →
      Tracks bound pending (opened.define o.name o.type) closed →
      Keeps bound pending (opened.define o.name o.type) closed ms (o.type.innerNames o.space))
    (hms : ∀ c, .closed c ∈ ms → c.name ∈ o.type.innerNames o.space) :
    Keeps bound pending opened closed (.opened o :: (ms ++ [.closed o]))
      (o.name :: o.type.innerNames o.space) := by
  have hstand : Along Definitions.closing (fun table m => ∀ o, m = .referred o → table.Stands o)
      closed ms ∧ (∀ name ∈ o.type.innerNames o.space,
        ∃ t, (ms.foldl Definitions.closing closed).find? name = some t) ∧
      Tracks bound pending (ms.foldl Definitions.opening (opened.define o.name o.type))
        ((ms.foldl Definitions.closing closed).define o.name o.type) := by
    cases hnew : opened.find? o.name with
    | none =>
      -- the new name is pending while what is inside is written
      have hk' := hk _ _ (Nat.le_refl _) (h.open_new hb hnew)
      exact ⟨hk'.stand, hk'.defined, defined_new h hn hnew hk' hms⟩
    | some t =>
      -- the name keeps its first type, and nothing becomes pending
      have hdef : opened.define o.name o.type = opened := by
        simp [Definitions.define, hnew]
      rw [hdef] at hk ⊢
      have hk' := hk _ _ (Nat.le_of_lt hb) h
      exact ⟨hk'.stand, hk'.defined, defined_taken hb ⟨t, hnew⟩ hk'⟩
  obtain ⟨hal, hdef, htr⟩ := hstand
  refine ⟨?_, ?_, ?_⟩
  · refine along_cons.2 ⟨nofun, along_append.2 ⟨hal, along_cons.2 ⟨nofun, trivial⟩⟩⟩
  · simpa [Definitions.opening, Definitions.closing] using htr
  · intro name hm
    simp only [List.foldl_cons, List.foldl_append, List.foldl_nil, Definitions.closing]
    rcases List.mem_cons.1 hm with rfl | hm
    · exact ⟨_, by rw [Definitions.find?_define, if_pos rfl]⟩
    · obtain ⟨t, ht⟩ := hdef name hm
      exact ⟨t, Definitions.find?_define_of_some ht⟩

end Keeps

end

/-! ## Documents -/

namespace DataType

/-- The marks of types keep the invariant, once this is known of each. -/
private theorem marksAll_keeps {ts : List DataType}
    (h : ∀ t ∈ ts, ∀ {space : Option String} {bound : Nat} {pending : List String}
      {opened closed : Definitions}, t.nesting < bound → Tracks bound pending opened closed →
      Keeps bound pending opened closed (t.marks space opened) (t.names space))
    {space : Option String} {bound : Nat} {pending : List String} {opened closed : Definitions}
    (hb : ∀ t ∈ ts, t.nesting < bound) (ht : Tracks bound pending opened closed) :
    Keeps bound pending opened closed (marksAll space ts opened)
      (ts.flatMap (names space)) := by
  induction ts generalizing opened closed with
  | nil => exact ⟨trivial, ht, nofun⟩
  | cons t ts ih =>
    obtain ⟨ht₁, hts⟩ := List.forall_mem_cons.1 h
    obtain ⟨hb₁, hbs⟩ := List.forall_mem_cons.1 hb
    -- the rest is written with what the first type opened
    rw [marksAll, write_snd, List.flatMap_cons]
    have hk : Keeps bound pending opened closed (t.marks space opened) (t.names space) :=
      ht₁ hb₁ ht
    exact hk.append (ih hts hbs hk.tracks)

/-- The marks of a type that is nested less than all pending ones keep the invariant. -/
theorem marks_keeps (t : DataType) {space : Option String} {bound : Nat} {pending : List String}
    {opened closed : Definitions} (hb : t.nesting < bound)
    (ht : Tracks bound pending opened closed) :
    Keeps bound pending opened closed (t.marks space opened) (t.names space) := by
  induction t using namedInduction generalizing space bound pending opened closed with
  | unnamed p hp =>
    rw [marks_unnamed hp, names_primitive, hp]
    exact ⟨trivial, ht, nofun⟩
  | union members ih =>
    rw [marks_union, names_union, ← List.flatMap_map UnionMember.type (names space)]
    refine marksAll_keeps ih ?_ ht
    rw [List.forall_mem_map]
    exact fun m hm => Nat.lt_trans (nesting_type_lt hm) hb
  | array items ih =>
    rw [nesting] at hb
    exact ih (by omega) ht
  | map values ih =>
    rw [nesting] at hb
    exact ih (by omega) ht
  | named t hnamed ih =>
    obtain ⟨name, hn⟩ := exists_fullName? hnamed space
    rw [names_of_fullName? hn]
    cases hs : opened.standsFor name t with
    | true =>
      rw [marks_of_standsFor hn hs]
      exact Keeps.referred (o := ⟨space, name, t⟩) ht hb hn hs
    | false =>
      -- the parts are nested less than the type, whose nesting bounds what is pending inside it
      rw [marks_of_not_standsFor hn hs]
      refine Keeps.defined_of_inner (o := ⟨space, name, t⟩) ht hb hn ?_ ?_
      · intro bound' pending' hle ht'
        rw [innerNames_eq]
        refine marksAll_keeps ih ?_ ht'
        intro u hu
        exact Nat.lt_of_lt_of_le (nesting_lt_of_mem_parts hu) hle
      · intro c hc
        exact List.mem_map_of_mem (mem_inner_of_mem_innerMarks hc)

end DataType

/-- At every reference of a document, its name stands for the type that is referred to, unless that
type contains a named type with its own full name, and then for a type that is nested less. -/
theorem Record.marks_stand (r : Record) :
    Along Definitions.closing (fun table m => ∀ o, m = .referred o → table.Stands o) [] r.marks :=
  ((DataType.record r).marks_keeps (Nat.lt_succ_self _) (Tracks.start _)).stand

end AvroSchema
