import AvroSchema.Proofs.Wire.Documents

/-!
# Documents of Records with Changed Default Values

A change of default values is carried to nodes if the node of a changed type is the changed node of
the type. It is enough that this holds of one field, that equal types stay equal, and that types
which a document tells apart stay apart: then the writer makes the same choices between definitions
and references, and the document of a changed record is the changed document of the record.

* `Carries`: what a change of default values and a change of nodes have to do with each other.
* `Record.documentWith_mapDefaults`: the document of a changed record.
-/

namespace AvroSchema

variable {f : Bool → Option Json → Option Json} {m : Json → Json}

/-! ## Changed types -/

/-- The table with the default values in its types changed. -/
def Definitions.mapDefaults (f : Bool → Option Json → Option Json) (table : Definitions) :
    Definitions :=
  table.map fun e => (e.1, e.2.mapDefaults f)

namespace Definitions

theorem find?_mapDefaults (table : Definitions) (name : String) :
    (table.mapDefaults f).find? name = (table.find? name).map (DataType.mapDefaults f) := by
  induction table with
  | nil => rfl
  | cons e rest ih =>
    obtain ⟨other, type⟩ := e
    simp only [mapDefaults, List.map_cons, find?, List.lookup_cons] at ih ⊢
    split
    · rfl
    · exact ih

theorem define_mapDefaults (table : Definitions) (name : String) (t : DataType) :
    (table.mapDefaults f).define name (t.mapDefaults f) = (table.define name t).mapDefaults f := by
  unfold define
  rw [find?_mapDefaults]
  cases table.find? name <;> rfl

end Definitions

namespace DataType

theorem parts_mapDefaults (t : DataType) :
    (t.mapDefaults f).parts = t.parts.map (mapDefaults f) := by
  cases t with
  | record r => simp [parts, Record.mapDefaults_eq, Field.mapDefaults_eq]
  | _ => rfl

theorem innerSpace_mapDefaults (t : DataType) (space : Option String) :
    (t.mapDefaults f).innerSpace space = t.innerSpace space := by
  cases t with
  | record r => simp [innerSpace, Record.mapDefaults_eq]
  | _ => rfl

end DataType

/-! ## Changed nodes -/

/-- A change of default values that does not tell equal types apart, together with the change of
nodes that goes with it. The latter respects the structure of JSON values and changes nothing but
default values. -/
structure Carries (f : Bool → Option Json → Option Json) (m : Json → Json) : Prop where
  null : m .null = .null
  string : ∀ text, m (.string text) = .string text
  array : ∀ items, m (.array items) = .array (items.map m)
  object : ∀ members : Json.Members,
    m (.object members) = .object (members.map fun e => (e.1, m e.2))
  primitive : ∀ p : Primitive, m p.wire = p.wire
  field : ∀ (x : Field) (node : Json), (x.mapDefaults f).node (m node) = m (x.node node)
  equal : ∀ {t u : DataType}, t.canonical = u.canonical →
    (t.mapDefaults f).canonical = (u.mapDefaults f).canonical

/-- The type that a definition gives to a name stays apart from the one that the name stands for, if
there is one. -/
def Definitions.StaysApart (f : Bool → Option Json → Option Json) (table : Definitions) :
    Mark → Prop
  | .opened o => ∀ t, table.find? o.name = some t → t.canonical ≠ o.type.canonical →
      (t.mapDefaults f).canonical ≠ (o.type.mapDefaults f).canonical
  | _ => True

/-- What the definitions among some marks tell apart stays apart. -/
def StayApart (f : Bool → Option Json → Option Json) (opened : Definitions) (marks : List Mark) :
    Prop :=
  Along Definitions.opening (Definitions.StaysApart f) opened marks

/-- A definition has its type told apart, and then those inside it. -/
theorem stayApart_definition {opened : Definitions} {o c : Occurrence} {marks : List Mark}
    (h : StayApart f opened (.opened o :: (marks ++ [.closed c]))) :
    opened.StaysApart f (.opened o) ∧ StayApart f (opened.define o.name o.type) marks := by
  obtain ⟨hhead, htail⟩ := along_cons.1 h
  exact ⟨hhead, (along_append.1 htail).1⟩

theorem Json.Members.map_insert (key : String) (value : Json) (members : Members) :
    (Members.insert key value members).map (fun e => (e.1, m e.2)) =
      Members.insert key (m value) (members.map fun e => (e.1, m e.2)) := by
  induction members with
  | nil => rfl
  | cons e rest ih =>
    obtain ⟨k, v⟩ := e
    simp only [Members.insert, List.map_cons]
    split
    · rfl
    · split
      · rfl
      · rw [List.map_cons, ih]

/-- Writing some types commutes with the change, once this is known of each. -/
private theorem DataType.writeAll_mapDefaults_of {ts : List DataType}
    (ht : ∀ t ∈ ts, ∀ space table, StayApart f table (t.marks space table) →
      (t.mapDefaults f).write space (table.mapDefaults f) =
        (m (t.write space table).1, (t.write space table).2.mapDefaults f))
    {space : Option String} {table : Definitions}
    (ha : StayApart f table (DataType.marksAll space ts table)) :
    DataType.writeAll space (ts.map (DataType.mapDefaults f)) (table.mapDefaults f) =
      ((DataType.writeAll space ts table).1.map m,
        (DataType.writeAll space ts table).2.mapDefaults f) := by
  induction ts generalizing table with
  | nil => rfl
  | cons t ts ih =>
    obtain ⟨hhead, htail⟩ := List.forall_mem_cons.1 ht
    obtain ⟨hfirst, hrest⟩ := along_append.1 ha
    rw [← DataType.write_snd] at hrest
    simp only [List.map_cons, DataType.writeAll, hhead space table hfirst, ih htail hrest]

namespace Carries

variable (h : Carries f m)
include h

theorem ofString? (text : Option String) : m (.ofString? text) = .ofString? text := by
  cases text with
  | none => exact h.null
  | some text => exact h.string text

theorem zipWith_node (fields : List Field) (nodes : List Json) :
    List.zipWith Field.node (fields.map (Field.mapDefaults f)) (nodes.map m) =
      (List.zipWith Field.node fields nodes).map m := by
  induction fields generalizing nodes with
  | nil => rfl
  | cons x fields ih =>
    cases nodes with
    | nil => rfl
    | cons node nodes => simp only [List.map_cons, List.zipWith_cons_cons, h.field, ih]

theorem members (r : Record) (nodes : List Json) :
    (r.mapDefaults f).members (nodes.map m) =
      (r.members nodes).map fun e => (e.1, m e.2) := by
  simp [Record.members, Record.mapDefaults_eq, h.string, h.array, h.ofString?]

theorem definition (t : DataType) (nodes : List Json) :
    (t.mapDefaults f).definition (nodes.map m) = m (t.definition nodes) := by
  cases t with
  | primitive p => exact (h.primitive p).symm
  | record r =>
    have hm := h.members r (List.zipWith Field.node r.fields nodes)
    have hf : (r.mapDefaults f).fields = r.fields.map (Field.mapDefaults f) := by
      rw [Record.mapDefaults_eq]
    rw [DataType.mapDefaults_record, DataType.definition, DataType.definition, hf, h.zipWith_node,
      hm, h.object]
  | _ => exact h.null.symm

/-- A name stands for a changed type exactly if it stands for the type, unless a definition starts
here that is told apart no longer. -/
theorem standsFor {table : Definitions} {name : String} {t : DataType}
    (hs : table.standsFor name t = false → ∀ u, table.find? name = some u →
      (u.mapDefaults f).canonical ≠ (t.mapDefaults f).canonical) :
    (table.mapDefaults f).standsFor name (t.mapDefaults f) = table.standsFor name t := by
  rw [Bool.eq_iff_iff]
  simp only [Definitions.standsFor_iff, Definitions.find?_mapDefaults, Option.map_eq_some_iff]
  constructor
  · -- types that are equal after the change were equal before, or else a definition starts
    rintro ⟨_, ⟨u, hu, rfl⟩, he⟩
    by_contra hn
    refine hs (Bool.eq_false_iff.2 fun hd => hn (Definitions.standsFor_iff.1 hd)) u hu he
  · rintro ⟨u, hu, he⟩
    exact ⟨_, ⟨u, hu, rfl⟩, h.equal he⟩

/-- Writing commutes with the change where types stay apart. -/
theorem write (t : DataType) {space : Option String} {table : Definitions}
    (ha : StayApart f table (t.marks space table)) :
    (t.mapDefaults f).write space (table.mapDefaults f) =
      (m (t.write space table).1, (t.write space table).2.mapDefaults f) := by
  induction t using DataType.namedInduction generalizing space table with
  | unnamed p hp =>
    rw [DataType.mapDefaults_primitive, DataType.write_unnamed hp, DataType.write_unnamed hp,
      h.primitive]
  | union members ih =>
    rw [DataType.marks_union] at ha
    have hall := DataType.writeAll_mapDefaults_of (fun t ht _ _ => ih t ht) ha
    rw [DataType.mapDefaults_union, DataType.write_union, DataType.map_type_mapDefaults, hall,
      DataType.write_union, h.array]
  | array items ih =>
    rw [DataType.mapDefaults_array, DataType.write, ih ha, DataType.write, h.object]
    simp only [List.map_cons, List.map_nil, h.string]
  | map values ih =>
    rw [DataType.mapDefaults_map, DataType.write, ih ha, DataType.write, h.object]
    simp only [List.map_cons, List.map_nil, h.string]
  | named t ht ih =>
    obtain ⟨name, hn⟩ := DataType.exists_fullName? ht space
    have hn' : (t.mapDefaults f).fullName? space = some name := by
      rw [DataType.fullName?_mapDefaults, hn]
    cases hs : table.standsFor name t with
    | true =>
      -- what stands for an equal type does so after the change
      have hs' : (table.mapDefaults f).standsFor name (t.mapDefaults f) = true := by
        rw [h.standsFor fun hf => absurd (hs.symm.trans hf) (by decide), hs]
      rw [DataType.write_of_standsFor hn' hs', DataType.write_of_standsFor hn hs, h.string]
    | false =>
      rw [DataType.marks_of_not_standsFor hn hs] at ha
      obtain ⟨hhead, hinner⟩ := stayApart_definition ha
      -- the definition tells its type apart from the one that the name stands for
      have hs' : (table.mapDefaults f).standsFor name (t.mapDefaults f) = false := by
        rw [h.standsFor fun hf u hu => hhead u hu fun he => ?_, hs]
        exact Bool.false_ne_true (hf.symm.trans (Definitions.standsFor_iff.2 ⟨u, hu, he⟩))
      have hall := DataType.writeAll_mapDefaults_of (fun t ht _ _ => ih t ht) hinner
      rw [DataType.write_of_not_standsFor hn' hs', DataType.write_of_not_standsFor hn hs,
        DataType.innerSpace_mapDefaults, DataType.parts_mapDefaults,
        Definitions.define_mapDefaults, hall, h.definition]

/-- Writing some types commutes with the change where they stay apart. -/
theorem writeAll {ts : List DataType} {space : Option String} {table : Definitions}
    (ha : StayApart f table (DataType.marksAll space ts table)) :
    DataType.writeAll space (ts.map (DataType.mapDefaults f)) (table.mapDefaults f) =
      ((DataType.writeAll space ts table).1.map m,
        (DataType.writeAll space ts table).2.mapDefaults f) :=
  DataType.writeAll_mapDefaults_of (fun t _ _ _ => h.write t) ha

/-- The members of the document of a changed record are the changed ones. -/
theorem wireMembers {r : Record} (ha : StayApart f [] r.marks) :
    (r.mapDefaults f).wireMembers = r.wireMembers.map fun e => (e.1, m e.2) := by
  have hname : (r.mapDefaults f).fullName none = r.fullName none := by
    rw [Record.mapDefaults_eq, Record.fullName, Record.fullName]
  have hparts : (DataType.record (r.mapDefaults f)).parts =
      (DataType.record r).parts.map (DataType.mapDefaults f) :=
    DataType.parts_mapDefaults (.record r)
  have hspace : (DataType.record (r.mapDefaults f)).innerSpace none =
      (DataType.record r).innerSpace none := DataType.innerSpace_mapDefaults (.record r) none
  have hfields : (r.mapDefaults f).fields = r.fields.map (Field.mapDefaults f) := by
    rw [Record.mapDefaults_eq]
  have htable : Definitions.define [] (r.fullName none) (.record (r.mapDefaults f)) =
      Definitions.mapDefaults f (Definitions.define [] (r.fullName none) (.record r)) := rfl
  -- nothing is defined before the record itself, so only what is inside it has to stay apart
  rw [Record.marks_eq] at ha
  obtain ⟨-, hinner⟩ := stayApart_definition ha
  have hnodes := h.writeAll hinner
  rw [Record.wireMembers_eq, Record.wireMembers_eq, ← h.members, Record.fieldNodes,
    Record.fieldNodes, hname, htable, hparts, hspace, hfields, hnodes, h.zipWith_node]

/-- The document of a changed record is the changed one, with the same further members. -/
theorem documentWith {r : Record} (ha : StayApart f [] r.marks)
    {entries : List (String × Json)} (he : ∀ e ∈ entries, m e.2 = e.2) :
    (r.mapDefaults f).documentWith entries = m (r.documentWith entries) := by
  rw [Record.documentWith, Record.documentWith, h.wireMembers ha, h.object]
  generalize r.wireMembers = members
  induction entries generalizing members with
  | nil => rfl
  | cons e rest ih =>
    obtain ⟨hv, hrest⟩ := List.forall_mem_cons.1 he
    have hinsert := Json.Members.map_insert (m := m) e.1 e.2 members
    rw [hv] at hinsert
    rw [List.foldl_cons, List.foldl_cons, ← hinsert]
    exact ih hrest _

end Carries

end AvroSchema
