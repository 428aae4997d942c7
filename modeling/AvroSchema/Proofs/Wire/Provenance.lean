import AvroSchema.Proofs.Wire.RecordReadings
import AvroSchema.Tree

/-!
# Where Read Types Come From

Any JSON value may be handed to a reader. What it gives then was built from the readings of nodes
inside the value, or was defined before. `Wire.NamedReading`, `Wire.ObjectReading` and
`Wire.RecordReading` say so with one case for each way to give a type; whatever is true of all types
that can be read follows by going through these cases.

A property of types is hereditary if the types that are built from parts with the property have it,
too. Every type that is read has it then, since the types that references stand for were read
before.

* `Wire.Hereditary.inner_preserves`: readers preserve hereditary properties, however deep they may go.
* `Wire.Hereditary.of_ofWire` and its siblings: types, fields and records of any document.
-/

namespace AvroSchema

/-- The definitions after a type was read that may have a name: it is defined, or nothing is. -/
def Definitions.MayDefine (table : Definitions) (t : DataType) (left : Definitions) : Prop :=
  left = table ∨ ∃ name, left = table.define name t

namespace Wire

/-! ## Ways to give a type -/

/-- What a node gives whose type is a name other than that of a record or an array. -/
inductive NamedReading (inner : Inner) (space : Option String) (members : Json.Members)
    (name : String) (table : Definitions) : DataType → Definitions → Prop
  /-- A primitive type of some kind, with parameters from the node. -/
  | primitive {kind : Kind} {p : Primitive} {left : Definitions}
      (read : Wire.primitive kind members = .ok p)
      (defined : table.MayDefine (.primitive p) left) :
      NamedReading inner space members name table (.primitive p) left
  /-- A map of the type that the node of its values gives. -/
  | map {values : Json} {t : DataType} {nullable : Bool} {left : Definitions}
      (values_eq : Json.Members.get? members "values" = some values)
      (read : Gives (inner.node space values) table (t, nullable) left) :
      NamedReading inner space members name table (.map t) left
  /-- The type that was defined under the name. -/
  | reference {t : DataType} (ne_map : name ≠ "map") (unknown : Kind.ofAvro? name = none)
      (resolved : resolve? table space name = some t) :
      NamedReading inner space members name table t table

/-- What the node of a record gives. -/
structure RecordReading (inner : Inner) (space : Option String) (members : Json.Members)
    (table : Definitions) (r : Record) (left : Definitions) : Prop where
  /-- No two fields have one name. -/
  nodup : r.fieldNames.Nodup
  /-- The fields are read one after the other, and then the record may be defined. -/
  read : ∃ nodes between, Json.Members.get? members "fields" = some (.array nodes) ∧
    Gives (nodes.mapM (inner.field (r.space <|> space))) table r.fields between ∧
    between.MayDefine (.record r) left

/-- What an object gives, be it a type node or a field. -/
inductive ObjectReading (inner : Inner) (space : Option String) (members : Json.Members)
    (table : Definitions) : DataType → Bool → Definitions → Prop
  /-- The type of the branches under the key of the type. -/
  | branches {items : List Json} {t : DataType} {nullable : Bool} {left : Definitions}
      (type_eq : Json.Members.get? members "type" = some (.array items))
      (read : Gives (inner.branches space items) table (t, nullable) left) :
      ObjectReading inner space members table t nullable left
  /-- The type of the node under that key. -/
  | node {type : Json.Members} {t : DataType} {nullable : Bool} {left : Definitions}
      (type_eq : Json.Members.get? members "type" = some (.object type))
      (read : Gives (inner.node space (.object type)) table (t, nullable) left) :
      ObjectReading inner space members table t nullable left
  /-- A record. -/
  | record {r : Record} {left : Definitions}
      (type_eq : Json.Members.get? members "type" = some (.string "record"))
      (read : RecordReading inner space members table r left) :
      ObjectReading inner space members table (.record r) false left
  /-- An array of the type that the node of its items gives. -/
  | array {items : Json} {t : DataType} {nullable : Bool} {left : Definitions}
      (type_eq : Json.Members.get? members "type" = some (.string "array"))
      (items_eq : Json.Members.get? members "items" = some items)
      (read : Gives (inner.node space items) table (t, nullable) left) :
      ObjectReading inner space members table (.array t) false left
  /-- What another name gives. -/
  | named {name : String} {t : DataType} {left : Definitions}
      (type_eq : Json.Members.get? members "type" = some (.string name))
      (ne_record : name ≠ "record") (ne_array : name ≠ "array")
      (read : NamedReading inner space members name table t left) :
      ObjectReading inner space members table t false left

section

variable {inner : Inner} {space : Option String} {members : Json.Members} {name : String}
  {table left : Definitions} {t : DataType} {nullable : Bool}

/-- Nothing else is defined than the type at hand. -/
theorem mayDefine_of_gives_define {u : Unit} (h : Gives (define members space t) table u left) :
    table.MayDefine t left := by
  unfold define at h
  split at h
  · next name _ => exact Or.inr ⟨_, gives_modify.1 h⟩
  · exact Or.inl (gives_pure.1 h).2

/-- A node that is resolved by its kind gives a primitive type. -/
theorem NamedReading.of_readPrimitive {kind : Kind}
    (h : Gives (readPrimitive space kind members) table t left) :
    NamedReading inner space members name table t left := by
  unfold readPrimitive at h
  rw [gives_bind] at h
  obtain ⟨p, between, hread, hgive⟩ := h
  obtain ⟨hp, rfl⟩ := gives_lift.1 hread
  dsimp only at hgive
  -- a type of a named kind is defined before it is given
  have hdefine : ∀ {u : DataType},
      Gives (do define members space (.primitive p); pure (DataType.primitive p)) between u left →
        NamedReading inner space members name between u left := by
    intro u hu
    obtain ⟨_, after, hd, hu⟩ := gives_bind.1 hu
    obtain ⟨rfl, rfl⟩ := gives_pure.1 hu
    exact .primitive hp (mayDefine_of_gives_define hd)
  split at hgive
  · exact hdefine hgive
  · exact hdefine hgive
  · exact hdefine hgive
  · obtain ⟨rfl, rfl⟩ := gives_pure.1 hgive
    exact .primitive hp (Or.inl rfl)

/-- A node that is resolved as a map gives a map. -/
theorem NamedReading.of_readMap (h : Gives (readMap inner space members) table t left) :
    NamedReading inner space members name table t left := by
  unfold readMap at h
  split at h
  · exact absurd (gives_lift.1 h).1 nofun
  · next values hv =>
    obtain ⟨⟨u, nullable⟩, between, hu, h⟩ := gives_bind.1 h
    obtain ⟨rfl, rfl⟩ := gives_pure.1 h
    exact .map hv hu

theorem NamedReading.of_gives (h : Gives (readNamed inner space members name) table t left) :
    NamedReading inner space members name table t left := by
  unfold readNamed at h
  dsimp only at h
  -- the name is looked at last, unless it is the only thing there
  generalize hb : (if name = "map" then readMap inner space members else _) = byName at h
  have hname : ∀ {u : DataType} {after : Definitions}, Gives byName table u after →
      NamedReading inner space members name table u after := by
    intro u after hu
    rw [← hb] at hu
    split at hu
    · exact .of_readMap hu
    next hne =>
    split at hu
    · exact .of_readPrimitive hu
    · next hk =>
      obtain ⟨hr, rfl⟩ := gives_readReference.1 hu
      exact .reference hne hk hr
  split at h
  · exact hname h
  split at h
  · exact .of_readMap h
  split at h
  · exact .of_readPrimitive h
  · exact hname h

theorem RecordReading.of_gives {r : Record}
    (h : Gives (readRecord inner space members) table r left) :
    RecordReading inner space members table r left := by
  -- the name is read first, then the fields one after the other; the record is defined last
  unfold readRecord at h
  rw [gives_bind] at h
  obtain ⟨own, between, hn, hread⟩ := h
  obtain ⟨-, rfl⟩ := gives_lift.1 hn
  dsimp only at hread
  split at hread
  · exact absurd (gives_lift.1 hread).1 nofun
  next nodes hf =>
  rw [gives_bind] at hread
  obtain ⟨s, after, hs, hdef⟩ := hread
  rw [gives_bind] at hdef
  obtain ⟨_, last, hd, hgive⟩ := hdef
  obtain ⟨rfl, rfl⟩ := gives_pure.1 hgive
  have hempty : (Record.mk own (text? members "namespace") (text? members "doc")
      []).fieldNames.Nodup := List.nodup_nil
  obtain ⟨fs, hfs, rfl, hnodup⟩ := (gives_readFields hempty).1 hs
  obtain ⟨json, hj, ha⟩ := Option.bind_eq_some_iff.1 hf
  cases json with
  | array items =>
    obtain rfl := Option.some.inj ha
    exact ⟨hnodup, items, after, hj, by simpa using hfs, mayDefine_of_gives_define hd⟩
  | _ => cases ha

theorem ObjectReading.of_gives
    (h : Gives (readObject inner space members) table (t, nullable) left) :
    ObjectReading inner space members table t nullable left := by
  -- what is under the key of the type decides which reader is asked
  unfold readObject at h
  split at h
  · exact absurd (gives_lift.1 h).1 nofun
  · next items ht => exact .branches ht h
  · next type ht => exact .node ht h
  · next ht =>
    obtain ⟨r, between, hr, h⟩ := gives_bind.1 h
    obtain ⟨hp, rfl⟩ := gives_pure.1 h
    cases hp
    exact .record ht (.of_gives hr)
  · next ht =>
    split at h
    · exact absurd (gives_lift.1 h).1 nofun
    next items hi =>
    obtain ⟨⟨u, other⟩, between, hu, h⟩ := gives_bind.1 h
    obtain ⟨hp, rfl⟩ := gives_pure.1 h
    cases hp
    exact .array ht hi hu
  · next name hrecord harray ht =>
    obtain ⟨u, between, hu, h⟩ := gives_bind.1 h
    obtain ⟨hp, rfl⟩ := gives_pure.1 h
    cases hp
    exact .named ht hrecord harray (.of_gives hu)
  · exact absurd (gives_lift.1 h).1 nofun

/-- What a field has from its node is its type and its nullability; it has a default value only if
it is not nullable. -/
theorem exists_readObject_of_gives_readField {json : Json} {f : Field}
    (h : Gives (readField inner space json) table f left) :
    ∃ members, json = .object members ∧ (f.nullable = true → f.defaultValue = none) ∧
      ObjectReading inner space members table f.type f.nullable left := by
  unfold readField at h
  split at h
  · next members =>
    rw [gives_bind] at h
    obtain ⟨name, between, hn, hread⟩ := h
    obtain ⟨-, rfl⟩ := gives_lift.1 hn
    rw [gives_bind] at hread
    obtain ⟨⟨t, nullable⟩, after, ht, hgive⟩ := hread
    obtain ⟨rfl, rfl⟩ := gives_pure.1 hgive
    exact ⟨members, rfl, fun hnull => if_pos hnull, .of_gives ht⟩
  · exact absurd (gives_lift.1 h).1 nofun

end

/-! ## Reading lists -/

/-- What the reading of every item keeps is kept by reading a list, and what every item gives is
given by all. -/
theorem forall_of_gives_mapM {α β : Type} {f : α → Reading β} {I : Definitions → Prop}
    {P : β → Prop} {as : List α} {bs : List β} {table left : Definitions}
    (hf : ∀ a ∈ as, ∀ {table b left}, I table → Gives (f a) table b left → P b ∧ I left)
    (hI : I table) (h : Gives (as.mapM f) table bs left) : (∀ b ∈ bs, P b) ∧ I left := by
  induction as generalizing table bs with
  | nil =>
    obtain ⟨rfl, rfl⟩ := gives_mapM_nil.1 h
    exact ⟨by simp, hI⟩
  | cons a as ih =>
    obtain ⟨b, between, rest, hb, hrest, rfl⟩ := gives_mapM_cons.1 h
    obtain ⟨hP, hbetween⟩ := hf a (by simp) hI hb
    obtain ⟨hall, hleft⟩ := ih (fun a ha => hf a (List.mem_cons_of_mem _ ha)) hbetween hrest
    exact ⟨List.forall_mem_cons.2 ⟨hP, hall⟩, hleft⟩

end Wire

/-! ## Hereditary properties -/

/-- All types that were defined so far have a property. -/
def Definitions.All (T : DataType → Prop) (table : Definitions) : Prop :=
  ∀ name t, table.find? name = some t → T t

theorem Definitions.All.nil {T : DataType → Prop} : Definitions.All T [] := by
  intro name t h
  cases h

theorem Definitions.All.define {T : DataType → Prop} {table : Definitions} (h : table.All T)
    (name : String) {t : DataType} (ht : T t) : (table.define name t).All T := by
  intro other u hu
  rw [find?_define] at hu
  split at hu
  · -- the name stands for what it stood for before, if it was defined
    cases hn : table.find? name with
    | none =>
      rw [hn] at hu
      exact Option.some.inj hu ▸ ht
    | some v =>
      rw [hn] at hu
      exact Option.some.inj hu ▸ h name v hn
  · exact h other u hu

theorem Definitions.All.mayDefine {T : DataType → Prop} {table left : Definitions}
    (h : table.All T) {t : DataType} (ht : T t) (hd : table.MayDefine t left) : left.All T := by
  rcases hd with rfl | ⟨name, rfl⟩
  · exact h
  · exact h.define name ht

/-- The type of a field has a property, and the field has no default value if it is nullable. -/
def Field.Inherits (T : DataType → Prop) (f : Field) : Prop :=
  T f.type ∧ (f.nullable = true → f.defaultValue = none)

namespace Wire

/-- A property of types that is inherited by the types that readers build from parts. -/
structure Hereditary (T : DataType → Prop) : Prop where
  /-- Primitive types that are read have the property. -/
  primitive : ∀ {kind members p}, Wire.primitive kind members = .ok p → T (.primitive p)
  /-- A union inherits it from its members. -/
  union : ∀ {members t}, (∀ u ∈ members, T u) → DataType.unionOf members = .ok t → T t
  /-- An array inherits it from its items. -/
  array : ∀ {t}, T t → T (.array t)
  /-- A map inherits it from its values. -/
  map : ∀ {t}, T t → T (.map t)
  /-- A record inherits it from its fields. -/
  record : ∀ {r : Record}, r.fieldNames.Nodup → (∀ f ∈ r.fields, f.Inherits T) → T (.record r)

/-- The readers for what lies one level further inside preserve a property of types. -/
structure Inner.Preserves (T : DataType → Prop) (inner : Inner) : Prop where
  node : ∀ {space json table t nullable left}, table.All T →
    Gives (inner.node space json) table (t, nullable) left → T t ∧ left.All T
  branches : ∀ {space items table t nullable left}, table.All T →
    Gives (inner.branches space items) table (t, nullable) left → T t ∧ left.All T
  field : ∀ {space json table f left}, table.All T →
    Gives (inner.field space json) table f left → f.Inherits T ∧ left.All T

namespace Hereditary

variable {T : DataType → Prop} (hT : Hereditary T) {inner : Inner} (hi : inner.Preserves T)
  {space : Option String} {members : Json.Members} {name : String} {table left : Definitions}
  {t : DataType} {nullable : Bool} (ht : table.All T)
include hT hi ht

theorem of_namedReading (h : NamedReading inner space members name table t left) :
    T t ∧ left.All T := by
  cases h with
  | primitive read defined =>
    have hp := hT.primitive read
    exact ⟨hp, ht.mayDefine hp defined⟩
  | map values_eq read =>
    obtain ⟨hu, hleft⟩ := hi.node ht read
    exact ⟨hT.map hu, hleft⟩
  | reference ne_map unknown resolved =>
    -- a reference stands for a type that was defined before
    refine ⟨?_, ht⟩
    rcases resolve?_eq_some_iff.1 resolved with hr | ⟨-, hr⟩
    · exact ht _ _ hr
    · exact ht _ _ hr

theorem of_recordReading {r : Record} (h : RecordReading inner space members table r left) :
    T (.record r) ∧ left.All T := by
  obtain ⟨nodes, between, -, hread, hdefined⟩ := h.read
  obtain ⟨hfields, hbetween⟩ := forall_of_gives_mapM (fun _ _ => hi.field) ht hread
  have hr := hT.record h.nodup hfields
  exact ⟨hr, hbetween.mayDefine hr hdefined⟩

theorem of_objectReading (h : ObjectReading inner space members table t nullable left) :
    T t ∧ left.All T := by
  cases h with
  | branches _ read => exact hi.branches ht read
  | node _ read => exact hi.node ht read
  | record _ read => exact hT.of_recordReading hi ht read
  | array _ _ read =>
    obtain ⟨hu, hleft⟩ := hi.node ht read
    exact ⟨hT.array hu, hleft⟩
  | named _ _ _ read => exact hT.of_namedReading hi ht read

theorem of_readBranches {items : List Json}
    (h : Gives (readBranches inner space items) table (t, nullable) left) : T t ∧ left.All T := by
  rcases hs : items.filter (!isNullBranch ·) with _ | ⟨single, _ | ⟨second, rest⟩⟩
  · exact absurd h (not_gives_readBranches_nil hs)
  · obtain ⟨other, hsingle, -⟩ := (gives_readBranches_single hs).1 h
    exact hi.node ht hsingle
  · obtain ⟨ts, hts, hu, -⟩ := (gives_readBranches_several (by simp [hs])).1 h
    have hbranch : ∀ branch ∈ items.filter (!isNullBranch ·), ∀ {table u left}, table.All T →
        Gives (readType inner space branch) table u left → T u ∧ left.All T := by
      intro branch _ table u left ht hu
      obtain ⟨other, hu⟩ := gives_readType.1 hu
      exact hi.node ht hu
    obtain ⟨hall, hleft⟩ := forall_of_gives_mapM hbranch ht hts
    exact ⟨hT.union hall hu, hleft⟩

theorem of_readNode {json : Json}
    (h : Gives (readNode inner space json) table (t, nullable) left) : T t ∧ left.All T := by
  unfold readNode at h
  split at h
  · rw [gives_bind] at h
    obtain ⟨u, between, hu, hgive⟩ := h
    obtain ⟨hp, rfl⟩ := gives_pure.1 hgive
    cases hp
    exact hT.of_namedReading hi ht (.of_gives hu)
  · exact hT.of_readBranches hi ht h
  · exact hT.of_objectReading hi ht (.of_gives h)
  · exact absurd (gives_lift.1 h).1 nofun

theorem of_readField {json : Json} {f : Field}
    (h : Gives (readField inner space json) table f left) : f.Inherits T ∧ left.All T := by
  obtain ⟨members, -, hdefault, hread⟩ := exists_readObject_of_gives_readField h
  obtain ⟨htype, hleft⟩ := hT.of_objectReading hi ht hread
  exact ⟨⟨htype, hdefault⟩, hleft⟩

omit hi ht in
/-- Readers preserve a hereditary property, however deep they may go. -/
theorem inner_preserves (limit levels : Nat) : (Wire.inner limit levels).Preserves T := by
  induction levels with
  | zero => exact ⟨fun _ => nofun, fun _ => nofun, fun _ => nofun⟩
  -- each reader is built from those that may go one level less deep
  | succ levels ih =>
    exact ⟨fun ht => hT.of_readNode ih ht, fun ht => hT.of_readBranches ih ht,
      fun ht => hT.of_readField ih ht⟩

end Hereditary

/-- A result is given by a reading that starts without definitions. -/
theorem run_eq_ok_iff {α : Type} {reading : Reading α} {a : α} :
    run reading = .ok a ↔ ∃ left, Gives reading [] a left := by
  unfold run Gives
  cases reading [] with
  | ok b left => simp
  | error e left => simp

/-- The record that the members of a document describe is read with as many levels as the limit
for its fields. -/
theorem exists_recordReading_of_ofMembers {limit : Nat} {members : Json.Members} {r : Record}
    (h : Record.ofMembers limit members = .ok r) :
    ∃ left, RecordReading (inner limit limit) none members [] r left := by
  unfold Record.ofMembers at h
  split at h
  · obtain ⟨left, hg⟩ := run_eq_ok_iff.1 h
    exact ⟨left, .of_gives hg⟩
  · cases h

namespace Hereditary

variable {T : DataType → Prop} (hT : Hereditary T) {limit : Nat}
include hT

/-- A type that is read has every hereditary property. -/
theorem of_ofWire {document : Json} {t : DataType} {nullable : Bool}
    (h : DataType.ofWire limit document = .ok (t, nullable)) : T t := by
  obtain ⟨left, hg⟩ := run_eq_ok_iff.1 h
  exact ((hT.inner_preserves limit (limit + 1)).node .nil hg).1

/-- A field that is read inherits every hereditary property from its type. -/
theorem of_fieldOfWire {document : Json} {f : Field}
    (h : Field.ofWire limit document = .ok f) : f.Inherits T := by
  obtain ⟨left, hg⟩ := run_eq_ok_iff.1 h
  exact ((hT.inner_preserves limit (limit + 1)).field .nil hg).1

/-- A record that is read has every hereditary property. -/
theorem of_ofMembers {members : Json.Members} {r : Record}
    (h : Record.ofMembers limit members = .ok r) : T (.record r) := by
  obtain ⟨left, hr⟩ := exists_recordReading_of_ofMembers h
  exact (hT.of_recordReading (hT.inner_preserves limit limit) .nil hr).1

/-- A record that is read has every hereditary property. -/
theorem of_recordOfWire {document : Json} {r : Record}
    (h : Record.ofWire limit document = .ok r) : T (.record r) := by
  cases document with
  | object members => exact hT.of_ofMembers h
  | _ => cases h

end Hereditary

end Wire

/-- The record of a value schema that is read is the one that is read from the members of its
document. -/
theorem ValueSchema.exists_ofMembers {limit : Nat} {document : Json} {s : ValueSchema}
    (h : ofWire limit document = .ok s) :
    ∃ members, document = .object members ∧ Record.ofMembers limit members = .ok s.record ∧
      Governance.ofMembers members = .ok s.governance := by
  unfold ofWire at h
  split at h
  · next members =>
    obtain ⟨r, hr, h⟩ := except_bind_eq_ok_iff.1 h
    split at h
    · next governance hg =>
      cases h
      exact ⟨members, rfl, hr, hg⟩
    · cases h
  · cases h

end AvroSchema
