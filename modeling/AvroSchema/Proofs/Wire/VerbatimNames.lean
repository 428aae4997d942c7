import AvroSchema.Proofs.Text.EscapedNames
import AvroSchema.Proofs.Wire.Marks
import AvroSchema.Wire.Reader

/-!
# Verbatim Names

The nodes of records, fields, fixed types and enumerations have their names twice: as they are, and
in the escaped form that Avro admits. Escaping loses nothing, so the verbatim names are redundant. A
reader that finds no verbatim name takes the escaped one instead, and goes on as if both were there.

`Json.dropNames` deletes verbatim names from a document, at any choice of places. What readers see of
the members that are left is stated once (`Json.Members.NamesDropped`), and every reader gives the
same result and the same refusal as before, with the same definitions.

* `Wire.Insensitive.inner`: readers do not depend on redundant names, however deep they may go.
* `DataType.redundant_write`: in a written document all verbatim names are redundant.
* `Record.ofWire_dropNames`: reading the document of a record.
-/

namespace AvroSchema

/-! ## Deleting verbatim names -/

namespace Json

/-- A step from a value to one inside it. -/
inductive Step where
  | member (key : String)
  | item (index : Nat)

/-- The keys under which a node has other nodes. -/
def nodeKeys : List String := ["type", "items", "values", "fields"]

/-- The key of a verbatim name. -/
def nameKey : String := "__originalname"

mutual

/-- A document without the verbatim names of the nodes at the chosen places. -/
def dropNames (chosen : List Step → Bool) : Json → Json
  | .array items => .array (dropNamesItems chosen 0 items)
  | .object members => .object (dropNamesMembers chosen members)
  | json => json

/-- The items of an array from some index on. -/
def dropNamesItems (chosen : List Step → Bool) (index : Nat) : List Json → List Json
  | [] => []
  | item :: rest =>
    item.dropNames (fun path => chosen (.item index :: path)) ::
      dropNamesItems chosen (index + 1) rest

/-- The members of an object; values that are no nodes, such as default values, stay as they
are. -/
def dropNamesMembers (chosen : List Step → Bool) : Members → Members
  | [] => []
  | (key, value) :: rest =>
    if key = nameKey ∧ chosen [] = true then dropNamesMembers chosen rest
    else if key ∈ nodeKeys then
      (key, value.dropNames fun path => chosen (.member key :: path)) ::
        dropNamesMembers chosen rest
    else (key, value) :: dropNamesMembers chosen rest

end

/-- A verbatim name is redundant if it is what the escaped name stands for. -/
def Members.NameRedundant (members : Members) : Prop :=
  ∀ name, Wire.text? members nameKey = some name →
    ∃ escaped, Wire.text? members "name" = some escaped ∧ Name.unescape escaped = name

mutual

/-- All verbatim names of a document are redundant. -/
def Redundant : Json → Prop
  | .array items => RedundantItems items
  | .object members => Members.NameRedundant members ∧ RedundantMembers members
  | _ => True

/-- The same for the items of an array. -/
def RedundantItems : List Json → Prop
  | [] => True
  | item :: rest => item.Redundant ∧ RedundantItems rest

/-- The same for the nodes in an object. -/
def RedundantMembers : List (String × Json) → Prop
  | [] => True
  | (key, value) :: rest => (key ∈ nodeKeys → value.Redundant) ∧ RedundantMembers rest

end

@[simp]
theorem redundant_string (text : String) : (string text).Redundant := trivial

@[simp]
theorem redundant_array_iff {items : List Json} :
    (array items).Redundant ↔ ∀ item ∈ items, item.Redundant := by
  rw [Redundant]
  induction items with
  | nil => simp [RedundantItems]
  | cons item rest ih => simp [RedundantItems, ih]

theorem redundant_object_iff {members : Members} :
    (object members).Redundant ↔
      Members.NameRedundant members ∧ ∀ e ∈ members, e.1 ∈ nodeKeys → e.2.Redundant := by
  rw [Redundant]
  refine and_congr_right' ?_
  induction members with
  | nil => simp [RedundantMembers]
  | cons e rest ih => simp [RedundantMembers, ih]

/-- A document and what is left of it when some redundant names are deleted. -/
def NamesDropped (json dropped : Json) : Prop :=
  json.Redundant ∧ ∃ chosen, dropped = json.dropNames chosen

/-- What the readers see of members and of what is left of them. -/
structure Members.NamesDropped (members dropped : Members) : Prop where
  /-- The name is the same, verbatim or not. -/
  name : Wire.logicalName dropped = Wire.logicalName members
  /-- Members that are neither names nor nodes are the same. -/
  kept : ∀ key, key ∉ nodeKeys → key ≠ nameKey → get? dropped key = get? members key
  /-- Nodes may have lost names inside. -/
  nodes : ∀ key, key ∈ nodeKeys →
    Option.Rel Json.NamesDropped (get? members key) (get? dropped key)

namespace Members

theorem get?_dropNamesMembers (chosen : List Step → Bool) (members : Members) (key : String) :
    get? (dropNamesMembers chosen members) key =
      if key = nameKey ∧ chosen [] = true then none
      else if key ∈ nodeKeys then
        (get? members key).map (dropNames fun path => chosen (.member key :: path))
      else get? members key := by
  -- the first member decides if it has the key, whether it is deleted, edited or kept
  induction members with
  | nil => simp [dropNamesMembers]
  | cons e rest ih =>
    obtain ⟨k, value⟩ := e
    rw [dropNamesMembers]
    by_cases hk : key = k
    · subst hk
      split
      · next hdrop => rw [ih, if_pos hdrop]
      · split <;> simp [*]
    · have hrest : get? ((k, value) :: rest) key = get? rest key := by simp [hk]
      rw [hrest]
      split
      · exact ih
      · split <;> simpa [hk] using ih

theorem text?_of_get? {members others : Members} {key : String}
    (h : get? others key = get? members key) : Wire.text? others key = Wire.text? members key := by
  rw [Wire.text?, Wire.text?, h]

/-- Deleting redundant names from members and from the nodes in them. -/
theorem namesDropped_dropNamesMembers {members : Members} (h : (object members).Redundant)
    (chosen : List Step → Bool) : NamesDropped members (dropNamesMembers chosen members) := by
  obtain ⟨hname, hnodes⟩ := redundant_object_iff.1 h
  have hkept (key : String) (hkey : key ∉ nodeKeys) (hne : key ≠ nameKey) :
      get? (dropNamesMembers chosen members) key = get? members key := by
    rw [get?_dropNamesMembers, if_neg fun hdrop => hne hdrop.1, if_neg hkey]
  refine ⟨?name, hkept, ?nodes⟩
  case name =>
    have hescaped : Wire.text? (dropNamesMembers chosen members) "name" =
        Wire.text? members "name" :=
      text?_of_get? (hkept _ (by decide) (by decide))
    have hverbatim : Wire.text? (dropNamesMembers chosen members) nameKey =
        if chosen [] = true then none else Wire.text? members nameKey := by
      rw [Wire.text?, get?_dropNamesMembers]
      by_cases hc : chosen [] = true <;> simp [hc, Wire.text?, nameKey, nodeKeys]
    rw [Wire.logicalName, Wire.logicalName, ← nameKey, hverbatim, hescaped]
    -- without the verbatim name, the escaped one stands for it
    cases hv : Wire.text? members nameKey with
    | none => simp
    | some name =>
      obtain ⟨escaped, he, hu⟩ := hname name hv
      by_cases hc : chosen [] = true <;> simp [hc, he, hu]
  case nodes =>
    intro key hkey
    have hne : key ≠ nameKey := by
      rintro rfl
      exact absurd hkey (by decide)
    rw [get?_dropNamesMembers, if_neg fun hdrop => hne hdrop.1, if_pos hkey]
    cases hget : get? members key with
    | none => exact .none
    | some value =>
      have hmem : (key, value) ∈ members := by
        obtain ⟨before, after, rfl, -⟩ := List.lookup_eq_some_iff.1 hget
        simp
      exact .some ⟨hnodes _ hmem hkey, _, rfl⟩

end Members

theorem namesDropped_dropNamesItems {items : List Json} (h : ∀ item ∈ items, item.Redundant)
    (chosen : List Step → Bool) (index : Nat) :
    List.Forall₂ NamesDropped items (dropNamesItems chosen index items) := by
  induction items generalizing index with
  | nil => exact .nil
  | cons item rest ih =>
    obtain ⟨hitem, hrest⟩ := List.forall_mem_cons.1 h
    exact .cons ⟨hitem, _, rfl⟩ (ih hrest _)

namespace NamesDropped

variable {json dropped : Json}

theorem array {items : List Json} (h : NamesDropped (.array items) dropped) :
    ∃ others, dropped = .array others ∧ List.Forall₂ NamesDropped items others := by
  obtain ⟨hredundant, chosen, rfl⟩ := h
  exact ⟨_, rfl, namesDropped_dropNamesItems (redundant_array_iff.1 hredundant) chosen 0⟩

theorem object {members : Members} (h : NamesDropped (.object members) dropped) :
    ∃ others, dropped = .object others ∧ Members.NamesDropped members others := by
  obtain ⟨hredundant, chosen, rfl⟩ := h
  exact ⟨_, rfl, Members.namesDropped_dropNamesMembers hredundant chosen⟩

/-- Only arrays and objects lose names. -/
theorem eq_of_scalar (h : NamesDropped json dropped) (ha : ∀ items, json ≠ .array items)
    (ho : ∀ members, json ≠ .object members) : dropped = json := by
  obtain ⟨-, chosen, rfl⟩ := h
  cases json with
  | array items => exact absurd rfl (ha items)
  | object members => exact absurd rfl (ho members)
  | _ => rfl

theorem string? (h : NamesDropped json dropped) : dropped.string? = json.string? := by
  obtain ⟨-, chosen, rfl⟩ := h
  cases json <;> rfl

end NamesDropped

end Json

/-! ## Readers without verbatim names -/

namespace Wire

/-- The readers give the same for what is left of a document when redundant names are deleted. -/
structure Insensitive (inner : Inner) : Prop where
  node : ∀ space {json dropped : Json}, json.NamesDropped dropped →
    inner.node space dropped = inner.node space json
  branches : ∀ space {items others : List Json}, List.Forall₂ Json.NamesDropped items others →
    inner.branches space others = inner.branches space items
  field : ∀ space {json dropped : Json}, json.NamesDropped dropped →
    inner.field space dropped = inner.field space json

section

variable {members dropped : Json.Members} (h : Json.Members.NamesDropped members dropped)
include h

theorem text?_of_namesDropped (key : String) (hkey : key ≠ Json.nameKey) :
    text? dropped key = text? members key := by
  by_cases hn : key ∈ Json.nodeKeys
  · have hrel := h.nodes key hn
    rw [text?, text?]
    generalize Json.Members.get? members key = value, Json.Members.get? dropped key = other at hrel ⊢
    cases hrel with
    | none => rfl
    | some hrel => simp [hrel.string?]
  · exact Json.Members.text?_of_get? (h.kept key hn hkey)

theorem primitive_of_namesDropped (kind : Kind) : primitive kind dropped = primitive kind members := by
  have hinteger (key : String) (hn : key ∉ Json.nodeKeys) (hkey : key ≠ Json.nameKey) :
      integer dropped key = integer members key := by
    rw [integer, integer, h.kept key hn hkey]
  have hsymbols : symbols dropped = symbols members := by
    rw [symbols, symbols, h.kept "symbols" (by decide) (by decide)]
  unfold primitive
  rw [hsymbols, h.name, h.kept "scale" (by decide) (by decide),
    hinteger "length" (by decide) (by decide),
    hinteger "scale" (by decide) (by decide),
    hinteger "precision" (by decide) (by decide),
    hinteger "size" (by decide) (by decide)]

theorem define_of_namesDropped (space : Option String) (t : DataType) :
    define dropped space t = define members space t := by
  rw [define, define, text?_of_namesDropped h "name" (by decide)]

theorem readPrimitive_of_namesDropped (space : Option String) (kind : Kind) :
    readPrimitive space kind dropped = readPrimitive space kind members := by
  rw [readPrimitive, readPrimitive, primitive_of_namesDropped h]
  simp only [define_of_namesDropped h]

theorem readReference_of_namesDropped (space : Option String) (name : String) :
    readReference space dropped name = readReference space members name := by
  rw [readReference, readReference, h.kept "logicalType" (by decide) (by decide)]

end

/-- Items that are read alike one by one are read alike. -/
private theorem mapM_eq_of_forall₂ {α : Type} {f : Json → Reading α} {items others : List Json}
    (h : List.Forall₂ (fun item other => f other = f item) items others) :
    others.mapM f = items.mapM f := by
  induction h with
  | nil => rfl
  | cons hitem _ ih => rw [List.mapM_cons, List.mapM_cons, hitem, ih]

theorem isNullBranch_of_namesDropped {json dropped : Json} (h : json.NamesDropped dropped) :
    isNullBranch dropped = isNullBranch json := by
  rw [isNullBranch, isNullBranch, h.string?]

namespace Insensitive

variable {inner : Inner} (hi : Insensitive inner) {members dropped : Json.Members}
  (h : Json.Members.NamesDropped members dropped) (space : Option String)
include hi

section

include h

theorem readMap : Wire.readMap inner space dropped = Wire.readMap inner space members := by
  have hrel := h.nodes "values" (by decide)
  unfold Wire.readMap
  generalize Json.Members.get? members "values" = value,
    Json.Members.get? dropped "values" = other at hrel ⊢
  cases hrel with
  | none => rfl
  | some hrel => simp only [hi.node space hrel]

theorem readNamed (name : String) :
    Wire.readNamed inner space dropped name = Wire.readNamed inner space members name := by
  unfold Wire.readNamed
  simp only [text?_of_namesDropped h "logicalType" (by decide), hi.readMap h space,
    readPrimitive_of_namesDropped h, readReference_of_namesDropped h]

end

theorem readBranches {items others : List Json}
    (h : List.Forall₂ Json.NamesDropped items others) :
    Wire.readBranches inner space others = Wire.readBranches inner space items := by
  -- the null branches are the same, and so are the places of all others
  have hany : others.any isNullBranch = items.any isNullBranch := by
    induction h with
    | nil => rfl
    | cons hitem _ ih => rw [List.any_cons, List.any_cons, isNullBranch_of_namesDropped hitem, ih]
  have hfilter : List.Forall₂ Json.NamesDropped (items.filter (!isNullBranch ·))
      (others.filter (!isNullBranch ·)) := by
    refine List.rel_filter (fun json dropped hd => ?_) h
    simp only [isNullBranch_of_namesDropped hd]
  unfold Wire.readBranches
  rw [hany]
  generalize items.filter (!isNullBranch ·) = left, others.filter (!isNullBranch ·) = right
    at hfilter ⊢
  have hread : List.Forall₂ (fun item other => (do return (← inner.node space other).1 : Reading _) =
      do return (← inner.node space item).1) left right :=
    hfilter.imp fun item other hd => by rw [hi.node space hd]
  rcases hfilter with _ | ⟨hfirst, _ | ⟨hsecond, hrest⟩⟩
  · rfl
  · simp only [hi.node space hfirst]
  · simp only [mapM_eq_of_forall₂ hread]

theorem readFields {nodes others : List Json}
    (h : List.Forall₂ Json.NamesDropped nodes others) (r : Record) :
    Wire.readFields inner space r others = Wire.readFields inner space r nodes := by
  -- the record grows by every field that is read
  induction h generalizing r with
  | nil => rfl
  | cons hfield _ ih =>
    rw [Wire.readFields, Wire.readFields, hi.field space hfield]
    simp only [ih]

section

include h

theorem readRecord : Wire.readRecord inner space dropped = Wire.readRecord inner space members := by
  have hrel := h.nodes "fields" (by decide)
  unfold Wire.readRecord
  rw [h.name, text?_of_namesDropped h "namespace" (by decide),
    text?_of_namesDropped h "doc" (by decide)]
  simp only [define_of_namesDropped h]
  -- names may be missing in the nodes of the fields, which are read alike
  generalize Json.Members.get? members "fields" = value,
    Json.Members.get? dropped "fields" = other at hrel ⊢
  cases hrel with
  | none => rfl
  | @some value other hrel =>
    cases value with
    | array nodes =>
      obtain ⟨others, rfl, hnodes⟩ := hrel.array
      simp only [Option.bind_some, Json.array?, hi.readFields _ hnodes]
    | object nodes =>
      obtain ⟨others, rfl, -⟩ := hrel.object
      rfl
    | _ => rw [hrel.eq_of_scalar nofun nofun]

theorem readObject : Wire.readObject inner space dropped = Wire.readObject inner space members := by
  have hrel := h.nodes "type" (by decide)
  have hitems := h.nodes "items" (by decide)
  unfold Wire.readObject
  simp only [hi.readRecord h space, hi.readNamed h space]
  generalize Json.Members.get? members "type" = value,
    Json.Members.get? dropped "type" = other at hrel ⊢
  cases hrel with
  | none => rfl
  | @some value other hrel =>
    cases value with
    | array branches =>
      obtain ⟨others, rfl, hbranches⟩ := hrel.array
      exact hi.branches space hbranches
    | object type =>
      obtain ⟨others, rfl, -⟩ := hrel.object
      exact hi.node space hrel
    | string name =>
      rw [hrel.eq_of_scalar nofun nofun]
      -- the items matter only for an array
      generalize Json.Members.get? members "items" = value,
        Json.Members.get? dropped "items" = other at hitems ⊢
      cases hitems with
      | none => rfl
      | some hrel => simp only [hi.node space hrel]
    | _ => rw [hrel.eq_of_scalar nofun nofun]

end

theorem readNode {json dropped : Json} (h : json.NamesDropped dropped) :
    Wire.readNode inner space dropped = Wire.readNode inner space json := by
  cases json with
  | array items =>
    obtain ⟨others, rfl, hitems⟩ := h.array
    exact hi.readBranches space hitems
  | object members =>
    obtain ⟨others, rfl, hmembers⟩ := h.object
    exact hi.readObject hmembers space
  | _ => rw [h.eq_of_scalar nofun nofun]

theorem readField {json dropped : Json} (h : json.NamesDropped dropped) :
    Wire.readField inner space dropped = Wire.readField inner space json := by
  cases json with
  | array items =>
    obtain ⟨others, rfl, -⟩ := h.array
    rfl
  | object members =>
    obtain ⟨others, rfl, hmembers⟩ := h.object
    have hflag (key : String) (hn : key ∉ Json.nodeKeys) (hkey : key ≠ Json.nameKey) :
        flag others key = flag members key := by
      rw [flag, flag, hmembers.kept key hn hkey]
    simp only [Wire.readField, hmembers.name, hi.readObject hmembers space,
      text?_of_namesDropped hmembers "doc" (by decide),
      text?_of_namesDropped hmembers "__source_data_type" (by decide),
      text?_of_namesDropped hmembers "__sensitivity" (by decide),
      hmembers.kept "default" (by decide) (by decide),
      hflag "__internal" (by decide) (by decide),
      hflag "__technical" (by decide) (by decide)]
  | _ => rw [h.eq_of_scalar nofun nofun]

end Insensitive

/-- Readers do not depend on redundant names, however deep they may go. -/
theorem insensitive_inner (limit levels : Nat) : Insensitive (Wire.inner limit levels) := by
  induction levels with
  | zero =>
    -- without a level left, nothing is looked at
    exact ⟨fun _ _ _ _ => rfl, fun _ _ _ _ => rfl, fun _ _ _ _ => rfl⟩
  | succ levels ih =>
    exact ⟨fun space _ _ h => ih.readNode space h, fun space _ _ h => ih.readBranches space h,
      fun space _ _ h => ih.readField space h⟩

end Wire

/-! ## Written documents -/

open Json

theorem Json.redundant_nullableNode {json : Json} (h : json.Redundant) :
    (nullableNode json).Redundant := by
  cases json with
  | array branches => simpa [nullableNode] using h
  | _ => simp [nullableNode, h]

/-- Without a verbatim name there is nothing that could be redundant. -/
theorem Json.Members.nameRedundant_of_text? {members : Members}
    (h : Wire.text? members nameKey = none) : NameRedundant members := by
  intro name hname
  rw [h] at hname
  cases hname

/-- A verbatim name beside its escaped form is redundant. -/
theorem Json.Members.nameRedundant_of_escape {members : Members} {name : String}
    (hv : Wire.text? members nameKey = some name)
    (he : Wire.text? members "name" = some (Name.escape name)) : NameRedundant members := by
  intro other hother
  rw [hv, Option.some.injEq] at hother
  subst hother
  exact ⟨_, he, Name.unescape_escape name⟩

theorem Primitive.redundant_node (p : Primitive) : p.node.Redundant := by
  cases p with
  | plain kind h =>
    cases kind <;>
      exact redundant_object_iff.2 ⟨Members.nameRedundant_of_text? rfl, by simp [nodeKeys]⟩
  | fixed size name =>
    exact redundant_object_iff.2 ⟨Members.nameRedundant_of_escape rfl rfl, by simp [nodeKeys]⟩
  | enum name symbols =>
    exact redundant_object_iff.2 ⟨Members.nameRedundant_of_escape rfl rfl, by simp [nodeKeys]⟩
  | _ => exact redundant_object_iff.2 ⟨Members.nameRedundant_of_text? rfl, by simp [nodeKeys]⟩

theorem Primitive.redundant_wire (p : Primitive) : p.wire.Redundant := by
  unfold wire
  split
  · rw [redundant_array_iff, List.forall_mem_map]
    exact fun p _ => p.redundant_node
  · exact p.redundant_node

theorem Field.redundant_node (f : Field) {type : Json} (h : type.Redundant) :
    (f.node type).Redundant := by
  refine redundant_object_iff.2 ⟨?name, ?nodes⟩
  case name =>
    refine @Members.nameRedundant_of_escape _ f.name rfl ?_
    cases hd : (if f.nullable then some Json.null else f.defaultValue) <;>
      cases ho : f.doc <;> simp [Wire.text?, Json.string?, wireName]
  case nodes =>
    -- of all members, only the type is a node
    have htype : (if f.nullable then nullableNode type else type).Redundant := by
      split
      · exact redundant_nullableNode h
      · exact h
    cases hd : (if f.nullable then some Json.null else f.defaultValue) <;>
      cases ho : f.doc <;> simp [nodeKeys, htype]

theorem Record.redundant_members (r : Record) {nodes : List Json}
    (h : ∀ node ∈ nodes, node.Redundant) : (Json.object (r.members nodes)).Redundant := by
  refine redundant_object_iff.2 ⟨Members.nameRedundant_of_escape rfl rfl, ?_⟩
  simpa [members, nodeKeys] using h

theorem Field.redundant_zipWith_node {fields : List Field} {types : List Json}
    (h : ∀ type ∈ types, type.Redundant) :
    ∀ node ∈ List.zipWith Field.node fields types, node.Redundant := by
  induction fields generalizing types with
  | nil => nofun
  | cons f rest ih =>
    cases types with
    | nil => nofun
    | cons type others =>
      obtain ⟨htype, hothers⟩ := List.forall_mem_cons.1 h
      exact List.forall_mem_cons.2 ⟨f.redundant_node htype, ih hothers⟩

namespace DataType

/-- The definition of a type has no other verbatim names than its own and those of its parts. -/
theorem redundant_definition (t : DataType) {nodes : List Json}
    (h : ∀ node ∈ nodes, node.Redundant) : (t.definition nodes).Redundant := by
  cases t with
  | primitive p => exact p.redundant_wire
  | record r => exact r.redundant_members (Field.redundant_zipWith_node h)
  | _ => trivial

private theorem redundant_writeAll_of {ts : List DataType}
    (h : ∀ t ∈ ts, ∀ space table, (t.write space table).1.Redundant) (space : Option String)
    (table : Definitions) : ∀ node ∈ (writeAll space ts table).1, node.Redundant := by
  induction ts generalizing table with
  | nil => nofun
  | cons t ts ih =>
    obtain ⟨ht, hts⟩ := List.forall_mem_cons.1 h
    exact List.forall_mem_cons.2 ⟨ht space table, ih hts _⟩

/-- All verbatim names in what is written for a type are redundant. -/
theorem redundant_write (t : DataType) (space : Option String) (table : Definitions) :
    (t.write space table).1.Redundant := by
  -- references are names, so verbatim names are in definitions only
  induction t using namedInduction generalizing space table with
  | unnamed p hp =>
    rw [write_unnamed hp]
    exact p.redundant_wire
  | union members ih =>
    rw [write_union]
    exact redundant_array_iff.2 (redundant_writeAll_of ih space table)
  | array items ih =>
    have hitems := ih space table
    exact redundant_object_iff.2 ⟨Members.nameRedundant_of_text? rfl, by simp [nodeKeys, hitems]⟩
  | map values ih =>
    have hvalues := ih space table
    exact redundant_object_iff.2 ⟨Members.nameRedundant_of_text? rfl, by simp [nodeKeys, hvalues]⟩
  | named t ht ih =>
    obtain ⟨name, hn⟩ := exists_fullName? ht space
    cases hs : table.standsFor name t with
    | true =>
      rw [write_of_standsFor hn hs]
      trivial
    | false =>
      rw [write_of_not_standsFor hn hs]
      exact t.redundant_definition (redundant_writeAll_of ih _ _)

end DataType

namespace Record

theorem redundant_wire (r : Record) : r.wire.Redundant := by
  obtain ⟨name, own, doc, fields⟩ := r
  rw [wire, wireMembers, write, Field.writeAll_eq]
  exact redundant_members _ (Field.redundant_zipWith_node
    (DataType.redundant_writeAll_of (fun t _ => t.redundant_write) _ _))

/-- Deleting verbatim names from the document of a record, at any choice of its nodes, does not
change what it is read as: the same record, or the same refusal. -/
theorem ofWire_dropNames (limit : Nat) (r : Record) (chosen : List Step → Bool) :
    ofWire limit (r.wire.dropNames chosen) = ofWire limit r.wire := by
  have hdropped : Json.Members.NamesDropped r.wireMembers (dropNamesMembers chosen r.wireMembers) :=
    Members.namesDropped_dropNamesMembers r.redundant_wire chosen
  change ofMembers limit (dropNamesMembers chosen r.wireMembers) = ofMembers limit r.wireMembers
  rw [ofMembers, ofMembers, Wire.text?_of_namesDropped hdropped "type" (by decide),
    (Wire.insensitive_inner limit limit).readRecord hdropped none]

/-- Only the field at the chosen place loses its name, and default values lose nothing. -/
example :
    dropNames (fun path => path matches [.member "fields", .item 1])
      (.object [
        ("__originalname", .string "order"),
        ("fields", .array [
          .object [("__originalname", .string "no."), ("name", .string "no_x002e")],
          .object [("__originalname", .string "of"),
            ("default", .object [("__originalname", .string "day")]), ("name", .string "of")]]),
        ("name", .string "order")]) =
      .object [
        ("__originalname", .string "order"),
        ("fields", .array [
          .object [("__originalname", .string "no."), ("name", .string "no_x002e")],
          .object [("default", .object [("__originalname", .string "day")]),
            ("name", .string "of")]]),
        ("name", .string "order")] := rfl

end Record

end AvroSchema
