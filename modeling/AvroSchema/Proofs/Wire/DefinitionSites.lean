import AvroSchema.Proofs.Wire.FlatUnions
import AvroSchema.Proofs.Wire.NestingLimit
import AvroSchema.Proofs.Wire.Walks

/-!
# Definition Sites

The sites of a document are its nodes that define types: records, and the nodes of fixed types,
enumerations and UUID types that have a name. They are listed in the order in which a reader
completes them, a record after all that lies in its fields. The list is read off the document alone:
before anything is known of the types, and of what of it can be read.

* `Wire.sites_eq`: the sites of a node, from those of the nodes directly inside it.
* `Wire.typeNode_of_mem_sites`: a site of a node is this node or stands inside it.
* `Wire.scalarSites_nil`: a name defines nothing.
-/

namespace AvroSchema

open Wire

/-! ## Sites -/

/-- A node that defines a type. -/
structure Site where
  /-- The kind of a primitive type; a record has none. -/
  kind : Option Kind
  /-- The members of the node. -/
  members : Json.Members
  /-- The namespace that encloses the node. -/
  space : Option String
  /-- The name of the node. -/
  name : String

namespace Site

/-- The namespace that a node gives itself. Only records do. -/
def own (site : Site) : Option String :=
  match site.kind with
  | none => text? site.members "namespace"
  | some _ => none

/-- The full name under which a node defines its type. -/
def fullName (site : Site) : String := AvroSchema.fullName (site.own <|> site.space) site.name

/-- A node is a site if it has a name. -/
def ofMembers (kind : Option Kind) (space : Option String) (members : Json.Members) : List Site :=
  match text? members "name" with
  | some name => [⟨kind, members, space, name⟩]
  | none => []

end Site

namespace Wire

section

variable (inside : Option String → Json → List Site) (space : Option String)

/-- The site of a primitive type, if its kind is named. -/
def primitiveSites (kind : Kind) (members : Json.Members) : List Site :=
  match kind with
  | .fixed | .enum | .uuid => Site.ofMembers (some kind) space members
  | _ => []

/-- The sites in a map. -/
def mapSites (members : Json.Members) : List Site :=
  match Json.Members.get? members "values" with
  | some values => inside space values
  | none => []

/-- The sites in a node whose type is a name other than that of a record or an array. -/
def scalarSites (members : Json.Members) (name : String) : List Site :=
  let byName : List Site :=
    if name = "map" then mapSites inside space members
    else match Kind.ofAvro? name with
      | some kind => primitiveSites space kind members
      | none => []
  match text? members "logicalType" with
  | none => byName
  | some logical =>
    if logical = "MAP" then mapSites inside space members
    else match Kind.ofLogical? logical with
      | some kind => primitiveSites space kind members
      | none => byName

/-- The sites in a list of branches. -/
def unionSites (items : List Json) : List Site :=
  (items.filter (!isNullBranch ·)).flatMap (inside space)

/-- The sites in a field. -/
def fieldSites : Json → List Site
  | .object members => inside space (.object members)
  | _ => []

/-- The sites in a record, and then the record. -/
def recordSites (members : Json.Members) : List Site :=
  match (Json.Members.get? members "fields").bind Json.array? with
  | some fields =>
    fields.flatMap (fieldSites inside (text? members "namespace" <|> space)) ++
      Site.ofMembers none space members
  | none => []

/-- The sites in an object. -/
def objectSites (members : Json.Members) : List Site :=
  match Json.Members.get? members "type" with
  | some (.array items) => inside space (.array items)
  | some (.object type) => inside space (.object type)
  | some (.string "record") => recordSites inside space members
  | some (.string "array") =>
    match Json.Members.get? members "items" with
    | some items => inside space items
    | none => []
  | some (.string name) => scalarSites inside space members name
  | _ => []

/-- The sites in a node, from those in the nodes inside it. -/
def nodeSites : Json → List Site
  | .array items => unionSites inside space items
  | .object members => objectSites inside space members
  | _ => []

end

/-- The sites in a node, as far as some levels deep. -/
def sitesWithin : (levels : Nat) → Option String → Json → List Site
  | 0, _, _ => []
  | levels + 1, space, json => nodeSites (sitesWithin levels) space json

/-- The sites in a node, in the order in which they are completed. -/
def sites (space : Option String) (json : Json) : List Site :=
  sitesWithin (json.depth + 1) space json

end Wire

/-- A node is directly inside another one: a branch of a list, a type that is told of an object, or
a field of a record. -/
inductive Json.Part (part : Json) : Json → Prop where
  | branch {items : List Json} (hi : part ∈ items) : Part part (.array items)
  | member {members : Members} {key : String} (hk : key ∈ typeKeys)
      (hv : Members.get? members key = some part) : Part part (.object members)
  | field {members : Members} {fields : List Json}
      (hv : Members.get? members "fields" = some (.array fields)) (hf : part ∈ fields) :
      Part part (.object members)

theorem Json.Part.depth_lt {part json : Json} (h : part.Part json) : part.depth < json.depth := by
  cases h with
  | branch hi => exact depth_lt_of_mem hi
  | member _ hv => exact depth_lt_of_get? hv
  | field hv hf => exact Nat.lt_trans (depth_lt_of_mem hf) (depth_lt_of_get? hv)

theorem Json.Part.typeNode {part json node : Json} (h : part.Part json) (hn : node.TypeNode part) :
    node.TypeNode json := by
  cases h with
  | branch hi => exact .branch hi hn
  | member hk hv => exact .member hk hv hn
  | field hv hf => exact .field hv hf hn

namespace Wire

/-- The list of the fields of a record. -/
theorem get?_fields_of_bind {members : Json.Members} {fields : List Json}
    (h : (Json.Members.get? members "fields").bind Json.array? = some fields) :
    Json.Members.get? members "fields" = some (.array fields) := by
  obtain ⟨json, hj, ha⟩ := Option.bind_eq_some_iff.1 h
  cases json <;> cases ha
  exact hj

section

variable {f g : Option String → Json → List Site} {members : Json.Members}

/-- Only the nodes directly inside a node matter to its sites. -/
theorem nodeSites_congr {space : Option String} {json : Json}
    (h : ∀ space part, part.Part json → f space part = g space part) :
    nodeSites f space json = nodeSites g space json := by
  cases json with
  | array items =>
    refine List.flatMap_congr fun item hi => ?_
    exact h space item (.branch (List.mem_filter.1 hi).1)
  | object members =>
    -- maps and records are where the nodes inside are looked up
    have hmap : mapSites f space members = mapSites g space members := by
      unfold mapSites
      split
      · next values hv => exact h space values (.member (by decide) hv)
      · rfl
    have hfields : recordSites f space members = recordSites g space members := by
      unfold recordSites
      split
      · next fields hf =>
        congr 1
        refine List.flatMap_congr fun field hi => ?_
        cases field with
        | object _ => exact h _ _ (.field (get?_fields_of_bind hf) hi)
        | _ => rfl
      · rfl
    simp only [nodeSites, objectSites, scalarSites, hmap, hfields]
    split
    · next hv => exact h space _ (.member (by decide) hv)
    · next hv => exact h space _ (.member (by decide) hv)
    · rfl
    · split
      · next hv => exact h space _ (.member (by decide) hv)
      · rfl
    · rfl
    · rfl
  | _ => rfl

theorem members_eq_of_mem_ofMembers {kind : Option Kind} {space : Option String} {site : Site}
    (h : site ∈ Site.ofMembers kind space members) : site.members = members := by
  unfold Site.ofMembers at h
  split at h
  · obtain rfl := List.mem_singleton.1 h
    rfl
  · cases h

/-- A site lies in a node with these members: it is the node, or lies in what is inside it. -/
def LiesIn (f : Option String → Json → List Site) (members : Json.Members) (site : Site) : Prop :=
  site.members = members ∨
    ∃ space part, part.Part (.object members) ∧ site ∈ f space part

theorem liesIn_of_mem_primitiveSites {space : Option String} {kind : Kind} {site : Site}
    (h : site ∈ primitiveSites space kind members) : LiesIn f members site := by
  unfold primitiveSites at h
  split at h
  · exact .inl (members_eq_of_mem_ofMembers h)
  · exact .inl (members_eq_of_mem_ofMembers h)
  · exact .inl (members_eq_of_mem_ofMembers h)
  · cases h

theorem liesIn_of_mem_mapSites {space : Option String} {site : Site}
    (h : site ∈ mapSites f space members) : LiesIn f members site := by
  unfold mapSites at h
  split at h
  · next values hv => exact .inr ⟨space, values, .member (by decide) hv, h⟩
  · cases h

theorem liesIn_of_mem_scalarSites {space : Option String} {name : String} {site : Site}
    (h : site ∈ scalarSites f space members name) : LiesIn f members site := by
  have hname : ∀ {site}, site ∈ (if name = "map" then mapSites f space members
      else match Kind.ofAvro? name with
        | some kind => primitiveSites space kind members
        | none => []) → LiesIn f members site := by
    intro site h
    split at h
    · exact liesIn_of_mem_mapSites h
    split at h
    · exact liesIn_of_mem_primitiveSites h
    · cases h
  unfold scalarSites at h
  dsimp only at h
  split at h
  · exact hname h
  split at h
  · exact liesIn_of_mem_mapSites h
  split at h
  · exact liesIn_of_mem_primitiveSites h
  · exact hname h

theorem liesIn_of_mem_recordSites {space : Option String} {site : Site}
    (h : site ∈ recordSites f space members) : LiesIn f members site := by
  unfold recordSites at h
  split at h
  · next fields hf =>
    rcases List.mem_append.1 h with h | h
    · obtain ⟨field, hi, h⟩ := List.mem_flatMap.1 h
      cases field with
      | object _ => exact .inr ⟨_, _, .field (get?_fields_of_bind hf) hi, h⟩
      | _ => cases h
    · exact .inl (members_eq_of_mem_ofMembers h)
  · cases h

theorem liesIn_of_mem_objectSites {space : Option String} {site : Site}
    (h : site ∈ objectSites f space members) : LiesIn f members site := by
  unfold objectSites at h
  split at h
  · next hv => exact .inr ⟨space, _, .member (by decide) hv, h⟩
  · next hv => exact .inr ⟨space, _, .member (by decide) hv, h⟩
  · exact liesIn_of_mem_recordSites h
  · split at h
    · next hv => exact .inr ⟨space, _, .member (by decide) hv, h⟩
    · cases h
  · exact liesIn_of_mem_scalarSites h
  · cases h

/-- A name defines nothing, whatever it stands for. -/
theorem scalarSites_nil (space : Option String) (name : String) :
    scalarSites f space [] name = [] := by
  have hprimitive : ∀ kind, primitiveSites space kind [] = [] := by
    intro kind
    cases kind <;> rfl
  change (if name = "map" then [] else _) = _
  split
  · rfl
  split
  · exact hprimitive _
  · rfl

end

/-! ## The sites of a document -/

/-- Levels enough are as good as more. -/
theorem sitesWithin_eq {m n : Nat} (space : Option String) {json : Json} (hm : json.depth < m)
    (hn : json.depth < n) : sitesWithin m space json = sitesWithin n space json := by
  induction m generalizing n space json with
  | zero => omega
  | succ m ih =>
    obtain ⟨n, rfl⟩ : ∃ k, n = k + 1 := ⟨n - 1, by omega⟩
    refine nodeSites_congr fun space _ hp => ?_
    have hlt := hp.depth_lt
    exact ih space (by omega) (by omega)

/-- The sites in a node are determined by those in the nodes inside it. -/
theorem sites_eq (space : Option String) (json : Json) :
    sites space json = nodeSites sites space json :=
  nodeSites_congr fun space _ hp => sitesWithin_eq space hp.depth_lt (Nat.lt_succ_self _)

/-- The sites in a node are this node and nodes that stand in it. -/
theorem typeNode_of_mem_sites {space : Option String} {json : Json} {site : Site}
    (h : site ∈ sites space json) : (Json.object site.members).TypeNode json := by
  -- by induction on the depth of the node, as the sites inside are those of nodes less deep
  induction hd : json.depth using Nat.strong_induction_on generalizing space json with
  | _ depth ih =>
  subst hd
  rw [sites_eq] at h
  cases json with
  | array items =>
    obtain ⟨item, hi, h⟩ := List.mem_flatMap.1 h
    have hp : item.Part (.array items) := .branch (List.mem_filter.1 hi).1
    exact hp.typeNode (ih _ hp.depth_lt h rfl)
  | object members =>
    rcases liesIn_of_mem_objectSites h with hm | ⟨_, part, hp, h⟩
    · exact hm ▸ .self
    · exact hp.typeNode (ih _ hp.depth_lt h rfl)
  | _ => cases h

/-- The same for the parts of an object that are read by themselves. -/
theorem LiesIn.typeNode {members : Json.Members} {site : Site}
    (h : LiesIn sites members site) : (Json.object site.members).TypeNode (.object members) := by
  rcases h with hm | ⟨_, part, hp, h⟩
  · exact hm ▸ .self
  · exact hp.typeNode (typeNode_of_mem_sites h)

end Wire

end AvroSchema
