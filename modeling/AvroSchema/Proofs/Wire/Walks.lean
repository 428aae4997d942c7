import AvroSchema.Wire.Reader

/-!
# Walks

A parser can keep the namespace that encloses the current node in its state, beside the table of
definitions: then only records change it, around their fields, and nodes inside are handed their
depth instead of the levels that are left. Such a walk does what the readers do that are given the
namespace (`Walk.follows_level`), so what holds of one holds of the other.

* `Walk.enter_apply`: the enclosing namespace is put back, also after a failure.
* `Walk.level_eq`: the readers at a depth are built from those at the next one, at any depth.
* `Walk.ofWire_eq`, `Walk.fieldOfWire_eq`, `Walk.ofMembers_eq`: whole documents.
-/

namespace AvroSchema

open Wire

/-- What a parser carries through a document. -/
structure Walk where
  /-- The types that were defined so far. -/
  named : Definitions
  /-- The namespace that encloses the node. -/
  space : Option String

/-- A part of a walk. What it changed is not undone if it fails. -/
abbrev Walking := EStateM SchemaError Walk

namespace Walk

/-! ## Parts of a walk -/

/-- The readers for the nodes at some depth. -/
structure Level where
  /-- Reads a type node. -/
  node : Json → Walking (DataType × Bool)
  /-- Reads a list of branches. -/
  union : List Json → Walking (DataType × Bool)
  /-- Reads a field. -/
  field : Json → Walking Field

/-- Fails beyond the nesting limit. -/
def guard (limit depth : Nat) : Walking Unit :=
  if limit < depth then throw (.nestingTooDeep limit) else pure ()

/-- Defines a type under the name of its node, in its own namespace or else in the enclosing one. -/
def register (members : Json.Members) (own : Option String) (type : DataType) : Walking Unit :=
  match text? members "name" with
  | some name => modify fun walk =>
    { walk with named := walk.named.define (fullName (own <|> walk.space) name) type }
  | none => pure ()

/-- Walks on in another namespace, if there is one. The enclosing one is put back afterwards,
before a failure is passed on. -/
def enter {α : Type} (own : Option String) (walking : Walking α) : Walking α := do
  let enclosing := (← get).space
  modify fun walk => { walk with space := own <|> walk.space }
  -- a failure is held back until the namespace is restored
  let result ← observing walking
  modify fun walk => { walk with space := enclosing }
  ofExcept result

section

variable (limit depth : Nat) (inner : Level)

/-- Reads a primitive type and defines it if its kind is named. -/
def namedPrimitive (kind : Kind) (members : Json.Members) : Walking DataType := do
  let type := DataType.primitive (← ofExcept (primitive kind members))
  match kind with
  | .fixed | .enum | .uuid => register members none type
  | _ => pure ()
  return type

/-- Reads a map. -/
def mapType (members : Json.Members) : Walking DataType :=
  match Json.Members.get? members "values" with
  | none => ofExcept (refuse .valuesMissing)
  | some values => do return .map (← inner.node values).1

/-- Reads a reference to a defined type. -/
def reference (members : Json.Members) (name : String) : Walking DataType := do
  let walk ← get
  match resolve? walk.named walk.space name with
  | some type => return type
  | none => ofExcept (refuse (.unknownType name (Json.Members.get? members "logicalType")))

/-- Reads a node whose type is a name other than that of a record or an array. -/
def scalar (members : Json.Members) (name : String) : Walking DataType :=
  let byName : Walking DataType :=
    if name = "map" then mapType inner members
    else match Kind.ofAvro? name with
      | some kind => namedPrimitive kind members
      | none => reference members name
  match text? members "logicalType" with
  | none => byName
  | some logical =>
    if logical = "MAP" then mapType inner members
    else match Kind.ofLogical? logical with
      | some kind => namedPrimitive kind members
      | none => byName

/-- Reads a list of branches. -/
def union (items : List Json) : Walking (DataType × Bool) := do
  guard limit depth
  let nullable := items.any isNullBranch
  match items.filter (!isNullBranch ·) with
  | [] => ofExcept (refuse .noBranch)
  | [single] => do
    let (type, innerNullable) ← inner.node single
    return (type, nullable || innerNullable)
  | several => do
    let types ← several.mapM fun branch => return (← inner.node branch).1
    return (← ofExcept (DataType.unionOf types), nullable)

/-- Reads the fields of a record, adding them one by one. -/
def addFields : Record → List Json → Walking Record
  | r, [] => pure r
  | r, node :: rest => do
    let f ← inner.field node
    addFields (← ofExcept (r.addField f)) rest

/-- The record of a node, without its fields. -/
def opened (members : Json.Members) (name : String) : Record :=
  { name, space := text? members "namespace", doc := text? members "doc" }

/-- Reads a record and defines it. -/
def record (members : Json.Members) : Walking Record := do
  guard limit depth
  let name ← ofExcept (logicalName members)
  let own := text? members "namespace"
  match (Json.Members.get? members "fields").bind Json.array? with
  | none => ofExcept (refuse (.fieldsMissing name))
  | some fields => do
    let r ← enter own (addFields inner (opened members name) fields)
    -- back in the enclosing namespace, which counts if the record has none of its own
    register members own (.record r)
    return r

/-- Reads the type that an object describes, be it a type node or a field. -/
def object (members : Json.Members) : Walking (DataType × Bool) :=
  match Json.Members.get? members "type" with
  | none => ofExcept (refuse .typeMissing)
  | some (.array items) => inner.union items
  | some (.object type) => inner.node (.object type)
  | some (.string "record") => do return (.record (← record limit depth inner members), false)
  | some (.string "array") =>
    match Json.Members.get? members "items" with
    | none => ofExcept (refuse .itemsMissing)
    | some items => do return (.array (← inner.node items).1, false)
  | some (.string name) => do return (← scalar inner members name, false)
  | some other => ofExcept (refuse (.unexpectedType other))

/-- Reads a type node. -/
def node (json : Json) : Walking (DataType × Bool) := do
  guard limit depth
  match json with
  | .string name => do return (← scalar inner [] name, false)
  | .array items => union limit depth inner items
  | .object members => object limit depth inner members
  | other => ofExcept (refuse (.unexpectedNode other))

/-- Reads a field. -/
def field (json : Json) : Walking Field := do
  guard limit depth
  match json with
  | .object members => do
    let name ← ofExcept (logicalName members)
    let (type, nullable) ← object limit depth inner members
    return {
      name
      type
      nullable
      doc := text? members "doc"
      defaultValue := if nullable then none else Json.Members.get? members "default"
      internal := flag members "__internal"
      technical := flag members "__technical"
      sourceType := text? members "__source_data_type"
      sensitivity :=
        ((text? members "__sensitivity").bind Sensitivity.ofName?).getD .internalData }
  | _ => ofExcept (refuse .fieldNotObject)

end

/-- The readers from some depth on that may go some levels deeper. -/
def levels (limit : Nat) : (left depth : Nat) → Level
  | 0, _ => ⟨fun _ => throw (.nestingTooDeep limit), fun _ => throw (.nestingTooDeep limit),
      fun _ => throw (.nestingTooDeep limit)⟩
  | left + 1, depth =>
    let inner := levels limit left (depth + 1)
    ⟨node limit depth inner, union limit depth inner, field limit depth inner⟩

/-- The readers for the nodes at a depth. -/
def level (limit depth : Nat) : Level := levels limit (limit + 1 - depth) depth

/-- Within the limit, the guard does nothing. -/
theorem guard_eq {limit depth : Nat} (h : depth ≤ limit) : guard limit depth = pure () :=
  if_neg (Nat.not_lt.2 h)

/-- Nothing is read beyond the limit. -/
theorem guard_bind_of_lt {α : Type} {limit depth : Nat} (h : limit < depth)
    (walking : Walking α) :
    (guard limit depth >>= fun _ => walking) = throw (.nestingTooDeep limit) := by
  rw [guard, if_pos h]
  rfl

/-- The readers at a depth are built from those at the next one, within the limit and beyond. -/
theorem level_eq (limit depth : Nat) :
    level limit depth =
      let inner := level limit (depth + 1)
      ⟨node limit depth inner, union limit depth inner, field limit depth inner⟩ := by
  unfold level
  by_cases h : limit < depth
  · -- no level is left, and the guard refuses everything as well
    rw [show limit + 1 - depth = 0 by omega, levels]
    congr 1 <;> funext given
    · exact (guard_bind_of_lt h _).symm
    · exact (guard_bind_of_lt h _).symm
    · exact (guard_bind_of_lt h _).symm
  · obtain ⟨left, hleft⟩ : ∃ left, limit + 1 - depth = left + 1 := ⟨limit - depth, by omega⟩
    rw [hleft, levels, show limit + 1 - (depth + 1) = left by omega]

/-- A failure that is observed becomes a result, and leaves behind what the failure leaves. -/
theorem observing_apply {α : Type} (walking : Walking α) (walk : Walk) :
    (observing walking : Walking (Except SchemaError α)) walk =
      match walking walk with
      | .ok a left => EStateM.Result.ok (Except.ok a) left
      | .error e left => EStateM.Result.ok (Except.error e) left := by
  unfold observing
  change EStateM.tryCatch _ _ walk = _
  delta EStateM.tryCatch
  simp only [bind, EStateM.bind]
  cases walking walk <;> rfl

/-- The namespace is another one only during the part of the walk that was entered. -/
theorem enter_apply {α : Type} (own : Option String) (walking : Walking α) (walk : Walk) :
    enter own walking walk =
      match walking { walk with space := own <|> walk.space } with
      | .ok a left => .ok a { left with space := walk.space }
      | .error e left => .error e { left with space := walk.space } := by
  have h : enter own walking walk =
      ((observing walking : Walking (Except SchemaError α)) >>= fun result =>
        modify (fun left => { left with space := walk.space }) >>= fun _ => ofExcept result :
        Walking α) { walk with space := own <|> walk.space } := rfl
  simp only [h, bind, EStateM.bind, observing_apply]
  cases walking { walk with space := own <|> walk.space } <;> rfl

/-- A reference is looked up in the state, which it leaves as it is. -/
theorem reference_apply (members : Json.Members) (name : String) (walk : Walk) :
    reference members name walk =
      (match resolve? walk.named walk.space name with
        | some type => pure type
        | none => ofExcept (refuse (.unknownType name (Json.Members.get? members "logicalType"))) :
          Walking DataType) walk := rfl

/-! ## Readers with the namespace at hand -/

/-- A reader's result, as the result of a walk that is in a namespace. -/
def inSpace {α : Type} (space : Option String) :
    EStateM.Result SchemaError Definitions α → EStateM.Result SchemaError Walk α
  | .ok a left => .ok a ⟨left, space⟩
  | .error e left => .error e ⟨left, space⟩

/-- A part of a walk does in a namespace what a reader does, and stays in it. -/
def Follows {α : Type} (space : Option String) (walking : Walking α) (reading : Reading α) : Prop :=
  ∀ table, walking ⟨table, space⟩ = inSpace space (reading table)

section

variable {α β : Type} {space : Option String}

theorem follows_pure (a : α) : Follows space (pure a) (pure a) := fun _ => rfl

theorem follows_ofExcept (x : Except SchemaError α) : Follows space (ofExcept x) (lift x) := by
  cases x <;> exact fun _ => rfl

theorem follows_bind {x : Walking α} {f : α → Walking β} {y : Reading α} {g : α → Reading β}
    (hx : Follows space x y) (hf : ∀ a, Follows space (f a) (g a)) :
    Follows space (x >>= f) (y >>= g) := by
  intro table
  simp only [bind, EStateM.bind, hx table]
  cases y table with
  | ok a between => exact hf a between
  | error e between => rfl

theorem follows_mapM {f : α → Walking β} {g : α → Reading β}
    (h : ∀ a, Follows space (f a) (g a)) (as : List α) :
    Follows space (as.mapM f) (as.mapM g) := by
  induction as with
  | nil => exact follows_pure []
  | cons a as ih =>
    rw [List.mapM_cons, List.mapM_cons]
    exact follows_bind (h a) fun b => follows_bind ih fun bs => follows_pure (b :: bs)

/-- What is entered follows a reader in the other namespace. -/
theorem follows_enter {own : Option String} {x : Walking α} {y : Reading α}
    (h : Follows (own <|> space) x y) : Follows space (enter own x) y := by
  intro table
  rw [enter_apply, h]
  cases y table <;> rfl

theorem follows_register (members : Json.Members) (own : Option String) (type : DataType) :
    Follows space (register members own type) (define members (own <|> space) type) := by
  unfold register define
  cases text? members "name" <;> exact fun _ => rfl

theorem follows_namedPrimitive (kind : Kind) (members : Json.Members) :
    Follows space (namedPrimitive kind members) (readPrimitive space kind members) := by
  refine follows_bind (follows_ofExcept _) fun p => ?_
  -- only three kinds are registered
  have hnamed := follows_bind (@follows_register space members none (.primitive p))
    fun _ => follows_pure (DataType.primitive p)
  cases kind <;> first | exact hnamed | exact follows_pure _

theorem follows_reference (members : Json.Members) (name : String) :
    Follows space (reference members name) (readReference space members name) := by
  intro table
  have hread : readReference space members name table =
      (match resolve? table space name with
        | some type => pure type
        | none => lift (refuse (.unknownType name (Json.Members.get? members "logicalType"))) :
          Reading DataType) table := rfl
  rw [reference_apply, hread]
  cases resolve? table space name <;> rfl

end

/-- The readers at a depth do what the readers do that may go some levels deep. -/
structure Level.Follows (level : Level) (inner : Inner) : Prop where
  node : ∀ space json, Walk.Follows space (level.node json) (inner.node space json)
  union : ∀ space items, Walk.Follows space (level.union items) (inner.branches space items)
  field : ∀ space json, Walk.Follows space (level.field json) (inner.field space json)

section

variable {limit depth : Nat} {level : Level} {inner : Inner} (h : level.Follows inner)
  {space : Option String}
include h

theorem follows_mapType (members : Json.Members) :
    Follows space (mapType level members) (readMap inner space members) := by
  unfold mapType readMap
  cases Json.Members.get? members "values" with
  | none => exact follows_ofExcept _
  | some values => exact follows_bind (h.node space values) fun a => follows_pure _

theorem follows_scalar (members : Json.Members) (name : String) :
    Follows space (scalar level members name) (readNamed inner space members name) := by
  have hmap : Follows space (mapType level members) (readMap inner space members) :=
    follows_mapType h members
  have hprimitive : ∀ kind,
      Follows space (namedPrimitive kind members) (readPrimitive space kind members) :=
    fun kind => follows_namedPrimitive kind members
  unfold scalar readNamed
  dsimp only
  -- the name is looked at if there is no logical type, or one that is not known
  generalize hx : (if name = "map" then mapType level members else _) = x
  generalize hy : (if name = "map" then readMap inner space members else _) = y
  have hname : Follows space x y := by
    rw [← hx, ← hy]
    split
    · exact hmap
    cases Kind.ofAvro? name with
    | some kind => exact hprimitive kind
    | none => exact follows_reference members name
  cases text? members "logicalType" with
  | none => exact hname
  | some logical =>
    dsimp only
    split
    · exact hmap
    cases Kind.ofLogical? logical with
    | some kind => exact hprimitive kind
    | none => exact hname

theorem follows_union (hd : depth ≤ limit) (items : List Json) :
    Follows space (union limit depth level items) (readBranches inner space items) := by
  unfold union readBranches
  rw [guard_eq hd, pure_bind]
  rcases items.filter (!isNullBranch ·) with _ | ⟨single, _ | ⟨second, rest⟩⟩
  · exact follows_ofExcept _
  · exact follows_bind (h.node space single) fun a => follows_pure _
  · refine follows_bind (follows_mapM (fun branch => ?_) _) fun types => ?_
    · exact follows_bind (h.node space branch) fun a => follows_pure _
    · exact follows_bind (follows_ofExcept _) fun type => follows_pure _

theorem follows_addFields (r : Record) (nodes : List Json) :
    Follows space (addFields level r nodes) (readFields inner space r nodes) := by
  induction nodes generalizing r with
  | nil => exact follows_pure r
  | cons node rest ih =>
    refine follows_bind (h.field space node) fun f => ?_
    exact follows_bind (follows_ofExcept _) fun s => ih s

theorem follows_record (hd : depth ≤ limit) (members : Json.Members) :
    Follows space (record limit depth level members) (readRecord inner space members) := by
  unfold record readRecord
  rw [guard_eq hd, pure_bind]
  refine follows_bind (follows_ofExcept _) fun name => ?_
  dsimp only
  cases (Json.Members.get? members "fields").bind Json.array? with
  | none => exact follows_ofExcept _
  | some fields =>
    refine follows_bind (follows_enter (follows_addFields h _ fields)) fun r => ?_
    exact follows_bind (follows_register members _ _) fun _ => follows_pure r

theorem follows_object (hd : depth ≤ limit) (members : Json.Members) :
    Follows space (object limit depth level members) (readObject inner space members) := by
  unfold object readObject
  -- both look under the key of the type, and refuse all but names, lists and objects
  rcases Json.Members.get? members "type" with _ | _ | _ | _ | _ | name | items | type
  case some.string =>
    by_cases hrecord : name = "record"
    · subst hrecord
      exact follows_bind (follows_record h hd members) fun r => follows_pure _
    by_cases harray : name = "array"
    · subst harray
      cases Json.Members.get? members "items" with
      | none => exact follows_ofExcept _
      | some items => exact follows_bind (h.node space items) fun a => follows_pure _
    · simp only
      exact follows_bind (follows_scalar h members name) fun type => follows_pure _
  case some.array => exact h.union space items
  case some.object => exact h.node space (.object type)
  all_goals exact follows_ofExcept _

theorem follows_node (hd : depth ≤ limit) (json : Json) :
    Follows space (node limit depth level json) (readNode inner space json) := by
  unfold node
  rw [guard_eq hd, pure_bind]
  cases json with
  | string name => exact follows_bind (follows_scalar h [] name) fun type => follows_pure _
  | array items => exact follows_union h hd items
  | object members => exact follows_object h hd members
  | null | bool _ | int _ | float _ => exact follows_ofExcept _

theorem follows_field (hd : depth ≤ limit) (json : Json) :
    Follows space (field limit depth level json) (readField inner space json) := by
  unfold field
  rw [guard_eq hd, pure_bind]
  cases json with
  | object members =>
    refine follows_bind (follows_ofExcept _) fun name => ?_
    exact follows_bind (follows_object h hd members) fun a => follows_pure _
  | null | bool _ | int _ | float _ | string _ | array _ => exact follows_ofExcept _

end

/-- The readers at a depth do what the readers do that may go as deep as the limit allows. -/
theorem follows_level (limit depth : Nat) :
    (level limit depth).Follows (inner limit (limit + 1 - depth)) := by
  unfold level
  generalize hleft : limit + 1 - depth = left
  -- by induction on the levels that are left, as both are built from what is one level deeper
  induction left generalizing depth with
  | zero => exact ⟨fun _ _ _ => rfl, fun _ _ _ => rfl, fun _ _ _ => rfl⟩
  | succ left ih =>
    have hinner := ih (depth + 1) (by omega)
    have hd : depth ≤ limit := by omega
    exact ⟨fun _ => follows_node hinner hd, fun _ => follows_union hinner hd,
      fun _ => follows_field hinner hd⟩

/-! ## Whole documents -/

/-- The walk before anything is read. -/
def start : Walk := ⟨[], none⟩

/-- The result of a walk, without what it leaves behind. -/
def outcome {α : Type} : EStateM.Result SchemaError Walk α → Except SchemaError α
  | .ok a _ => .ok a
  | .error e _ => .error e

theorem Follows.outcome_eq {α : Type} {walking : Walking α} {reading : Reading α}
    (h : Follows none walking reading) : outcome (walking start) = run reading := by
  rw [start, h, run]
  cases reading [] <;> rfl

/-- The type that a document describes is what a walk through its node gives. -/
theorem ofWire_eq (limit : Nat) (document : Json) :
    DataType.ofWire limit document =
      outcome (node limit 0 (level limit 1) document start) := by
  exact (follows_node (follows_level limit 1) (Nat.zero_le _) document).outcome_eq.symm

theorem fieldOfWire_eq (limit : Nat) (document : Json) :
    Field.ofWire limit document =
      outcome (field limit 0 (level limit 1) document start) := by
  exact (follows_field (follows_level limit 1) (Nat.zero_le _) document).outcome_eq.symm

theorem ofMembers_eq {limit : Nat} {members : Json.Members}
    (h : text? members "type" = some "record") :
    Record.ofMembers limit members =
      outcome (record limit 0 (level limit 1) members start) := by
  rw [(follows_record (follows_level limit 1) (Nat.zero_le _) members).outcome_eq,
    Record.ofMembers, h]
  rfl

end Walk

end AvroSchema
