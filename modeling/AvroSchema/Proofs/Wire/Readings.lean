import AvroSchema.Proofs.Types.Admissible
import AvroSchema.Wire.Reader
import AvroSchema.Wire.Writer

/-!
# What Readings Give

A reading fails or gives a result together with the table of definitions that it leaves behind.
`Wire.Gives` states the second case, and the lemmas of this module characterize it for the composed
readings and for every shape of node that writing produces: a reading of such a node gives a result
exactly if the readings of the nodes inside it do.

* `Wire.gives_bind`, `Wire.gives_mapM_cons`: readings one after the other.
* `Wire.gives_node_string`: a name gives the type that it means.
* `Wire.gives_node_wire`: a primitive type that is written out gives itself and is defined.
* `Wire.gives_readBranches_null_cons`: a leading null branch makes the other branches nullable.
-/

namespace AvroSchema

namespace Wire

/-! ## Composed readings -/

/-- Nothing follows a failure. -/
private theorem except_error_bind {ε α β : Type} {e : ε} {f : α → Except ε β} :
    ((.error e : Except ε α) >>= f) = .error e := rfl

/-- A reading of some definitions gives a result and leaves definitions behind. -/
def Gives {α : Type} (reading : Reading α) (table : Definitions) (a : α) (left : Definitions) :
    Prop :=
  reading table = .ok a left

section

variable {α β : Type} {table left : Definitions}

@[simp]
theorem gives_pure {a b : α} :
    Gives (pure a : Reading α) table b left ↔ b = a ∧ left = table := by
  simp only [Gives, pure, EStateM.pure, EStateM.Result.ok.injEq]
  exact and_congr eq_comm eq_comm

/-- Two readings give a result one after the other. -/
@[simp]
theorem gives_bind {x : Reading α} {f : α → Reading β} {b : β} :
    Gives (x >>= f) table b left ↔
      ∃ a between, Gives x table a between ∧ Gives (f a) between b left := by
  simp only [Gives, bind, EStateM.bind]
  -- the second reading starts with what the first one leaves, if that one succeeds
  cases x table with
  | ok a between => simp [and_assoc]
  | error e between => simp

@[simp]
theorem gives_map {x : Reading α} {f : α → β} {b : β} :
    Gives (f <$> x) table b left ↔ ∃ a, Gives x table a left ∧ b = f a := by
  rw [map_eq_pure_bind, gives_bind]
  simp only [gives_pure]
  constructor
  · rintro ⟨a, _, ha, rfl, rfl⟩
    exact ⟨a, ha, rfl⟩
  · rintro ⟨a, ha, rfl⟩
    exact ⟨a, left, ha, rfl, rfl⟩

@[simp]
theorem not_gives_throw {e : SchemaError} {a : α} :
    ¬ Gives (throw e : Reading α) table a left := nofun

@[simp]
theorem gives_lift {x : Except SchemaError α} {a : α} :
    Gives (lift x) table a left ↔ x = .ok a ∧ left = table := by
  cases x with
  | error e => exact iff_of_false not_gives_throw nofun
  | ok b =>
    simp only [lift, gives_pure, Except.ok.injEq]
    exact and_congr_left' eq_comm

@[simp]
theorem gives_get {a : Definitions} :
    Gives (get : Reading Definitions) table a left ↔ a = table ∧ left = table :=
  gives_pure (a := table)

@[simp]
theorem gives_modify {f : Definitions → Definitions} {a : Unit} :
    Gives (modify f : Reading Unit) table a left ↔ left = f table := by
  constructor
  · rintro ⟨⟩
    rfl
  · rintro rfl
    rfl

@[simp]
theorem gives_mapM_nil {f : α → Reading β} {bs : List β} :
    Gives ([].mapM f) table bs left ↔ bs = [] ∧ left = table := gives_pure

/-- Reading the items of a list one after the other. -/
@[simp]
theorem gives_mapM_cons {f : α → Reading β} {a : α} {as : List α} {bs : List β} :
    Gives ((a :: as).mapM f) table bs left ↔
      ∃ b between rest, Gives (f a) table b between ∧ Gives (as.mapM f) between rest left ∧
        bs = b :: rest := by
  rw [List.mapM_cons]
  simp only [gives_bind, gives_pure]
  constructor
  · rintro ⟨b, between, hb, rest, _, hr, rfl, rfl⟩
    exact ⟨b, between, rest, hb, hr, rfl⟩
  · rintro ⟨b, between, rest, hb, hr, rfl⟩
    exact ⟨b, between, hb, rest, left, hr, rfl, rfl⟩

/-- A list is read into as many results as it has items. -/
theorem length_of_gives_mapM {f : α → Reading β} {as : List α} {bs : List β}
    (h : Gives (as.mapM f) table bs left) : bs.length = as.length := by
  induction as generalizing table bs with
  | nil => simp [(gives_mapM_nil.1 h).1]
  | cons a as ih =>
    obtain ⟨b, between, rest, -, hr, rfl⟩ := gives_mapM_cons.1 h
    simp [ih hr]

end

/-! ## Names -/

/-- A name is tried in the enclosing namespace first. -/
theorem resolve?_eq_some_iff {table : Definitions} {space : Option String} {name : String}
    {t : DataType} :
    resolve? table space name = some t ↔
      table.find? (fullName space name) = some t ∨
        table.find? (fullName space name) = none ∧ table.find? name = some t := by
  unfold resolve?
  cases table.find? (fullName space name) <;> simp

/-- The type that a name means where a type is expected: a built-in type, or one that is defined. -/
def meaning? (table : Definitions) (space : Option String) (name : String) : Option DataType :=
  if name = "map" then none
  else match Kind.ofAvro? name with
    | some kind => (Primitive.ofKind? kind).map .primitive
    | none => resolve? table space name

section

variable {inner : Inner} {space : Option String} {members : Json.Members} {name : String}
  {table left : Definitions} {t : DataType}

theorem gives_readReference :
    Gives (readReference space members name) table t left ↔
      resolve? table space name = some t ∧ left = table := by
  unfold readReference
  simp only [gives_bind, gives_get]
  constructor
  · rintro ⟨_, _, ⟨rfl, rfl⟩, h⟩
    split at h
    · next found hf =>
      obtain ⟨rfl, rfl⟩ := gives_pure.1 h
      exact ⟨hf, rfl⟩
    · exact absurd (gives_lift.1 h).1 nofun
  · rintro ⟨h, rfl⟩
    exact ⟨_, _, ⟨rfl, rfl⟩, by simp [h]⟩

/-- A node that has nothing but a name gives what the name means. -/
theorem gives_readNamed_bare (hl : text? members "logicalType" = none)
    (hv : Json.Members.get? members "values" = none)
    (hs : Json.Members.get? members "symbols" = none)
    (hz : Json.Members.get? members "size" = none) :
    Gives (readNamed inner space members name) table t left ↔
      meaning? table space name = some t ∧ left = table := by
  unfold readNamed meaning?
  rw [hl]
  by_cases hm : name = "map"
  · -- a map would need the node of its values
    simp [hm, readMap, hv, refuse]
  simp only [hm, if_false]
  cases hk : Kind.ofAvro? name with
  | none => exact gives_readReference
  | some kind =>
    -- enumerations and fixed types lack their parameters, and no other kind is named
    have hsym : symbols members = .error (.unrecognized .symbolsMissing) := by
      simp [symbols, hs, refuse]
    have hint : integer members "size" = .error (.unrecognized (.integerMissing "size")) := by
      simp [integer, hz, refuse]
    unfold Kind.ofAvro? at hk
    split at hk <;> cases hk <;>
      simp [readPrimitive, primitive, Primitive.ofKind?, Kind.isPlain, hsym, hint,
        except_error_bind, eq_comm, and_comm]

end

/-! ## Nodes -/

section

variable {limit levels : Nat} {space : Option String} {table left : Definitions}
  {t : DataType} {nullable : Bool}

/-- A reader without a level left gives nothing. -/
theorem not_gives_node_zero {json : Json} {a : DataType × Bool} :
    ¬ Gives (node limit 0 space json) table a left := nofun

/-- A name gives the type that it means. -/
theorem gives_node_string {name : String} :
    Gives (node limit (levels + 1) space (.string name)) table (t, nullable) left ↔
      meaning? table space name = some t ∧ nullable = false ∧ left = table := by
  -- a name is read like a node without any members
  simp only [node, readNode, bind_pure_comp, gives_map,
    gives_readNamed_bare (show text? [] "logicalType" = none from rfl) rfl rfl rfl,
    Prod.mk.injEq]
  constructor
  · rintro ⟨u, ⟨h, rfl⟩, rfl, rfl⟩
    exact ⟨h, rfl, rfl⟩
  · rintro ⟨h, rfl, rfl⟩
    exact ⟨t, ⟨h, rfl⟩, rfl, rfl⟩

theorem gives_node_array {items : Json} :
    Gives (node limit (levels + 1) space (.object [("items", items), ("type", .string "array")]))
        table (t, nullable) left ↔
      ∃ u other, Gives (node limit levels space items) table (u, other) left ∧
        t = .array u ∧ nullable = false := by
  simp [node, readNode, readObject, Json.Members.get?_cons]

theorem gives_node_map {values : Json} :
    Gives (node limit (levels + 1) space
        (.object [("logicalType", .string "MAP"), ("type", .string "map"), ("values", values)]))
        table (t, nullable) left ↔
      ∃ u other, Gives (node limit levels space values) table (u, other) left ∧
        t = .map u ∧ nullable = false := by
  simp [node, readNode, readObject, readNamed, readMap, text?, Json.string?, Json.Members.get?_cons]

end

/-! ## Primitive types -/

end Wire

namespace Kind

/-- The logical type of a kind tells it apart from all others. -/
theorem ofLogical?_of_tag? {kind : Kind} {tag : WireTag} (h : kind.tag? = some tag) :
    ofLogical? tag.logical = some kind := by
  cases kind <;> cases h <;> rfl

/-- No kind is tagged as a record, an array or a map. -/
theorem tag?_ne {kind : Kind} {tag : WireTag} (h : kind.tag? = some tag) :
    tag.avro ≠ "record" ∧ tag.avro ≠ "array" ∧ tag.logical ≠ "MAP" := by
  cases kind <;> cases h <;> decide

/-- Every kind but `AnyPrimitive` has tags. -/
theorem exists_tag? {kind : Kind} (h : kind ≠ .anyPrimitive) : ∃ tag, kind.tag? = some tag := by
  cases kind <;> first | exact ⟨_, rfl⟩ | exact absurd rfl h

end Kind

namespace Primitive

/-- The members of the node of a type other than `AnyPrimitive`. -/
def members (p : Primitive) : Json.Members :=
  match p.node with
  | .object members => members
  | _ => []

theorem node_eq (p : Primitive) : p.node = .object p.members := by
  cases p with
  | plain kind h => cases kind <;> rfl
  | _ => rfl

theorem get?_members_type {p : Primitive} {tag : WireTag} (h : p.kind.tag? = some tag) :
    Json.Members.get? p.members "type" = some (.string tag.avro) := by
  cases p with
  | plain kind hp => cases kind <;> cases h <;> rfl
  | _ => cases h; rfl

theorem text?_members_logicalType {p : Primitive} {tag : WireTag} (h : p.kind.tag? = some tag) :
    Wire.text? p.members "logicalType" = some tag.logical := by
  cases p with
  | plain kind hp => cases kind <;> cases h <;> rfl
  | _ => cases h; rfl

/-- The node of a named type has its escaped name. -/
theorem text?_members_name {p : Primitive} {name : String} (h : p.wireName? = some name) :
    Wire.text? p.members "name" = some name := by
  cases p with
  | plain kind hp =>
    cases kind <;> cases h
    rfl
  | fixed size n => cases h; rfl
  | enum n symbols => cases h; rfl
  | _ => cases h

/-- Named primitive types are fixed types, enumerations and the UUID type. -/
theorem kind_of_wireName? {p : Primitive} {name : String} (h : p.wireName? = some name) :
    p.kind = .fixed ∨ p.kind = .enum ∨ p.kind = .uuid := by
  cases p with
  | plain kind hp =>
    cases kind <;> cases h
    exact Or.inr (Or.inr rfl)
  | fixed size n => exact Or.inl rfl
  | enum n symbols => exact Or.inr (Or.inl rfl)
  | _ => cases h

theorem kind_of_wireName?_eq_none {p : Primitive} (h : p.wireName? = none) :
    p.kind ≠ .fixed ∧ p.kind ≠ .enum ∧ p.kind ≠ .uuid := by
  cases p with
  | plain kind hp => cases kind <;> cases h <;> cases hp <;> simp [kind]
  | fixed size n => cases h
  | enum n symbols => cases h
  | _ => simp [kind]

/-- A type is written out as its node, except for `AnyPrimitive`. -/
theorem wire_cases (p : Primitive) :
    p = .plain .anyPrimitive rfl ∨ p.kind ≠ .anyPrimitive ∧ p.wire = p.node := by
  cases p with
  | plain kind h => cases kind <;> first | exact Or.inl rfl | exact Or.inr ⟨nofun, rfl⟩
  | _ => exact Or.inr ⟨nofun, rfl⟩

/-- The definitions after a type, which is defined if it has a name. -/
def defined (space : Option String) (p : Primitive) (table : Definitions) : Definitions :=
  match p.wireName? with
  | some name => table.define (fullName space name) (.primitive p)
  | none => table

end Primitive

namespace Wire

/-- An integer under a key is read if it is a natural number of at most 32 bits. -/
theorem integer_of_get? {members : Json.Members} {key : String} {n : Nat}
    (h : Json.Members.get? members key = some (.int n)) (hn : n < 0x100000000) :
    integer members key = .ok n := by
  have hb : Json.int64? (.int n) = some (n : Int) := by
    rw [Json.int64?, if_pos]
    omega
  rw [integer, h, Option.bind_some, hb]

theorem mapM_string (symbols : List String) :
    ((symbols.map Json.string).mapM fun item : Json =>
      match item.string? with
      | some symbol => Except.ok symbol
      | none => refuse .symbolNotString) = .ok symbols := by
  induction symbols with
  | nil => rfl
  | cons symbol rest ih =>
    rw [List.map_cons, List.mapM_cons, ih]
    rfl

/-- The node of an admissible type has the parameters of the type. -/
theorem primitive_members {p : Primitive} (hp : p.Admissible) :
    primitive p.kind p.members = .ok p := by
  -- the parameters are read in the order in which the reader looks for them
  cases p with
  | plain kind h => simp [primitive, Primitive.kind, Primitive.ofKind?, h]
  | varchar length =>
    have hl : integer (Primitive.varchar length).members "length" = .ok length :=
      integer_of_get? rfl hp.2
    simp only [primitive, Primitive.kind, Primitive.ofKind?, Kind.isPlain]
    refine except_bind_eq_ok_iff.2 ⟨_, hl, ?_⟩
    exact Primitive.varcharOf_eq_ok_iff.2 ⟨length, rfl, rfl, hp⟩
  | nvarchar length =>
    have hl : integer (Primitive.nvarchar length).members "length" = .ok length :=
      integer_of_get? rfl hp.2
    simp only [primitive, Primitive.kind, Primitive.ofKind?, Kind.isPlain]
    refine except_bind_eq_ok_iff.2 ⟨_, hl, ?_⟩
    exact Primitive.nvarcharOf_eq_ok_iff.2 ⟨length, rfl, rfl, hp⟩
  | decimal precision scale =>
    obtain ⟨hpos, hmax, hle⟩ := id hp
    have hs : integer (Primitive.decimal precision scale).members "scale" = .ok scale :=
      integer_of_get? rfl (by omega)
    have hd : integer (Primitive.decimal precision scale).members "precision" = .ok precision :=
      integer_of_get? rfl (by omega)
    simp only [primitive, Primitive.kind, Primitive.ofKind?, Kind.isPlain]
    refine except_bind_eq_ok_iff.2 ⟨_, hs, ?_⟩
    refine except_bind_eq_ok_iff.2 ⟨_, hd, ?_⟩
    exact Primitive.decimalOf_eq_ok_iff.2 ⟨precision, scale, rfl, rfl, rfl, hp⟩
  | fixed size name =>
    have hsize : size < 0x100000000 := by
      have := hp.2.1
      omega
    have hs : integer (Primitive.fixed size name).members "size" = .ok size :=
      integer_of_get? rfl hsize
    simp only [primitive, Primitive.kind, Primitive.ofKind?, Kind.isPlain]
    refine except_bind_eq_ok_iff.2 ⟨_, hs, ?_⟩
    refine except_bind_eq_ok_iff.2 ⟨name, rfl, ?_⟩
    exact Primitive.fixedOf_eq_ok_iff.2 ⟨size, rfl, rfl, hp⟩
  | enum name symbols =>
    simp only [primitive, Primitive.kind, Primitive.ofKind?, Kind.isPlain]
    refine except_bind_eq_ok_iff.2 ⟨symbols, mapM_string symbols, ?_⟩
    refine except_bind_eq_ok_iff.2 ⟨name, rfl, ?_⟩
    exact Primitive.enumOf_eq_ok_iff.2 ⟨rfl, hp⟩

section

variable {limit levels : Nat} {space : Option String} {table left : Definitions}
  {t : DataType} {nullable : Bool}

/-- Reading the members of an admissible type defines the type if it has a name. -/
theorem gives_readPrimitive {p : Primitive} (hp : p.Admissible) :
    Gives (readPrimitive space p.kind p.members) table t left ↔
      t = .primitive p ∧ left = p.defined space table := by
  have hprim := primitive_members hp
  unfold Primitive.defined
  -- the reader defines by kind what the writer names by kind
  cases hn : p.wireName? with
  | none =>
    obtain ⟨hf, he, hu⟩ := Primitive.kind_of_wireName?_eq_none hn
    have hread : readPrimitive space p.kind p.members = pure (.primitive p) := by
      unfold readPrimitive
      rw [hprim]
      split
      all_goals first | contradiction | rfl
    rw [hread, gives_pure]
  | some name =>
    have hd := Primitive.text?_members_name hn
    have hread : readPrimitive space p.kind p.members =
        (do define p.members space (.primitive p); pure (.primitive p)) := by
      unfold readPrimitive
      rw [hprim]
      rcases Primitive.kind_of_wireName? hn with hk | hk | hk
      all_goals
        rw [hk]
        rfl
    rw [hread]
    simp [define, hd, and_comm]

/-- A primitive type that is written out gives itself, and is defined if it has a name. -/
theorem gives_node_primitive {p : Primitive} (hp : p.Admissible) (hk : p.kind ≠ .anyPrimitive) :
    Gives (node limit (levels + 1) space p.node) table (t, nullable) left ↔
      t = .primitive p ∧ nullable = false ∧ left = p.defined space table := by
  -- the logical type of the node leads back to the kind
  obtain ⟨tag, htag⟩ := Kind.exists_tag? hk
  obtain ⟨hrecord, harray, hmap⟩ := Kind.tag?_ne htag
  have hread : readObject (inner limit levels) space p.members =
      Functor.map (·, false) (readPrimitive space p.kind p.members) := by
    simp [readObject, Primitive.get?_members_type htag, readNamed,
      Primitive.text?_members_logicalType htag, hmap, Kind.ofLogical?_of_tag? htag]
  rw [Primitive.node_eq]
  change Gives (readObject (inner limit levels) space p.members) table (t, nullable) left ↔ _
  rw [hread, gives_map]
  simp only [gives_readPrimitive hp, Prod.mk.injEq]
  constructor
  · rintro ⟨_, ⟨rfl, rfl⟩, rfl, rfl⟩
    exact ⟨rfl, rfl, rfl⟩
  · rintro ⟨rfl, rfl, rfl⟩
    exact ⟨_, ⟨rfl, rfl⟩, rfl, rfl⟩

end

/-! ## Branches -/

/-- Reads the type of a node, whatever its nullability. -/
def readType (inner : Inner) (space : Option String) (json : Json) : Reading DataType := do
  return (← inner.node space json).1

section

variable {inner : Inner} {limit levels : Nat} {space : Option String} {items : List Json}
  {table left : Definitions} {t : DataType} {nullable : Bool}

@[simp]
theorem gives_readType {json : Json} :
    Gives (readType inner space json) table t left ↔
      ∃ other, Gives (inner.node space json) table (t, other) left := by
  simp only [readType, bind_pure_comp, gives_map, Prod.exists]
  constructor
  · rintro ⟨_, other, h, rfl⟩
    exact ⟨other, h⟩
  · rintro ⟨other, h⟩
    exact ⟨t, other, h, rfl⟩

/-- A list without branches other than null gives nothing. -/
theorem not_gives_readBranches_nil (h : items.filter (!isNullBranch ·) = []) :
    ¬ Gives (readBranches inner space items) table (t, nullable) left := by
  unfold readBranches
  simp [h, refuse]

/-- A single branch other than null gives its type. -/
theorem gives_readBranches_single {single : Json}
    (h : items.filter (!isNullBranch ·) = [single]) :
    Gives (readBranches inner space items) table (t, nullable) left ↔
      ∃ other, Gives (inner.node space single) table (t, other) left ∧
        nullable = (items.any isNullBranch || other) := by
  unfold readBranches
  simp only [h, gives_bind, gives_pure, Prod.exists, Prod.mk.injEq]
  constructor
  · rintro ⟨_, other, _, hg, ⟨rfl, rfl⟩, rfl⟩
    exact ⟨other, hg, rfl⟩
  · rintro ⟨other, hg, rfl⟩
    exact ⟨t, other, left, hg, ⟨rfl, rfl⟩, rfl⟩

/-- Several branches other than null give the union of their types. -/
theorem gives_readBranches_several (h : 2 ≤ (items.filter (!isNullBranch ·)).length) :
    Gives (readBranches inner space items) table (t, nullable) left ↔
      ∃ ts, Gives ((items.filter (!isNullBranch ·)).mapM (readType inner space)) table ts left ∧
        DataType.unionOf ts = .ok t ∧ nullable = items.any isNullBranch := by
  unfold readBranches
  generalize items.filter (!isNullBranch ·) = several at h ⊢
  match several, h with
  | _ :: _ :: _, _ =>
    simp only [gives_bind, gives_lift, gives_pure, Prod.mk.injEq]
    constructor
    · rintro ⟨ts, _, hts, _, _, ⟨hu, rfl⟩, ⟨rfl, rfl⟩, rfl⟩
      exact ⟨ts, hts, hu, rfl⟩
    · rintro ⟨ts, hts, hu, rfl⟩
      exact ⟨ts, left, hts, t, left, ⟨hu, rfl⟩, ⟨rfl, rfl⟩, rfl⟩

/-- A leading null branch makes what the other branches give nullable. -/
theorem gives_readBranches_null_cons :
    Gives (readBranches inner space (.string "null" :: items)) table (t, nullable) left ↔
      nullable = true ∧ ∃ other, Gives (readBranches inner space items) table (t, other) left := by
  have hfilter : (Json.string "null" :: items).filter (!isNullBranch ·) =
      items.filter (!isNullBranch ·) := rfl
  have hany : (Json.string "null" :: items).any isNullBranch = true := rfl
  -- the null branch is left out, so the same one of three cases applies to both lists
  rcases hs : items.filter (!isNullBranch ·) with _ | ⟨single, _ | ⟨second, rest⟩⟩
  · refine iff_of_false (not_gives_readBranches_nil (hfilter.trans hs)) ?_
    rintro ⟨-, other, h⟩
    exact not_gives_readBranches_nil hs h
  · rw [gives_readBranches_single (hfilter.trans hs), hany]
    simp only [gives_readBranches_single hs, Bool.true_or]
    constructor
    · rintro ⟨other, hg, hn⟩
      exact ⟨hn, _, other, hg, rfl⟩
    · rintro ⟨hn, _, other, hg, -⟩
      exact ⟨other, hg, hn⟩
  · have hlen : 2 ≤ (items.filter (!isNullBranch ·)).length := by simp [hs]
    rw [gives_readBranches_several (by rw [hfilter]; exact hlen), hany, hfilter]
    simp only [gives_readBranches_several hlen]
    constructor
    · rintro ⟨ts, hts, hu, hn⟩
      exact ⟨hn, _, ts, hts, hu, rfl⟩
    · rintro ⟨hn, _, ts, hts, hu, -⟩
      exact ⟨ts, hts, hu, hn⟩

/-- A list is read alike as a node and as the branches of a node. -/
theorem branches_eq_node (limit levels : Nat) (space : Option String) (items : List Json) :
    branches limit levels space items = node limit levels space (.array items) := by
  cases levels with
  | zero => rfl
  | succ levels => rfl

@[simp]
theorem inner_node : (Wire.inner limit levels).node = node limit levels := rfl

@[simp]
theorem inner_field : (Wire.inner limit levels).field = field limit levels := rfl

/-- Types without a name that are written out give themselves and define nothing. -/
theorem gives_mapM_unnamed {ps : List Primitive} {ts : List DataType}
    (h : ∀ p ∈ ps, p.Admissible ∧ p.kind ≠ .anyPrimitive ∧ p.wireName? = none) :
    Gives ((ps.map Primitive.node).mapM (readType (Wire.inner limit (levels + 1)) space)) table ts
        left ↔
      ts = ps.map .primitive ∧ left = table := by
  induction ps generalizing ts table with
  | nil => simp
  | cons p ps ih =>
    obtain ⟨⟨ha, hk, hn⟩, hps⟩ := List.forall_mem_cons.1 h
    have hd : p.defined space table = table := by simp [Primitive.defined, hn]
    simp only [List.map_cons, gives_mapM_cons, gives_readType, ih hps, inner_node,
      gives_node_primitive ha hk, hd]
    constructor
    · rintro ⟨_, _, _, ⟨_, rfl, rfl, rfl⟩, ⟨rfl, rfl⟩, rfl⟩
      exact ⟨rfl, rfl⟩
    · rintro ⟨rfl, rfl⟩
      exact ⟨_, left, _, ⟨false, rfl, rfl, rfl⟩, ⟨rfl, rfl⟩, rfl⟩

/-- The list of its members gives `AnyPrimitive`. -/
theorem gives_node_anyPrimitive :
    Gives (node limit (levels + 2) space
        (.array (Primitive.anyPrimitiveMembers.map Primitive.node))) table (t, nullable) left ↔
      t = .plain .anyPrimitive ∧ nullable = false ∧ left = table := by
  have hfilter : (Primitive.anyPrimitiveMembers.map Primitive.node).filter (!isNullBranch ·) =
      Primitive.anyPrimitiveMembers.map Primitive.node := rfl
  have hany : (Primitive.anyPrimitiveMembers.map Primitive.node).any isNullBranch = false := rfl
  have hmembers : ∀ p ∈ Primitive.anyPrimitiveMembers,
      p.Admissible ∧ p.kind ≠ .anyPrimitive ∧ p.wireName? = none := by
    simp [Primitive.anyPrimitiveMembers, Kind.anyPrimitiveMembers, Primitive.ofKind?, Kind.isPlain,
      Primitive.Admissible, Primitive.kind, Primitive.wireName?]
  have hunion : DataType.unionOf (Primitive.anyPrimitiveMembers.map .primitive) =
      .ok (.plain .anyPrimitive) := rfl
  have hnode : node limit (levels + 2) space
      (.array (Primitive.anyPrimitiveMembers.map Primitive.node)) =
      readBranches (Wire.inner limit (levels + 1)) space
        (Primitive.anyPrimitiveMembers.map Primitive.node) := rfl
  -- the members give a union, which is recognized as `AnyPrimitive`
  rw [hnode, gives_readBranches_several (by rw [hfilter]; decide), hfilter, hany]
  simp only [gives_mapM_unnamed hmembers]
  constructor
  · rintro ⟨_, ⟨rfl, rfl⟩, hu, rfl⟩
    rw [hunion, Except.ok.injEq] at hu
    exact ⟨hu.symm, rfl, rfl⟩
  · rintro ⟨rfl, rfl, rfl⟩
    exact ⟨_, ⟨rfl, rfl⟩, hunion, rfl⟩

/-- A primitive type that is written out gives itself, and is defined if it has a name. -/
theorem gives_node_wire {p : Primitive} (hp : p.Admissible) :
    Gives (node limit (levels + 2) space p.wire) table (t, nullable) left ↔
      t = .primitive p ∧ nullable = false ∧ left = p.defined space table := by
  rcases p.wire_cases with rfl | ⟨hk, hw⟩
  · exact gives_node_anyPrimitive
  · rw [hw]
    exact gives_node_primitive hp hk

/-- What a primitive type that is written out gives does not depend on how deep the reader may
go. -/
theorem eq_of_gives_node_wire {p : Primitive} (hp : p.Admissible)
    (h : Gives (node limit levels space p.wire) table (t, nullable) left) :
    t = .primitive p ∧ nullable = false ∧ left = p.defined space table := by
  match levels, h with
  | 0, h => exact absurd h not_gives_node_zero
  | 1, h =>
    rcases p.wire_cases with rfl | ⟨hk, hw⟩
    · -- the members of `AnyPrimitive` lie one level deeper
      have hr : Gives (readBranches (Wire.inner limit 0) space
          (Primitive.anyPrimitiveMembers.map Primitive.node)) table (t, nullable) left := h
      have hfilter : (Primitive.anyPrimitiveMembers.map Primitive.node).filter (!isNullBranch ·) =
          Primitive.anyPrimitiveMembers.map Primitive.node := rfl
      obtain ⟨first, rest, hm⟩ : ∃ first rest, Primitive.anyPrimitiveMembers = first :: rest :=
        ⟨_, _, rfl⟩
      obtain ⟨ts, hts, -⟩ := (gives_readBranches_several (by rw [hfilter]; decide)).1 hr
      rw [hfilter, hm, List.map_cons, gives_mapM_cons] at hts
      obtain ⟨u, _, _, hu, -⟩ := hts
      obtain ⟨other, hu⟩ := gives_readType.1 hu
      rw [inner_node] at hu
      exact absurd hu not_gives_node_zero
    · rw [hw] at h
      exact (gives_node_primitive hp hk).1 h
  | levels + 2, h => exact (gives_node_wire hp).1 h

end

end Wire

end AvroSchema
