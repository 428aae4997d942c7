import Mathlib.Data.Nat.Find
import Mathlib.Logic.ExistsUnique
import AvroSchema.Proofs.Wire.Provenance

/-!
# The Nesting Limit

Readers without a level left refuse everything, so a reader with fewer levels either fails for that
reason or does what a reader with more levels does: they read the same nodes in the same order, and
the first failure ends both. As every level leads into an array or an object of the document, the
limit is not reached if it is at least the depth of the document.

Both are relations between readings that go through all readers (`Wire.Compatible`). The limit
therefore only cuts outcomes off: there is one threshold for each document, and from there on the
outcome is the same.

* `Wire.Compatible.inner`: a compatible relation relates readers with more and fewer levels.
* `Wire.cut_inner`, `Wire.neverTooDeep_inner`: too few levels, and levels enough.
* `Wire.limitOnlyCuts_ofWire`: types, records, fields and value schemas of any document.
-/

namespace AvroSchema

/-! ## The depth of a value -/

namespace Json

mutual

/-- The number of nested arrays and objects in a value. -/
def depth : Json → Nat
  | .array items => depthItems items + 1
  | .object members => depthMembers members + 1
  | .null | .bool _ | .int _ | .float _ | .string _ => 0

/-- The largest depth of the items of an array. -/
def depthItems : List Json → Nat
  | [] => 0
  | item :: rest => max item.depth (depthItems rest)

/-- The largest depth of the values in an object. -/
def depthMembers : List (String × Json) → Nat
  | [] => 0
  | (_, value) :: rest => max value.depth (depthMembers rest)

end

/-- The items of an array are less deep than the array. -/
theorem depth_lt_of_mem {items : List Json} {item : Json} (h : item ∈ items) :
    item.depth < (array items).depth := by
  rw [depth, Nat.lt_succ_iff]
  induction items with
  | nil => cases h
  | cons first rest ih =>
    rw [depthItems]
    rcases List.mem_cons.1 h with rfl | h
    · exact Nat.le_max_left _ _
    · exact Nat.le_trans (ih h) (Nat.le_max_right _ _)

/-- The values in an object are less deep than the object. -/
theorem depth_lt_of_get? {members : Members} {key : String} {value : Json}
    (h : Members.get? members key = some value) : value.depth < (object members).depth := by
  rw [depth, Nat.lt_succ_iff]
  induction members with
  | nil => cases h
  | cons e rest ih =>
    obtain ⟨k, v⟩ := e
    rw [depthMembers]
    rw [Members.get?_cons] at h
    split at h
    · cases h
      exact Nat.le_max_left _ _
    · exact Nat.le_trans (ih h) (Nat.le_max_right _ _)

end Json

namespace Wire

/-! ## Results without a limit -/

/-- A result is not a failure because of the nesting limit. -/
def NotTooDeep {α : Type} (x : Except SchemaError α) : Prop :=
  ∀ limit, x ≠ .error (.nestingTooDeep limit)

theorem notTooDeep_ok {α : Type} (a : α) : NotTooDeep (.ok a) := fun _ => nofun

theorem notTooDeep_refuse {α : Type} (fault : NodeFault) :
    NotTooDeep (refuse fault : Except SchemaError α) := fun _ => nofun

theorem notTooDeep_invalid {α : Type} (type : Parametric) (fault : ParameterFault) :
    NotTooDeep (.error (.invalidParameter type fault) : Except SchemaError α) := fun _ => nofun

theorem notTooDeep_bind {α β : Type} {x : Except SchemaError α} {f : α → Except SchemaError β}
    (hx : NotTooDeep x) (hf : ∀ a, NotTooDeep (f a)) : NotTooDeep (x >>= f) := by
  cases x with
  | ok a => exact hf a
  | error e =>
    intro limit h
    exact hx limit (congrArg Except.error (Except.error.inj h))

theorem notTooDeep_mapM {α β : Type} {f : α → Except SchemaError β} (hf : ∀ a, NotTooDeep (f a))
    (as : List α) : NotTooDeep (as.mapM f) := by
  -- the first failure is that of one item
  induction as with
  | nil => exact notTooDeep_ok []
  | cons a as ih =>
    rw [List.mapM_cons]
    exact notTooDeep_bind (hf a) fun b => notTooDeep_bind ih fun bs => notTooDeep_ok (b :: bs)

theorem notTooDeep_integer (members : Json.Members) (key : String) :
    NotTooDeep (integer members key) := by
  unfold integer
  split
  · exact notTooDeep_ok _
  · exact notTooDeep_refuse _

theorem notTooDeep_logicalName (members : Json.Members) : NotTooDeep (logicalName members) := by
  unfold logicalName
  split
  · exact notTooDeep_ok _
  split
  · exact notTooDeep_ok _
  · exact notTooDeep_refuse _

theorem notTooDeep_symbols (members : Json.Members) : NotTooDeep (symbols members) := by
  unfold symbols
  split
  · exact notTooDeep_refuse _
  · refine notTooDeep_mapM (fun item => ?_) _
    split
    · exact notTooDeep_ok _
    · exact notTooDeep_refuse _

theorem notTooDeep_positive (type : Parametric) (quantity : String) (value : Int) :
    NotTooDeep (Primitive.positive type quantity value) := by
  unfold Primitive.positive
  split
  · exact notTooDeep_invalid _ _
  split
  · exact notTooDeep_invalid _ _
  · exact notTooDeep_ok _

theorem notTooDeep_requiredName (type : Parametric) (name : String) :
    NotTooDeep (Primitive.requiredName type name) := by
  unfold Primitive.requiredName
  split
  · exact notTooDeep_invalid _ _
  · exact notTooDeep_ok _

theorem notTooDeep_decimalOf (precision scale : Int) :
    NotTooDeep (Primitive.decimalOf precision scale) := by
  refine notTooDeep_bind (notTooDeep_positive _ _ _) fun digits => ?_
  dsimp only
  split
  · exact notTooDeep_invalid _ _
  split
  · exact notTooDeep_invalid _ _
  · exact notTooDeep_ok _

theorem notTooDeep_fixedOf (size : Int) (name : String) :
    NotTooDeep (Primitive.fixedOf size name) := by
  unfold Primitive.fixedOf
  split
  · exact notTooDeep_invalid _ _
  · exact notTooDeep_bind (notTooDeep_positive _ _ _) fun _ =>
      notTooDeep_bind (notTooDeep_requiredName _ _) fun _ => notTooDeep_ok _

theorem notTooDeep_enumOf (name : String) (symbols : List String) :
    NotTooDeep (Primitive.enumOf name symbols) := by
  refine notTooDeep_bind (notTooDeep_requiredName _ _) fun given => ?_
  dsimp only
  split
  · exact notTooDeep_invalid _ _
  split
  · exact notTooDeep_invalid _ _
  · exact notTooDeep_ok _

theorem notTooDeep_primitive (kind : Kind) (members : Json.Members) :
    NotTooDeep (primitive kind members) := by
  have hlength := notTooDeep_integer members "length"
  have hname := notTooDeep_logicalName members
  unfold primitive
  split
  · exact notTooDeep_ok _
  · exact notTooDeep_bind hlength fun _ =>
      notTooDeep_bind (notTooDeep_positive _ _ _) fun _ => notTooDeep_ok _
  · exact notTooDeep_bind hlength fun _ =>
      notTooDeep_bind (notTooDeep_positive _ _ _) fun _ => notTooDeep_ok _
  · -- the scale may be absent, but then the precision is read all the same
    have hprecision := fun scale => notTooDeep_bind (notTooDeep_integer members "precision")
      fun precision => notTooDeep_decimalOf precision scale
    dsimp only
    split
    · exact notTooDeep_bind (notTooDeep_integer members "scale") hprecision
    · exact hprecision 0
  · exact notTooDeep_bind (notTooDeep_symbols members) fun _ =>
      notTooDeep_bind hname fun _ => notTooDeep_enumOf _ _
  · exact notTooDeep_bind (notTooDeep_integer members "size") fun _ =>
      notTooDeep_bind hname fun _ => notTooDeep_fixedOf _ _

theorem notTooDeep_unionOf (members : List DataType) : NotTooDeep (DataType.unionOf members) := by
  unfold DataType.unionOf DataType.strictUnion
  split
  · exact notTooDeep_ok _
  split
  · exact notTooDeep_invalid _ _
  split
  · exact notTooDeep_invalid _ _
  · exact notTooDeep_ok _

theorem notTooDeep_addField (r : Record) (f : Field) : NotTooDeep (r.addField f) := by
  unfold Record.addField
  split
  · exact fun _ => nofun
  · exact notTooDeep_ok _

/-! ## Readings without a limit -/

/-- Whatever is defined, a reading does not fail because of the nesting limit. -/
def NeverTooDeep {α : Type} (reading : Reading α) : Prop :=
  ∀ table limit left, reading table ≠ .error (.nestingTooDeep limit) left

theorem neverTooDeep_pure {α : Type} (a : α) : NeverTooDeep (pure a) := fun _ _ _ => nofun

theorem neverTooDeep_lift {α : Type} {x : Except SchemaError α} (h : NotTooDeep x) :
    NeverTooDeep (lift x) := by
  cases x with
  | ok a => exact neverTooDeep_pure a
  | error e =>
    intro table limit left he
    cases he
    exact h limit rfl

theorem neverTooDeep_bind {α β : Type} {x : Reading α} {f : α → Reading β}
    (hx : NeverTooDeep x) (hf : ∀ a, NeverTooDeep (f a)) : NeverTooDeep (x >>= f) := by
  intro table limit left h
  simp only [bind, EStateM.bind] at h
  -- the failure is that of the first reading or that of the second one
  split at h
  · next a between _ => exact hf a between limit left h
  · next e between he =>
    cases h
    exact hx table limit left he

theorem neverTooDeep_define (members : Json.Members) (space : Option String) (t : DataType) :
    NeverTooDeep (define members space t) := by
  unfold define
  split
  · exact fun _ _ _ => nofun
  · exact neverTooDeep_pure ()

theorem neverTooDeep_readPrimitive (space : Option String) (kind : Kind)
    (members : Json.Members) : NeverTooDeep (readPrimitive space kind members) := by
  refine neverTooDeep_bind (neverTooDeep_lift (notTooDeep_primitive kind members)) fun p => ?_
  -- a type of a named kind is defined before it is given
  have hdefine := neverTooDeep_bind (neverTooDeep_define members space (.primitive p))
    fun _ => neverTooDeep_pure (DataType.primitive p)
  dsimp only
  split
  · exact hdefine
  · exact hdefine
  · exact hdefine
  · exact neverTooDeep_pure _

theorem neverTooDeep_readReference (space : Option String) (members : Json.Members)
    (name : String) : NeverTooDeep (readReference space members name) := by
  refine neverTooDeep_bind (fun _ _ _ => nofun) fun table => ?_
  split
  · exact neverTooDeep_pure _
  · exact neverTooDeep_lift (notTooDeep_refuse _)

/-! ## Relations that go through readers -/

/-- A relation between readings that goes through composed readings and through those that have
nothing to do with the limit. -/
structure Compatible (R : ∀ {α : Type}, Reading α → Reading α → Prop) : Prop where
  refl : ∀ {α : Type} {x : Reading α}, NeverTooDeep x → R x x
  bind : ∀ {α β : Type} {x y : Reading α} {f g : α → Reading β},
    R x y → (∀ a, R (f a) (g a)) → R (x >>= f) (y >>= g)

/-- The readings of all nodes up to some depth are related. -/
structure Inner.Related (R : ∀ {α : Type}, Reading α → Reading α → Prop) (depth : Nat)
    (i j : Inner) : Prop where
  node : ∀ space {json : Json}, json.depth < depth → R (i.node space json) (j.node space json)
  branches : ∀ space {items : List Json}, (Json.array items).depth < depth →
    R (i.branches space items) (j.branches space items)
  field : ∀ space {json : Json}, json.depth < depth → R (i.field space json) (j.field space json)

namespace Compatible

variable {R : ∀ {α : Type}, Reading α → Reading α → Prop} (hR : Compatible R)
include hR

theorem pure {α : Type} (a : α) : R (Pure.pure a) (Pure.pure a) := hR.refl (neverTooDeep_pure a)

theorem lift {α : Type} {x : Except SchemaError α} (h : NotTooDeep x) :
    R (Wire.lift x) (Wire.lift x) := hR.refl (neverTooDeep_lift h)

theorem refuse {α : Type} (fault : NodeFault) :
    R (Wire.lift (Wire.refuse fault) : Reading α) (Wire.lift (Wire.refuse fault)) :=
  hR.lift (notTooDeep_refuse fault)

theorem mapM {α β : Type} {f g : α → Reading β} {as : List α}
    (h : ∀ a ∈ as, R (f a) (g a)) : R (as.mapM f) (as.mapM g) := by
  induction as with
  | nil => exact hR.pure []
  | cons a as ih =>
    rw [List.mapM_cons, List.mapM_cons]
    refine hR.bind (h a (by simp)) fun b => ?_
    exact hR.bind (ih fun a ha => h a (List.mem_cons_of_mem _ ha)) fun bs => hR.pure (b :: bs)

section

variable {i j : Inner} {depth : Nat} (h : Inner.Related R depth i j) (space : Option String)
include h

theorem readMap {members : Json.Members}
    (hd : ∀ {key value}, Json.Members.get? members key = some value → value.depth < depth) :
    R (Wire.readMap i space members) (Wire.readMap j space members) := by
  unfold Wire.readMap
  split
  · exact hR.refuse _
  · next values hv => exact hR.bind (h.node space (hd hv)) fun a => hR.pure _

/-- Only the node of the values of a map is further inside. -/
theorem readNamed {members : Json.Members}
    (hd : ∀ {key value}, Json.Members.get? members key = some value → value.depth < depth)
    (name : String) :
    R (Wire.readNamed i space members name) (Wire.readNamed j space members name) := by
  have hmap := hR.readMap h space hd
  have hprimitive := fun kind => hR.refl (neverTooDeep_readPrimitive space kind members)
  unfold Wire.readNamed
  dsimp only
  -- the name is looked at if there is no logical type, or one that is not known
  generalize hx : (if name = "map" then Wire.readMap i space members else _) = x
  generalize hy : (if name = "map" then Wire.readMap j space members else _) = y
  have hname : R x y := by
    rw [← hx, ← hy]
    split
    · exact hmap
    split
    · exact hprimitive _
    · exact hR.refl (neverTooDeep_readReference space members name)
  split
  · exact hname
  split
  · exact hmap
  split
  · exact hprimitive _
  · exact hname

theorem readBranches {items : List Json} (hd : (Json.array items).depth ≤ depth) :
    R (Wire.readBranches i space items) (Wire.readBranches j space items) := by
  have hbranch : ∀ branch ∈ items.filter (!isNullBranch ·),
      R (i.node space branch) (j.node space branch) := by
    intro branch hmem
    have hlt := Json.depth_lt_of_mem (List.mem_filter.1 hmem).1
    exact h.node space (Nat.lt_of_lt_of_le hlt hd)
  unfold Wire.readBranches
  dsimp only
  split
  · exact hR.refuse _
  · next single hs =>
    -- a single branch is read as the type itself
    rw [hs, List.forall_mem_singleton] at hbranch
    exact hR.bind hbranch fun a => hR.pure _
  · refine hR.bind (hR.mapM fun branch hmem => ?_) fun ts => ?_
    · exact hR.bind (hbranch branch hmem) fun a => hR.pure _
    · exact hR.bind (hR.lift (notTooDeep_unionOf ts)) fun t => hR.pure _

theorem readFields {nodes : List Json} (hd : ∀ node ∈ nodes, node.depth < depth) (r : Record) :
    R (Wire.readFields i space r nodes) (Wire.readFields j space r nodes) := by
  induction nodes generalizing r with
  | nil => exact hR.pure r
  | cons node rest ih =>
    obtain ⟨hnode, hrest⟩ := List.forall_mem_cons.1 hd
    refine hR.bind (h.field space hnode) fun f => ?_
    exact hR.bind (hR.lift (notTooDeep_addField r f)) fun s => ih hrest s

theorem readRecord {members : Json.Members}
    (hd : ∀ {key value}, Json.Members.get? members key = some value → value.depth < depth) :
    R (Wire.readRecord i space members) (Wire.readRecord j space members) := by
  refine hR.bind (hR.lift (notTooDeep_logicalName members)) fun name => ?_
  dsimp only
  split
  · exact hR.refuse _
  next nodes hf =>
  obtain ⟨fields, hget, harray⟩ := Option.bind_eq_some_iff.1 hf
  -- the nodes of the fields are two levels inside the record, of which one is the list
  have hnodes : ∀ node ∈ nodes, node.depth < depth := by
    intro node hmem
    cases fields with
    | array items =>
      obtain rfl := Option.some.inj harray
      exact Nat.lt_trans (Json.depth_lt_of_mem hmem) (hd hget)
    | _ => cases harray
  refine hR.bind (hR.readFields h _ hnodes _) fun r => ?_
  exact hR.bind (hR.refl (neverTooDeep_define members _ _)) fun _ => hR.pure r

theorem readObject {members : Json.Members}
    (hd : ∀ {key value}, Json.Members.get? members key = some value → value.depth < depth) :
    R (Wire.readObject i space members) (Wire.readObject j space members) := by
  unfold Wire.readObject
  split
  · exact hR.refuse _
  · next items ht => exact h.branches space (hd ht)
  · next type ht => exact h.node space (hd ht)
  · exact hR.bind (hR.readRecord h space hd) fun r => hR.pure _
  · split
    · exact hR.refuse _
    · next items hi => exact hR.bind (h.node space (hd hi)) fun a => hR.pure _
  · exact hR.bind (hR.readNamed h space hd _) fun t => hR.pure _
  · exact hR.refuse _

theorem readNode {json : Json} (hd : json.depth ≤ depth) :
    R (Wire.readNode i space json) (Wire.readNode j space json) := by
  unfold Wire.readNode
  split
  · next name =>
    -- a name has no members
    exact hR.bind (hR.readNamed h space (by simp) name) fun t => hR.pure _
  · exact hR.readBranches h space hd
  · refine hR.readObject h space fun hv => ?_
    exact Nat.lt_of_lt_of_le (Json.depth_lt_of_get? hv) hd
  · exact hR.refuse _

theorem readField {json : Json} (hd : json.depth ≤ depth) :
    R (Wire.readField i space json) (Wire.readField j space json) := by
  unfold Wire.readField
  split
  · next members =>
    refine hR.bind (hR.lift (notTooDeep_logicalName members)) fun name => ?_
    refine hR.bind (hR.readObject h space fun hv => ?_) fun a => hR.pure _
    exact Nat.lt_of_lt_of_le (Json.depth_lt_of_get? hv) hd
  · exact hR.refuse _

end

/-- Readers that may go one level deeper are related if their inner readers are. -/
theorem inner_succ {n m a b depth : Nat}
    (h : Inner.Related R depth (Wire.inner n a) (Wire.inner m b)) :
    Inner.Related R (depth + 1) (Wire.inner n (a + 1)) (Wire.inner m (b + 1)) where
  node space _ hd := hR.readNode h space (Nat.le_of_lt_succ hd)
  branches space _ hd := hR.readBranches h space (Nat.le_of_lt_succ hd)
  field space _ hd := hR.readField h space (Nat.le_of_lt_succ hd)

end Compatible

/-! ## Levels enough -/

/-- There is nothing of less than no depth. -/
theorem Inner.related_zero {R : ∀ {α : Type}, Reading α → Reading α → Prop} {i j : Inner} :
    Inner.Related R 0 i j :=
  ⟨fun _ _ => nofun, fun _ _ => nofun, fun _ _ => nofun⟩

theorem neverTooDeep_compatible : Compatible fun x _ => NeverTooDeep x where
  refl h := h
  bind := neverTooDeep_bind

/-- With more levels than the depth of a node, the limit is not reached. -/
theorem neverTooDeep_inner (limit : Nat) {levels depth : Nat} (h : depth ≤ levels) :
    Inner.Related (fun x _ => NeverTooDeep x) depth (inner limit levels) (inner limit levels) := by
  -- a node of the depth is read by readers with that many levels and one more
  induction depth generalizing levels with
  | zero => exact Inner.related_zero
  | succ depth ih =>
    obtain ⟨levels, rfl⟩ := Nat.exists_eq_add_one.2 (Nat.lt_of_lt_of_le (Nat.succ_pos _) h)
    exact neverTooDeep_compatible.inner_succ (ih (Nat.le_of_succ_le_succ h))

/-! ## Fewer and more levels -/

/-- Whatever is defined, the first reading fails because of a nesting limit, or both have one
outcome. -/
def Cut (limit : Nat) {α : Type} (x y : Reading α) : Prop :=
  ∀ table, (∃ left, x table = .error (.nestingTooDeep limit) left) ∨ x table = y table

theorem cut_compatible (limit : Nat) : Compatible (Cut limit) where
  refl _ _ := Or.inr rfl
  bind {α β x y f g} hx hf table := by
    simp only [bind, EStateM.bind]
    rcases hx table with ⟨left, hcut⟩ | heq
    · left
      exact ⟨left, by rw [hcut]⟩
    -- both go on from the same definitions, or fail alike
    rw [← heq]
    cases x table with
    | ok a between => exact hf a between
    | error e between => exact Or.inr rfl

/-- With fewer levels, and another limit to be told, readers fail because of the limit or do what
readers with more levels do. -/
theorem cut_inner (n m : Nat) {a b : Nat} (h : a ≤ b) (depth : Nat) :
    Inner.Related (Cut n) depth (inner n a) (inner m b) := by
  induction a generalizing b depth with
  | zero =>
    -- without a level, everything is cut off
    have hcut : ∀ {α : Type} (y : Reading α), Cut n (throw (.nestingTooDeep n)) y :=
      fun _ table => Or.inl ⟨table, rfl⟩
    exact ⟨fun _ _ _ => hcut _, fun _ _ _ => hcut _, fun _ _ _ => hcut _⟩
  | succ a ih =>
    obtain ⟨b, rfl⟩ := Nat.exists_eq_add_one.2 (Nat.lt_of_lt_of_le (Nat.succ_pos _) h)
    cases depth with
    | zero => exact Inner.related_zero
    | succ depth => exact (cut_compatible n).inner_succ (ih (Nat.le_of_succ_le_succ h) depth)

/-! ## Outcomes -/

/-- Outcomes under all limits, of which a lower limit only cuts off those of the higher ones, and
none from a depth on. -/
structure LimitOnlyCuts (depth : Nat) {α : Type} (outcome : Nat → Except SchemaError α) : Prop where
  /-- Under a lower limit, the outcome is the same or that the limit is exceeded. -/
  cut : ∀ n m, n ≤ m → outcome n = .error (.nestingTooDeep n) ∨ outcome n = outcome m
  /-- No limit that is at least the depth is exceeded. -/
  enough : ∀ n, depth ≤ n → NotTooDeep (outcome n)
  /-- There is one limit below which every limit is exceeded, and from which on the outcome is the
  same and that of no limit. -/
  threshold : ∃! t, (∀ n < t, outcome n = .error (.nestingTooDeep n)) ∧
    NotTooDeep (outcome t) ∧ ∀ n, t ≤ n → outcome n = outcome t

/-- The threshold is the lowest limit that is not exceeded. -/
theorem LimitOnlyCuts.of_cut_of_enough {depth : Nat} {α : Type}
    {outcome : Nat → Except SchemaError α}
    (cut : ∀ n m, n ≤ m → outcome n = .error (.nestingTooDeep n) ∨ outcome n = outcome m)
    (enough : ∀ n, depth ≤ n → NotTooDeep (outcome n)) : LimitOnlyCuts depth outcome := by
  classical
  refine ⟨cut, enough, ?_⟩
  -- there is such a limit, since the depth is one
  have hex : ∃ n, NotTooDeep (outcome n) := ⟨depth, enough depth (Nat.le_refl _)⟩
  have hfind := Nat.find_spec hex
  refine ⟨Nat.find hex, ⟨?below, hfind, ?above⟩, ?unique⟩
  case below =>
    intro n hn
    have hdeep := Nat.find_min hex hn
    rcases cut n _ (Nat.le_of_lt hn) with h | h
    · exact h
    · exact absurd (h ▸ hfind) hdeep
  case above =>
    intro n hn
    rcases cut _ n hn with h | h
    · exact absurd h (hfind _)
    · exact h.symm
  case unique =>
    rintro t ⟨hbelow, hnot, -⟩
    -- below either of two thresholds, the limit would be exceeded at the other
    rcases Nat.lt_trichotomy t (Nat.find hex) with hlt | heq | hgt
    · exact absurd hnot (Nat.find_min hex hlt)
    · exact heq
    · exact absurd (hbelow _ hgt) (hfind _)

/-- Outcomes of one reading after another that has nothing to do with the limit. -/
theorem LimitOnlyCuts.bind {depth : Nat} {α β : Type} {outcome : Nat → Except SchemaError α}
    (h : LimitOnlyCuts depth outcome) {f : α → Except SchemaError β} (hf : ∀ a, NotTooDeep (f a)) :
    LimitOnlyCuts depth fun n => outcome n >>= f := by
  refine of_cut_of_enough (fun n m hnm => ?_) fun n hn => notTooDeep_bind (h.enough n hn) hf
  rcases h.cut n m hnm with hcut | heq
  · left
    rw [hcut]
    rfl
  · right
    rw [heq]

/-- What has nothing to do with the limit is never cut off. -/
theorem LimitOnlyCuts.const {depth : Nat} {α : Type} {x : Except SchemaError α}
    (h : NotTooDeep x) : LimitOnlyCuts depth fun _ => x :=
  of_cut_of_enough (fun _ _ _ => Or.inr rfl) fun _ _ => h

/-- Readings that cut each other off, and are never too deep with levels enough, have outcomes that
are only cut off. -/
theorem LimitOnlyCuts.of_readings {depth : Nat} {α : Type} {reading : Nat → Reading α}
    (cut : ∀ n m, n ≤ m → Cut n (reading n) (reading m))
    (enough : ∀ n, depth ≤ n → NeverTooDeep (reading n)) :
    LimitOnlyCuts depth fun n => run (reading n) := by
  refine of_cut_of_enough (fun n m hnm => ?_) fun n hn limit h => ?_
  · unfold run
    rcases cut n m hnm [] with ⟨left, hcut⟩ | heq
    · left
      rw [hcut]
    · right
      rw [heq]
  · unfold run at h
    split at h
    · cases h
    · next e left he =>
      cases h
      exact enough n hn [] limit left he

variable (document : Json)

theorem limitOnlyCuts_typeOfWire :
    LimitOnlyCuts document.depth fun n => DataType.ofWire n document := by
  have hlt := Nat.lt_succ_self document.depth
  apply LimitOnlyCuts.of_readings
  · intro n m hnm
    exact (cut_inner n m (Nat.succ_le_succ hnm) _).node none hlt
  · intro n hn
    exact (neverTooDeep_inner n (Nat.succ_le_succ hn)).node none hlt

theorem limitOnlyCuts_fieldOfWire :
    LimitOnlyCuts document.depth fun n => Field.ofWire n document := by
  have hlt := Nat.lt_succ_self document.depth
  apply LimitOnlyCuts.of_readings
  · intro n m hnm
    exact (cut_inner n m (Nat.succ_le_succ hnm) _).field none hlt
  · intro n hn
    exact (neverTooDeep_inner n (Nat.succ_le_succ hn)).field none hlt

/-- The record at the root of a document needs no level for itself. -/
theorem limitOnlyCuts_ofMembers (members : Json.Members) :
    LimitOnlyCuts (Json.object members).depth fun n => Record.ofMembers n members := by
  unfold Record.ofMembers
  split
  · apply LimitOnlyCuts.of_readings
    · intro n m hnm
      exact (cut_compatible n).readRecord (cut_inner n m hnm _) none Json.depth_lt_of_get?
    · intro n hn
      exact neverTooDeep_compatible.readRecord (neverTooDeep_inner n hn) none Json.depth_lt_of_get?
  · exact .const (notTooDeep_refuse _)

theorem limitOnlyCuts_recordOfWire :
    LimitOnlyCuts document.depth fun n => Record.ofWire n document := by
  unfold Record.ofWire
  split
  · exact limitOnlyCuts_ofMembers _
  · exact .const (notTooDeep_refuse _)

theorem limitOnlyCuts_valueOfWire :
    LimitOnlyCuts document.depth fun n => ValueSchema.ofWire n document := by
  unfold ValueSchema.ofWire
  split
  · next members =>
    -- the metadata are read after the record
    refine (limitOnlyCuts_ofMembers members).bind fun r => ?_
    split
    · exact notTooDeep_ok _
    · exact fun _ => nofun
  · exact .const fun _ => nofun

/-- The nesting limit changes no outcome of reading a document, but only cuts it off, and never
where it is at least the depth of the document. So for every document, and for every way to read it,
there is one threshold below which the limit is exceeded and from which on the outcome is fixed. -/
theorem limitOnlyCuts_ofWire :
    LimitOnlyCuts document.depth (fun n => DataType.ofWire n document) ∧
    LimitOnlyCuts document.depth (fun n => Record.ofWire n document) ∧
    LimitOnlyCuts document.depth (fun n => Field.ofWire n document) ∧
    LimitOnlyCuts document.depth (fun n => ValueSchema.ofWire n document) :=
  ⟨limitOnlyCuts_typeOfWire document, limitOnlyCuts_recordOfWire document,
    limitOnlyCuts_fieldOfWire document, limitOnlyCuts_valueOfWire document⟩

end Wire

end AvroSchema
