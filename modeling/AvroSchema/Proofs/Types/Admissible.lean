import Mathlib.Data.List.Forall2
import AvroSchema.Proofs.Types.Equality

/-!
# Admissible Types

Types are only ever built by functions that check their parameters. `Admissible` says what they let
through, at every level of a type: parameters in range, unions of at least two members that are no
unions and carry the names of their types as tags, and records without repeated field names. The
nesting of a type is the number of array, map, union and record layers on its longest path.

* `Primitive.varcharOf_eq_ok_iff` and its siblings: a primitive type is built exactly if its
  parameters are admissible.
* `DataType.exists_tagged_of_admissible`: types tagged by their names are the members of an
  admissible union.
* `DataType.unionOf_admissible`, `Record.addField_admissible`: unions and records are built from
  admissible parts only to admissible wholes.
* `DataType.unionOf_of_outline`: members with the outlines of an admissible union make a union.
* `DataType.nesting_eq_of_outline_eq`: default values do not count for the nesting.
-/

namespace AvroSchema

/-! ## Computations that may fail -/

/-- A composed computation succeeds exactly if its parts do one after the other. -/
theorem except_bind_eq_ok_iff {ε α β : Type} {x : Except ε α} {f : α → Except ε β} {b : β} :
    (x >>= f) = .ok b ↔ ∃ a, x = .ok a ∧ f a = .ok b := by
  cases x <;> simp [bind, Except.bind]

/-- A changed result is there exactly if the result is. -/
theorem except_map_eq_ok_iff {ε α β : Type} {x : Except ε α} {g : α → β} {b : β} :
    x.map g = .ok b ↔ ∃ a, x = .ok a ∧ g a = b := by
  cases x <;> simp [Except.map]

/-- Nothing follows a failure. -/
theorem except_throw_bind {ε α β : Type} {e : ε} {f : α → Except ε β} :
    ((throw e : Except ε α) >>= f) = .error e := rfl

theorem except_bind_eq_error_iff {ε α β : Type} {x : Except ε α} {f : α → Except ε β} {e : ε} :
    (x >>= f) = .error e ↔ x = .error e ∨ ∃ a, x = .ok a ∧ f a = .error e := by
  cases x <;> simp [bind, Except.bind]

/-- A result that is only wrapped fails exactly if it does. -/
theorem except_bind_pure_eq_error_iff {ε α β : Type} {x : Except ε α} {g : α → β} {e : ε} :
    (x >>= fun a => pure (g a)) = .error e ↔ x = .error e := by
  cases x <;> simp [bind, Except.bind, pure, Except.pure]

/-- And it is there exactly if the result is. -/
theorem exists_except_bind_pure_eq_ok_iff {ε α β : Type} {x : Except ε α} {g : α → β} :
    (∃ b, (x >>= fun a => pure (g a)) = .ok b) ↔ ∃ a, x = .ok a := by
  cases x <;> simp [bind, Except.bind, pure, Except.pure]

/-- A list is computed from another one exactly if each item is. -/
theorem except_mapM_eq_ok_iff {ε α β : Type} {f : α → Except ε β} {as : List α} {bs : List β} :
    as.mapM f = .ok bs ↔ List.Forall₂ (fun a b => f a = .ok b) as bs := by
  induction as generalizing bs with
  | nil => simp [pure, Except.pure, eq_comm]
  | cons a rest ih =>
    simp only [List.mapM_cons, except_bind_eq_ok_iff, ih, List.forall₂_cons_left_iff]
    constructor
    · rintro ⟨b, hb, others, ho, h⟩
      exact ⟨b, others, hb, ho, (Except.ok.inj h).symm⟩
    · rintro ⟨b, others, hb, ho, rfl⟩
      exact ⟨b, hb, others, ho, rfl⟩

theorem exists_of_except_mapM_eq_ok {ε α β : Type} {f : α → Except ε β} {as : List α} {bs : List β}
    (h : as.mapM f = .ok bs) : ∀ a ∈ as, ∃ b, f a = .ok b := by
  have heach : List.Forall₂ (fun a b => (∃ b, f a = .ok b) ∧ f a = .ok b) as bs :=
    (except_mapM_eq_ok_iff.1 h).imp fun _ b hb => ⟨⟨b, hb⟩, hb⟩
  exact ((List.forall₂_and_left _ _).1 heach).1

/-- A failure for a list is the failure for an item of it. -/
theorem exists_of_except_mapM_eq_error {ε α β : Type} {f : α → Except ε β} {as : List α} {e : ε}
    (h : as.mapM f = .error e) : ∃ a ∈ as, f a = .error e := by
  induction as with
  | nil => cases h
  | cons a rest ih =>
    rw [List.mapM_cons] at h
    rcases except_bind_eq_error_iff.1 h with ha | ⟨b, -, h⟩
    · exact ⟨a, List.mem_cons_self, ha⟩
    · obtain ⟨c, hc, he⟩ := ih (except_bind_pure_eq_error_iff.1 h)
      exact ⟨c, List.mem_cons_of_mem a hc, he⟩

/-- The first failure for an item of a list is the failure for the list. -/
theorem except_mapM_of_first_error {ε α β : Type} {f : α → Except ε β} {before after : List α}
    {a : α} {e : ε} (hbefore : ∀ b ∈ before, ∃ c, f b = .ok c) (ha : f a = .error e) :
    (before ++ a :: after).mapM f = .error e := by
  induction before with
  | nil =>
    rw [List.nil_append, List.mapM_cons, ha]
    rfl
  | cons b rest ih =>
    obtain ⟨⟨c, hc⟩, hrest⟩ := List.forall_mem_cons.1 hbefore
    rw [List.cons_append, List.mapM_cons, hc]
    exact except_bind_eq_error_iff.2 (Or.inr ⟨c, rfl, except_bind_pure_eq_error_iff.2 (ih hrest)⟩)

/-! ## Primitive types -/

namespace Primitive

/-- The parameters that a primitive type may have. -/
def Admissible : Primitive → Prop
  | .plain _ _ => True
  | .varchar length => 0 < length ∧ length < 0x100000000
  | .nvarchar length => 0 < length ∧ length < 0x100000000
  | .decimal precision scale => 0 < precision ∧ precision ≤ 76 ∧ scale ≤ precision
  | .fixed size name => 0 < size ∧ size < 0x80000000 ∧ name ≠ ""
  | .enum name symbols => name ≠ "" ∧ symbols ≠ [] ∧ symbols.Nodup ∧ "" ∉ symbols

instance : (p : Primitive) → Decidable p.Admissible
  | .plain _ _ => inferInstanceAs (Decidable True)
  | .varchar length => inferInstanceAs (Decidable (0 < length ∧ length < 0x100000000))
  | .nvarchar length => inferInstanceAs (Decidable (0 < length ∧ length < 0x100000000))
  | .decimal precision scale =>
    inferInstanceAs (Decidable (0 < precision ∧ precision ≤ 76 ∧ scale ≤ precision))
  | .fixed size name => inferInstanceAs (Decidable (0 < size ∧ size < 0x80000000 ∧ name ≠ ""))
  | .enum name symbols =>
    inferInstanceAs (Decidable (name ≠ "" ∧ symbols ≠ [] ∧ symbols.Nodup ∧ "" ∉ symbols))

/-- A quantity is accepted exactly if it is positive and fits 32 bits. -/
theorem positive_eq_ok_iff {type : Parametric} {quantity : String} {value : Int} {n : Nat} :
    positive type quantity value = .ok n ↔ value = n ∧ 0 < n ∧ n < 0x100000000 := by
  unfold positive
  split
  · simp only [reduceCtorEq, false_iff]
    omega
  · split
    · simp only [reduceCtorEq, false_iff]
      omega
    · rw [Except.ok.injEq]
      omega

/-- A name is accepted exactly if it is not empty. -/
theorem requiredName_eq_ok_iff {type : Parametric} {name given : String} :
    requiredName type given = .ok name ↔ given = name ∧ name ≠ "" := by
  unfold requiredName
  split
  · next h =>
    subst h
    simp +contextual [eq_comm]
  · next h =>
    rw [Except.ok.injEq]
    exact ⟨fun e => ⟨e, e ▸ h⟩, fun e => e.1⟩

/-- Text of a bounded length is built exactly from an admissible length. -/
theorem varcharOf_eq_ok_iff {value : Int} {p : Primitive} :
    varcharOf value = .ok p ↔
      ∃ length : Nat, value = length ∧ p = .varchar length ∧ p.Admissible := by
  simp only [varcharOf, except_bind_eq_ok_iff, positive_eq_ok_iff, pure, Except.pure,
    Except.ok.injEq]
  constructor
  · rintro ⟨length, ⟨hv, ha⟩, rfl⟩
    exact ⟨length, hv, rfl, ha⟩
  · rintro ⟨length, hv, rfl, ha⟩
    exact ⟨length, ⟨hv, ha⟩, rfl⟩

/-- Unicode text of a bounded length is built exactly from an admissible length. -/
theorem nvarcharOf_eq_ok_iff {value : Int} {p : Primitive} :
    nvarcharOf value = .ok p ↔
      ∃ length : Nat, value = length ∧ p = .nvarchar length ∧ p.Admissible := by
  simp only [nvarcharOf, except_bind_eq_ok_iff, positive_eq_ok_iff, pure, Except.pure,
    Except.ok.injEq]
  constructor
  · rintro ⟨length, ⟨hv, ha⟩, rfl⟩
    exact ⟨length, hv, rfl, ha⟩
  · rintro ⟨length, hv, rfl, ha⟩
    exact ⟨length, ⟨hv, ha⟩, rfl⟩

/-- A decimal is built exactly from an admissible precision and scale. -/
theorem decimalOf_eq_ok_iff {digits places : Int} {p : Primitive} :
    decimalOf digits places = .ok p ↔
      ∃ precision scale : Nat, digits = precision ∧ places = scale ∧
        p = .decimal precision scale ∧ p.Admissible := by
  unfold decimalOf maxPrecision
  -- the precision is checked first, then the scale against it
  by_cases hp : 76 < digits
  · simp only [if_pos hp, except_bind_eq_ok_iff, positive_eq_ok_iff, except_throw_bind,
      reduceCtorEq, and_false, exists_false, false_iff]
    rintro ⟨precision, scale, rfl, -, rfl, -, ha, -⟩
    omega
  by_cases hs : places < 0 ∨ digits < places
  · simp only [if_neg hp, if_pos hs, except_bind_eq_ok_iff, positive_eq_ok_iff, except_throw_bind,
      reduceCtorEq, and_false, exists_false, false_iff]
    rintro ⟨precision, scale, rfl, rfl, rfl, -, -, ha⟩
    omega
  simp only [if_neg hp, if_neg hs, except_bind_eq_ok_iff, positive_eq_ok_iff, pure, Except.pure,
    Except.ok.injEq]
  constructor
  · rintro ⟨precision, ⟨rfl, hpos, -⟩, rfl⟩
    exact ⟨precision, places.toNat, rfl, by omega, rfl, hpos, by omega, by omega⟩
  · rintro ⟨precision, scale, rfl, rfl, rfl, hpos, -, -⟩
    exact ⟨precision, ⟨rfl, hpos, by omega⟩, rfl⟩

/-- A fixed type is built exactly from an admissible size and a name. -/
theorem fixedOf_eq_ok_iff {value : Int} {given : String} {p : Primitive} :
    fixedOf value given = .ok p ↔
      ∃ size : Nat, value = size ∧ p = .fixed size given ∧ p.Admissible := by
  unfold fixedOf maxFixedSize
  by_cases hv : 0x7fffffff < value
  · simp only [if_pos hv, except_throw_bind, reduceCtorEq, false_iff]
    rintro ⟨size, rfl, rfl, -, ha, -⟩
    omega
  simp only [if_neg hv, except_bind_eq_ok_iff, positive_eq_ok_iff,
    requiredName_eq_ok_iff, pure, Except.pure, Except.ok.injEq]
  constructor
  · rintro ⟨size, ⟨rfl, hpos, -⟩, name, ⟨rfl, hne⟩, rfl⟩
    exact ⟨size, rfl, rfl, hpos, by omega, hne⟩
  · rintro ⟨size, rfl, rfl, hpos, hlt, hne⟩
    exact ⟨size, ⟨rfl, hpos, by omega⟩, given, ⟨rfl, hne⟩, rfl⟩

/-- Symbols are free of faults exactly if they are distinct, not empty and new. -/
theorem symbolFault?_eq_none_iff {before symbols : List String} :
    symbolFault? before symbols = none ↔
      symbols.Nodup ∧ "" ∉ symbols ∧ ∀ s ∈ symbols, s ∉ before := by
  induction symbols generalizing before with
  | nil => simp [symbolFault?]
  | cons symbol rest ih =>
    unfold symbolFault?
    split
    · next h => simp [h]
    · next hne =>
      split
      · next h => simp [List.contains_iff_mem.1 h]
      · next hnew =>
        -- the rest is checked with this symbol among those before it
        have hn : symbol ∉ before := fun hm => hnew (List.contains_iff_mem.2 hm)
        simp only [ih, List.nodup_cons, List.mem_cons, not_or, forall_eq_or_imp]
        constructor
        · rintro ⟨hd, he, hb⟩
          exact ⟨⟨fun hm => (hb symbol hm).1 rfl, hd⟩, ⟨fun e => hne e.symm, he⟩, hn,
            fun s hs => (hb s hs).2⟩
        · rintro ⟨⟨hm, hd⟩, ⟨-, he⟩, -, hb⟩
          exact ⟨hd, he, fun s hs => ⟨fun e => hm (e ▸ hs), hb s hs⟩⟩

/-- An enumeration is built exactly from a name and admissible symbols. -/
theorem enumOf_eq_ok_iff {given : String} {symbols : List String} {p : Primitive} :
    enumOf given symbols = .ok p ↔ p = .enum given symbols ∧ p.Admissible := by
  unfold enumOf
  by_cases he : symbols = []
  · subst he
    simp only [List.isEmpty_nil, if_true, except_bind_eq_ok_iff, except_throw_bind, reduceCtorEq,
      and_false, exists_false, false_iff]
    rintro ⟨rfl, -, hne, -⟩
    exact hne rfl
  have hs : symbols.isEmpty = false := by simpa using he
  simp only [hs, Bool.false_eq_true, if_false, except_bind_eq_ok_iff,
    requiredName_eq_ok_iff]
  cases hf : symbolFault? [] symbols with
  | some fault =>
    refine iff_of_false ?_ ?_
    · rintro ⟨_, -, h⟩
      cases h
    · -- admissible symbols have no fault
      rintro ⟨rfl, -, -, hd, hm⟩
      rw [symbolFault?_eq_none_iff.2 ⟨hd, hm, by simp⟩] at hf
      cases hf
  | none =>
    obtain ⟨hd, hm, -⟩ := symbolFault?_eq_none_iff.1 hf
    simp only [pure, Except.pure, Except.ok.injEq]
    constructor
    · rintro ⟨name, ⟨rfl, hne⟩, rfl⟩
      exact ⟨rfl, hne, he, hd, hm⟩
    · rintro ⟨rfl, hne, -⟩
      exact ⟨given, ⟨rfl, hne⟩, rfl⟩

end Primitive

/-! ## Types, fields and records -/

mutual

/-- The types that are built from admissible parts. -/
def DataType.Admissible : DataType → Prop
  | .primitive p => p.Admissible
  | .union members =>
    2 ≤ members.length ∧ (∀ m ∈ members, m.tag = m.type.typeName) ∧
      (∀ m ∈ members, m.type.isUnion = false) ∧
      DataType.areAnyPrimitive (members.map UnionMember.type) = false ∧
      UnionMember.AllAdmissible members
  | .array items => items.Admissible
  | .map values => values.Admissible
  | .record r => r.Admissible

/-- The types of all members of a union are admissible. -/
def UnionMember.AllAdmissible : List UnionMember → Prop
  | [] => True
  | ⟨_, type⟩ :: rest => type.Admissible ∧ UnionMember.AllAdmissible rest

/-- The types of all fields of a record are admissible. -/
def Field.AllAdmissible : List Field → Prop
  | [] => True
  | ⟨_, type, _, _, _, _, _, _, _⟩ :: rest => type.Admissible ∧ Field.AllAdmissible rest

/-- The records that are built from admissible parts. -/
def Record.Admissible : Record → Prop
  | ⟨_, _, _, fields⟩ => (fields.map Field.name).Nodup ∧ Field.AllAdmissible fields

end

mutual

/-- Whether a type is admissible can be decided. -/
def DataType.decideAdmissible : (t : DataType) → Decidable t.Admissible
  | .primitive p => inferInstanceAs (Decidable p.Admissible)
  | .union members =>
    have := UnionMember.decideAllAdmissible members
    inferInstanceAs (Decidable (2 ≤ members.length ∧ (∀ m ∈ members, m.tag = m.type.typeName) ∧
      (∀ m ∈ members, m.type.isUnion = false) ∧
      DataType.areAnyPrimitive (members.map UnionMember.type) = false ∧
      UnionMember.AllAdmissible members))
  | .array items => items.decideAdmissible
  | .map values => values.decideAdmissible
  | .record r => r.decideAdmissible

/-- Whether the types of all members of a union are admissible can be decided. -/
def UnionMember.decideAllAdmissible :
    (members : List UnionMember) → Decidable (UnionMember.AllAdmissible members)
  | [] => inferInstanceAs (Decidable True)
  | ⟨_, type⟩ :: rest =>
    have := type.decideAdmissible
    have := UnionMember.decideAllAdmissible rest
    inferInstanceAs (Decidable (type.Admissible ∧ UnionMember.AllAdmissible rest))

/-- Whether the types of all fields are admissible can be decided. -/
def Field.decideAllAdmissible : (fields : List Field) → Decidable (Field.AllAdmissible fields)
  | [] => inferInstanceAs (Decidable True)
  | ⟨_, type, _, _, _, _, _, _, _⟩ :: rest =>
    have := type.decideAdmissible
    have := Field.decideAllAdmissible rest
    inferInstanceAs (Decidable (type.Admissible ∧ Field.AllAdmissible rest))

/-- Whether a record is admissible can be decided. -/
def Record.decideAdmissible : (r : Record) → Decidable r.Admissible
  | ⟨_, _, _, fields⟩ =>
    have := Field.decideAllAdmissible fields
    inferInstanceAs (Decidable ((fields.map Field.name).Nodup ∧ Field.AllAdmissible fields))

end

instance : DecidablePred DataType.Admissible := DataType.decideAdmissible

instance : DecidablePred Record.Admissible := Record.decideAdmissible

theorem UnionMember.allAdmissible_iff {members : List UnionMember} :
    UnionMember.AllAdmissible members ↔ ∀ m ∈ members, m.type.Admissible := by
  induction members with
  | nil => simp [UnionMember.AllAdmissible]
  | cons m rest ih =>
    cases m
    simp [UnionMember.AllAdmissible, ih]

namespace DataType

@[simp]
theorem map_type_tagged (ts : List DataType) : (ts.map tagged).map UnionMember.type = ts := by
  simp [tagged, Function.comp_def]

/-- The members of an admissible union are types that are tagged by their names. -/
theorem exists_tagged_of_admissible {members : List UnionMember}
    (h : (DataType.union members).Admissible) : ∃ ts : List DataType, ts.map tagged = members := by
  rw [Admissible] at h
  obtain ⟨-, htag, -⟩ := h
  refine ⟨members.map UnionMember.type, ?_⟩
  rw [List.map_map]
  refine (List.map_congr_left fun m hm => ?_).trans (List.map_id members)
  -- a member that is tagged by the name of its type is made of nothing else
  cases m
  exact congrArg (UnionMember.mk · _) (htag _ hm).symm

/-- A union of tagged types is admissible exactly if these are at least two admissible types, none
of them a union, and it is not written `AnyPrimitive`. -/
theorem admissible_union_iff {ts : List DataType} :
    (DataType.union (ts.map tagged)).Admissible ↔
      2 ≤ ts.length ∧ (∀ t ∈ ts, t.isUnion = false) ∧
        areAnyPrimitive ts = false ∧ ∀ t ∈ ts, t.Admissible := by
  rw [Admissible, UnionMember.allAdmissible_iff, map_type_tagged, List.length_map]
  simp [tagged]

end DataType

theorem Field.allAdmissible_iff {fields : List Field} :
    Field.AllAdmissible fields ↔ ∀ f ∈ fields, f.type.Admissible := by
  induction fields with
  | nil => simp [Field.AllAdmissible]
  | cons f rest ih =>
    cases f
    simp [Field.AllAdmissible, ih]

/-- A record is admissible exactly if no two fields share a name and the types of all fields are
admissible. -/
theorem Record.admissible_iff {r : Record} :
    r.Admissible ↔ r.fieldNames.Nodup ∧ ∀ f ∈ r.fields, f.type.Admissible := by
  cases r
  rw [Record.Admissible, Field.allAdmissible_iff, Record.fieldNames]

/-- A record stays admissible when a field of an admissible type is added to it. -/
theorem Record.addField_admissible {r s : Record} {f : Field} (hr : r.Admissible)
    (hf : f.type.Admissible) (h : r.addField f = .ok s) : s.Admissible := by
  obtain ⟨hnew, rfl⟩ := Record.addField_eq_ok_iff.1 h
  rw [Record.admissible_iff] at hr ⊢
  refine ⟨?_, ?_⟩
  -- the new name is none of the old ones
  · have hd : (r.fieldNames ++ [f.name]).Nodup := by
      rw [List.nodup_append]
      refine ⟨hr.1, by simp, ?_⟩
      rintro name hm other ho rfl
      rw [List.mem_singleton.1 ho] at hm
      exact hnew hm
    simpa [Record.fieldNames] using hd
  · intro g hg
    rcases List.mem_append.1 hg with hg | hg
    · exact hr.2 g hg
    · rwa [List.mem_singleton.1 hg]

namespace DataType

/-- Types make a union, or `AnyPrimitive`. -/
theorem unionOf_cases {ts : List DataType} {t : DataType} (h : unionOf ts = .ok t) :
    t = .plain .anyPrimitive ∨ t = .union (ts.map tagged) := by
  unfold unionOf strictUnion at h
  split at h
  · exact Or.inl (Except.ok.inj h).symm
  split at h
  · cases h
  split at h
  · cases h
  · exact Or.inr (Except.ok.inj h).symm

/-- A strict union is one that any types make. -/
theorem unionOf_of_strictUnion {ts : List DataType} {t : DataType}
    (h : strictUnion ts = .ok t) : unionOf ts = .ok t := by
  have hany : areAnyPrimitive ts = false := by
    by_contra hany
    unfold strictUnion at h
    rw [Bool.not_eq_false] at hany
    rw [hany] at h
    split at h
    · cases h
    split at h <;> cases h
  rw [unionOf, hany]
  exact h

/-- A union that is built from admissible types is admissible. -/
theorem unionOf_admissible {ts : List DataType} {t : DataType}
    (hm : ∀ u ∈ ts, u.Admissible) (h : unionOf ts = .ok t) : t.Admissible := by
  unfold unionOf strictUnion at h
  split at h
  · -- the members of `AnyPrimitive` make that primitive type and no union
    cases h
    trivial
  split at h
  · cases h
  split at h
  · cases h
  next hany hlen hunion =>
    cases h
    rw [admissible_union_iff]
    refine ⟨by omega, fun u hu => ?_, by simpa using hany, hm⟩
    simpa using fun e => hunion (List.any_eq_true.2 ⟨u, hu, e⟩)

/-- The types of the members of an admissible union make that union. -/
theorem unionOf_of_admissible {ts : List DataType}
    (h : (DataType.union (ts.map tagged)).Admissible) :
    unionOf ts = .ok (.union (ts.map tagged)) := by
  obtain ⟨hlen, hunion, hany, -⟩ := admissible_union_iff.1 h
  have hu : ts.any isUnion = false := by simpa using hunion
  simp [unionOf, strictUnion, hany, hu, Nat.not_lt.2 hlen]

/-- Whether a type is a union does not depend on default values. -/
@[simp]
theorem isUnion_mapDefaults (f : Bool → Option Json → Option Json) (t : DataType) :
    (t.mapDefaults f).isUnion = t.isUnion := by
  cases t <;> simp [isUnion]

/-- Whether types are the members of `AnyPrimitive` does not depend on default values. -/
@[simp]
theorem areAnyPrimitive_mapDefaults (f : Bool → Option Json → Option Json)
    (ts : List DataType) : areAnyPrimitive (ts.map (mapDefaults f)) = areAnyPrimitive ts := by
  simp only [areAnyPrimitive, List.map_map]
  congr 2
  funext t
  cases t <;> simp

/-- Types with the outlines of the members of an admissible union make a union. -/
theorem unionOf_of_outline {ts us : List DataType} (h : ts.map canonical = us.map outline)
    (ha : (DataType.union (us.map tagged)).Admissible) :
    unionOf ts = .ok (.union (ts.map tagged)) := by
  obtain ⟨hlen, hunion, hany, -⟩ := admissible_union_iff.1 ha
  -- none of the three checks on the members looks at default values
  have hl : ts.length = us.length := by simpa using congrArg List.length h
  have hp : areAnyPrimitive ts = false := by
    rw [← hany, ← areAnyPrimitive_mapDefaults fun _ d => d.map Json.canonical]
    exact (congrArg areAnyPrimitive h).trans (areAnyPrimitive_mapDefaults _ us)
  have hu : ts.any isUnion = false := by
    have he := congrArg (List.any · isUnion) h
    simp only [List.any_map, Function.comp_def, canonical, outline, isUnion_mapDefaults] at he
    rw [he]
    simpa using hunion
  simp [unionOf, strictUnion, hp, hu, hl, Nat.not_lt.2 hlen]

end DataType

/-! ## Nesting -/

mutual

/-- The number of array, map, union and record layers on the longest path through a type. -/
def DataType.nesting : DataType → Nat
  | .primitive _ => 0
  | .union members => UnionMember.nestingAll members + 1
  | .array items => items.nesting + 1
  | .map values => values.nesting + 1
  | .record r => r.nesting

/-- The largest nesting of the types of the members of a union. -/
def UnionMember.nestingAll : List UnionMember → Nat
  | [] => 0
  | ⟨_, type⟩ :: rest => max type.nesting (UnionMember.nestingAll rest)

/-- The largest nesting of the types of some fields. -/
def Field.nestingAll : List Field → Nat
  | [] => 0
  | ⟨_, type, _, _, _, _, _, _, _⟩ :: rest => max type.nesting (Field.nestingAll rest)

/-- The number of array, map, union and record layers on the longest path through a record. -/
def Record.nesting : Record → Nat
  | ⟨_, _, _, fields⟩ => Field.nestingAll fields + 1

end

theorem UnionMember.nestingAll_cons (m : UnionMember) (rest : List UnionMember) :
    UnionMember.nestingAll (m :: rest) = max m.type.nesting (UnionMember.nestingAll rest) := by
  cases m
  rw [UnionMember.nestingAll]

theorem UnionMember.nesting_le_nestingAll {members : List UnionMember} {m : UnionMember}
    (h : m ∈ members) : m.type.nesting ≤ UnionMember.nestingAll members := by
  induction members with
  | nil => cases h
  | cons member rest ih =>
    rw [UnionMember.nestingAll_cons]
    rcases List.mem_cons.1 h with rfl | h
    · exact Nat.le_max_left _ _
    · exact Nat.le_trans (ih h) (Nat.le_max_right _ _)

/-- The type of a member is nested less than the union. -/
theorem DataType.nesting_type_lt {members : List UnionMember} {m : UnionMember} (h : m ∈ members) :
    m.type.nesting < (DataType.union members).nesting :=
  Nat.lt_succ_of_le (UnionMember.nesting_le_nestingAll h)

theorem Field.nestingAll_cons (f : Field) (rest : List Field) :
    Field.nestingAll (f :: rest) = max f.type.nesting (Field.nestingAll rest) := by
  cases f
  rw [Field.nestingAll]

theorem Field.nesting_le_nestingAll {fields : List Field} {f : Field} (h : f ∈ fields) :
    f.type.nesting ≤ Field.nestingAll fields := by
  induction fields with
  | nil => cases h
  | cons field rest ih =>
    rw [Field.nestingAll_cons]
    rcases List.mem_cons.1 h with rfl | h
    · exact Nat.le_max_left _ _
    · exact Nat.le_trans (ih h) (Nat.le_max_right _ _)

/-- A record is nested one layer more than the types of its fields. -/
theorem Record.nesting_eq (r : Record) : r.nesting = Field.nestingAll r.fields + 1 := by
  cases r
  rw [Record.nesting]

/-- The type of a field is nested less than its record. -/
theorem Record.nesting_type_lt {r : Record} {f : Field} (h : f ∈ r.fields) :
    f.type.nesting < r.nesting := by
  rw [Record.nesting_eq]
  exact Nat.lt_succ_of_le (Field.nesting_le_nestingAll h)

/-- Changing default values does not change the nesting. -/
theorem DataType.nesting_mapDefaults (f : Bool → Option Json → Option Json) (t : DataType) :
    (t.mapDefaults f).nesting = t.nesting := by
  induction t with
  | primitive p => rfl
  | union members ih =>
    -- the largest nesting is taken over types that are nested as before
    have h : UnionMember.nestingAll (members.map (UnionMember.mapDefaults f)) =
        UnionMember.nestingAll members := by
      induction members with
      | nil => rfl
      | cons m rest ihRest =>
        obtain ⟨hm, hr⟩ := List.forall_mem_cons.1 ih
        rw [List.map_cons, UnionMember.nestingAll_cons, UnionMember.nestingAll_cons, ihRest hr,
          UnionMember.mapDefaults_eq, hm]
    simp [DataType.nesting, h]
  | array items ih => simp [DataType.nesting, ih]
  | map values ih => simp [DataType.nesting, ih]
  | record r ih =>
    obtain ⟨name, space, doc, fields⟩ := r
    have h : Field.nestingAll (fields.map (Field.mapDefaults f)) = Field.nestingAll fields := by
      induction fields with
      | nil => rfl
      | cons x rest ihRest =>
        obtain ⟨hx, hr⟩ := List.forall_mem_cons.1 ih
        rw [List.map_cons, Field.nestingAll_cons, Field.nestingAll_cons, ihRest hr,
          Field.mapDefaults_eq, hx]
    simp [DataType.nesting, Record.mapDefaults_eq, Record.nesting, h]

/-- Types with one outline are nested alike. -/
theorem DataType.nesting_eq_of_outline_eq {t u : DataType} (h : t.outline = u.outline) :
    t.nesting = u.nesting := by
  have hn := congrArg DataType.nesting h
  rwa [DataType.outline, DataType.outline, DataType.nesting_mapDefaults,
    DataType.nesting_mapDefaults] at hn

/-- Equal types are nested alike. -/
theorem DataType.nesting_eq_of_canonical_eq {t u : DataType} (h : t.canonical = u.canonical) :
    t.nesting = u.nesting :=
  DataType.nesting_eq_of_outline_eq (DataType.outline_eq_of_canonical_eq h)

end AvroSchema
