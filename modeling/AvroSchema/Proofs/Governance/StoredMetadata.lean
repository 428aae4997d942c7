import AvroSchema.Proofs.Wire.Fingerprints

/-!
# Stored Governance Metadata

Governance metadata are stored beside the members of a record and read back from there. Reading is
more liberal than storing: what is absent is as good as null, structures may be arrays, and members
with a standard value may be left out. So each part is stored in one form, and `Json.ReadsBack` says
of a reader and a form that they fit together.

The metadata and the record have no key in common, hence neither is disturbed by the other.

* `Governance.ofMembers_of_get?`: metadata are read back as they were.
* `Governance.misfit_of_ofMembers`: a refusal tells a member of the metadata that is not null and
  does not fit.
* `Record.ofMembers_congr`: a record is read from its own members only.
* `ValueSchema.ofWire_document`: a value schema is read from its document exactly as its record is
  read from the document of the record, and with the same metadata.
-/

namespace AvroSchema

/-! ## Stored forms -/

namespace Json

/-- What is stored in a form is read back by a reader. -/
def ReadsBack {α : Type} (read : Json → Option α) (store : α → Json) : Prop :=
  ∀ a, read (store a) = some a

section

variable {α : Type} {read : Json → Option α} {store : α → Json} {members : Members} {key : String}
  {json : Json}

/-- Only null is read as nothing. -/
theorem nullable?_of_ne_null (h : json ≠ .null) (read : Json → Option α) :
    nullable? read json = (read json).map some := by
  unfold nullable?
  split
  · exact absurd rfl h
  · rfl

theorem Members.required?_of_get? (h : get? members key = some json) (read : Json → Option α) :
    required? members key read = read json := by
  rw [required?, h, Option.bind_some]

theorem Members.defaulted?_of_get? (h : get? members key = some json) (read : Json → Option α)
    (absent : α) : defaulted? members key read absent = read json := by
  rw [defaulted?, h]

theorem Members.optional?_of_get? (h : get? members key = some json) (read : Json → Option α) :
    optional? members key read = nullable? read json := by
  rw [optional?, h]

theorem readsBack_string : ReadsBack string? .string := fun _ => rfl

/-- A list is read back if its items are. -/
theorem ReadsBack.list (h : ReadsBack read store) :
    ReadsBack (list? read) fun as => .array (as.map store) := by
  intro as
  rw [list?]
  induction as with
  | nil => rfl
  | cons a rest ih =>
    rw [List.map_cons, List.mapM_cons, h a, ih]
    rfl

/-- What may be absent is read back if null is stored for nothing else. -/
theorem ReadsBack.nullable (h : ReadsBack read store) (hn : ∀ a, store a ≠ .null) :
    ReadsBack (nullable? read) fun a => (a.map store).getD .null := by
  intro a
  cases a with
  | none => rfl
  | some a => exact (nullable?_of_ne_null (hn a) read).trans (congrArg (Option.map some) (h a))

/-- What is stored under a key and may be null is read back. -/
theorem ReadsBack.stored {store : Option α → Json} (h : ReadsBack (nullable? read) store)
    {a : Option α} (hm : Members.get? members key = some (store a)) :
    Members.stored members key read = .ok a :=
  Members.stored_eq_ok_iff.2 ((Members.optional?_of_get? hm read).trans (h a))

/-- A list that is stored under a key is read back, since it is not null even if it is empty. -/
theorem ReadsBack.stored_list (h : ReadsBack read store) {as : List α}
    (hm : Members.get? members key = some (.array (as.map store))) :
    Members.stored members key (list? read) = .ok (some as) := by
  rw [Members.stored_eq_ok_iff, Members.optional?_of_get? hm, nullable?_of_ne_null (by simp)]
  exact congrArg (Option.map some) (h.list as)

theorem readsBack_ofString? : ReadsBack (nullable? string?) ofString? := by
  intro text
  cases text <;> rfl

theorem readsBack_ofUInt32? : ReadsBack (nullable? uint32?) ofUInt32? := by
  intro n
  cases n with
  | none => rfl
  | some n =>
    have hread : uint32? (.int n.toNat) = some n := by
      simp [uint32?, natBelow?, n.toNat_lt]
    rw [ofUInt32?, nullable?_of_ne_null (by simp), hread, Option.map_some]

end

end Json

open Json

theorem TimeUnit.readsBack_toJson : ReadsBack ofJson? toJson := by
  intro u
  cases u <;> rfl

theorem Period.readsBack_toJson : ReadsBack ofJson? toJson := by
  intro p
  simp only [toJson, ofJson?, structure?, Option.bind_eq_bind, Option.bind_some]
  rw [Members.optional?_of_get? rfl, readsBack_ofUInt32? p.value, Option.bind_some,
    Members.defaulted?_of_get? rfl, TimeUnit.readsBack_toJson p.unit, Option.bind_some]
  rfl

theorem DeletionPolicy.readsBack_toJson : ReadsBack ofJson? toJson := by
  intro p
  simp only [toJson, ofJson?, structure?, Option.bind_eq_bind, Option.bind_some]
  rw [Members.optional?_of_get? rfl, readsBack_ofUInt32? p.value, Option.bind_some,
    Members.defaulted?_of_get? rfl, TimeUnit.readsBack_toJson p.unit, Option.bind_some,
    Members.optional?_of_get? rfl, readsBack_ofString? p.description, Option.bind_some]
  rfl

theorem JoinCondition.readsBack_toJson : ReadsBack ofJson? toJson := by
  intro c
  rfl

theorem ForeignKey.readsBack_toJson : ReadsBack ofJson? toJson := by
  intro k
  simp only [toJson, ofJson?, structure?, Option.bind_eq_bind, Option.bind_some]
  rw [Members.required?_of_get? rfl, readsBack_string k.schema, Option.bind_some,
    Members.optional?_of_get? rfl, readsBack_ofString? k.name, Option.bind_some,
    Members.defaulted?_of_get? rfl, JoinCondition.readsBack_toJson.list k.conditions,
    Option.bind_some]
  rfl

/-! ## Metadata -/

/-- Among members with different keys, each is found under its key. -/
theorem Json.Members.get?_of_mem {members : Json.Members} (hd : (members.map Prod.fst).Nodup)
    {e : String × Json} (he : e ∈ members) : get? members e.1 = some e.2 := by
  obtain ⟨before, after, rfl⟩ := List.append_of_mem he
  refine List.lookup_eq_some_iff.2 ⟨before, after, rfl, fun other ho => ?_⟩
  -- an earlier member with the key would repeat it
  rw [List.map_append, List.nodup_append] at hd
  have hne := hd.2.2 other.1 (List.mem_map_of_mem ho) e.1 (by simp)
  exact bne_iff_ne.2 hne.symm

namespace Governance

/-- Members among which those of some metadata are found are read as these metadata. -/
theorem ofMembers_of_get? {g : Governance} {members : Json.Members}
    (h : ∀ e ∈ g.members, Json.Members.get? members e.1 = some e.2) :
    ofMembers members = .ok g := by
  simp only [Governance.members, List.forall_mem_cons, List.not_mem_nil, false_imp_iff,
    implies_true, and_true] at h
  obtain ⟨hpks, hfks, howner, hretention, hdeletion, hclasses, htickets, hrepository⟩ := h
  have hretained := Period.readsBack_toJson.nullable Period.toJson_ne_null
  have hdeleted := DeletionPolicy.readsBack_toJson.nullable DeletionPolicy.toJson_ne_null
  rw [ofMembers, readsBack_string.stored_list hpks, ForeignKey.readsBack_toJson.stored_list hfks,
    readsBack_ofString?.stored howner, hretained.stored hretention, hdeleted.stored hdeletion,
    readsBack_string.stored_list hclasses, readsBack_ofString?.stored htickets,
    readsBack_ofString?.stored hrepository]
  -- a set is the set of the texts that it lists
  simp [bind, Except.bind, pure, Except.pure]

/-- A refusal of metadata tells one of their members, which is there, is not null and cannot be
read. -/
theorem misfit_of_ofMembers {members : Json.Members} {misfit : Json.Misfit}
    (h : ofMembers members = .error misfit) :
    misfit.key ∈ ({} : Governance).members.map Prod.fst ∧
      Json.Members.get? members misfit.key = some misfit.value ∧ misfit.value ≠ .null := by
  have hmisfit {α : Type} {key : String} {read : Json → Option α}
      (hkey : key ∈ ({} : Governance).members.map Prod.fst)
      (hs : Json.Members.stored members key read = .error misfit) :
      misfit.key ∈ ({} : Governance).members.map Prod.fst ∧
        Json.Members.get? members misfit.key = some misfit.value ∧ misfit.value ≠ .null := by
    obtain ⟨rfl, hget, hnone⟩ := Members.stored_eq_error_iff.1 hs
    refine ⟨hkey, hget, fun hnull => ?_⟩
    rw [hnull] at hnone
    cases hnone
  -- the first member that is refused decides
  unfold ofMembers at h
  iterate 8
    rcases except_bind_eq_error_iff.1 h with h | ⟨_, -, h⟩
    · exact hmisfit (by decide) h
  cases h

/-- The members of some metadata are found where they were put in. -/
theorem get?_foldl_insert_members (g : Governance) (members : Json.Members) :
    ∀ e ∈ g.members, Json.Members.get?
      (g.members.foldl (fun members e => Json.Members.insert e.1 e.2 members) members) e.1 =
        some e.2 := by
  have hd : (g.members.map Prod.fst).Nodup := by
    simp [Governance.members]
  intro e he
  rw [Json.Members.get?_foldl_insert_of_mem hd (List.mem_map_of_mem he),
    Json.Members.get?_of_mem hd he]

end Governance

/-! ## Records -/

namespace Wire

section

variable {members others : Json.Members} (h : ∀ key ∈ recordKeys,
  Json.Members.get? others key = Json.Members.get? members key)
include h

/-- The text under a key of a record is the same in members that agree on these keys. -/
theorem text?_congr (key : String) (hk : key ∈ recordKeys) :
    text? others key = text? members key := by
  rw [text?, text?, h key hk]

/-- Reading a record looks at no members but its own. -/
theorem readRecord_congr (inner : Inner) (space : Option String) :
    readRecord inner space others = readRecord inner space members := by
  have horiginal := text?_congr h "__originalname" (by decide)
  have hname := text?_congr h "name" (by decide)
  have hspace := text?_congr h "namespace" (by decide)
  have hdoc := text?_congr h "doc" (by decide)
  have hfields := h "fields" (by decide)
  simp only [readRecord, logicalName, define, horiginal, hname, hspace, hdoc, hfields]

end

end Wire

/-- A record is read from its own members only. -/
theorem Record.ofMembers_congr {members others : Json.Members} (h : ∀ key ∈ Wire.recordKeys,
    Json.Members.get? others key = Json.Members.get? members key) (limit : Nat) :
    ofMembers limit others = ofMembers limit members := by
  rw [ofMembers, ofMembers, Wire.text?_congr h _ (by decide), Wire.readRecord_congr h]

/-! ## Value schemas -/

open SchemaTree

/-- Whatever its metadata are, a value schema is read from its document exactly if its record is
read from the document of the record; then it has the record that is read and the metadata it had,
and otherwise the error is the same. -/
theorem ValueSchema.ofWire_document (limit : Nat) (v : ValueSchema) :
    ofWire limit (document v) =
      (Record.ofWire limit v.record.wire).map fun r =>
        { record := r, governance := v.governance } := by
  -- the two readings are of one object, in which each finds its own members
  let members := v.governance.members.foldl
    (fun members e => Json.Members.insert e.1 e.2 members) v.record.wireMembers
  have hgovernance : Governance.ofMembers members = .ok v.governance :=
    Governance.ofMembers_of_get? (v.governance.get?_foldl_insert_members _)
  have hrecord : Record.ofMembers limit members = Record.ofMembers limit v.record.wireMembers := by
    apply Record.ofMembers_congr
    intro key hk
    apply Json.Members.get?_foldl_insert
    rintro e he rfl
    exact v.governance.key_notMem_recordKeys e he hk
  change ofWire limit (.object members) = _
  rw [ofWire, hrecord, hgovernance, Record.wire, Record.ofWire]
  cases Record.ofMembers limit v.record.wireMembers <;> rfl

end AvroSchema
