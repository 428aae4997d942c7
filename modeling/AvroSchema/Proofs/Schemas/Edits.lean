import AvroSchema.Proofs.Keys.Finalization

/-!
# Edited Value Schemas

A value schema starts with the technical fields and no primary key, and is edited from there. The
technical fields are a prefix of its fields by position, and the payload is what remains by name.
Both agree because no name is ever taken twice, whether an addition succeeds or not. The primary
keys are a set in the order of insertion, under any mixture of insertions, removals and
replacements of the whole list.

* `KeysFollow`, `KeysFollow.eq`: a list of primary keys is what its history makes of it, and the
  history leaves no choice.
* `ValueSchema.Follows`, `ValueSchema.follows_of_edits`: what holds of a value schema after any
  edits.
-/

namespace AvroSchema

/-! ## The history of primary keys -/

/-- What happens to the list of primary keys. -/
inductive KeyStep where
  /-- A name is put there, though it may be there already. -/
  | insert (name : String)
  | remove (name : String)
  /-- All names are taken away. -/
  | clear

namespace KeyStep

/-- Whether a name is not there after a step, even if it was there before. -/
def Removes (name : String) : KeyStep → Prop
  | .insert _ => False
  | .remove removed => removed = name
  | .clear => True

/-- A name was inserted and not removed since. -/
def Holds (history : List KeyStep) (name : String) : Prop :=
  ∃ before after, history = before ++ insert name :: after ∧ ∀ step ∈ after, ¬ step.Removes name

/-- A name was inserted right after the first steps of a history, where it was not held, and was not
removed since. -/
def EntersAfter (history : List KeyStep) (name : String) (before : List KeyStep) : Prop :=
  ¬ Holds before name ∧
    ∃ after, history = before ++ insert name :: after ∧ ∀ step ∈ after, ¬ step.Removes name

/-- Two names are held, and the first of them is held for longer. -/
def EntersBefore (history : List KeyStep) (first second : String) : Prop :=
  ∃ before between, EntersAfter history first before ∧
    EntersAfter history second (before ++ insert first :: between)

variable {history before : List KeyStep} {step : KeyStep} {name : String}

theorem not_holds_nil : ¬ Holds [] name := by
  rintro ⟨before, after, h, -⟩
  exact absurd h.symm (by simp)

/-- An insertion makes a name held, and what was held before a step is held unless the step removes
it. -/
theorem holds_concat_iff :
    Holds (history ++ [step]) name ↔
      step = insert name ∨ Holds history name ∧ ¬ step.Removes name := by
  constructor
  · rintro ⟨before, after, h, hkept⟩
    -- the insertion is the last step, or the last step is one of those after it
    rcases List.eq_nil_or_concat after with rfl | ⟨earlier, last, rfl⟩
    · obtain ⟨-, hlast⟩ := List.append_inj' h rfl
      exact .inl (List.singleton_inj.1 hlast)
    · have hsplit : history ++ [step] = (before ++ insert name :: earlier) ++ [last] := by
        simpa using h
      obtain ⟨rfl, hlast⟩ := List.append_inj' hsplit rfl
      obtain rfl := List.singleton_inj.1 hlast
      exact .inr ⟨⟨before, earlier, rfl, fun s hs => hkept s (by simp [hs])⟩, hkept step (by simp)⟩
  · rintro (rfl | ⟨⟨before, after, rfl, hkept⟩, hstep⟩)
    · exact ⟨history, [], rfl, by simp⟩
    · refine ⟨before, after ++ [step], by simp, fun s hs => ?_⟩
      rcases List.mem_append.1 hs with hs | hs
      · exact hkept s hs
      · exact List.mem_singleton.1 hs ▸ hstep

/-- A step that does not remove a name does not change when it was inserted. -/
theorem EntersAfter.concat (h : EntersAfter history name before) (hstep : ¬ step.Removes name) :
    EntersAfter (history ++ [step]) name before := by
  obtain ⟨hnew, after, rfl, hkept⟩ := h
  refine ⟨hnew, after ++ [step], by simp, fun s hs => ?_⟩
  rcases List.mem_append.1 hs with hs | hs
  · exact hkept s hs
  · exact List.mem_singleton.1 hs ▸ hstep

theorem entersAfter_insert (h : ¬ Holds history name) :
    EntersAfter (history ++ [insert name]) name history :=
  ⟨h, [], rfl, by simp⟩

theorem Holds.exists_entersAfter (h : Holds history name) :
    ∃ before, EntersAfter history name before := by
  -- a name that is inserted while it is held is held since an earlier step
  induction history using List.reverseRecOn with
  | nil => exact absurd h not_holds_nil
  | append_singleton history step ih =>
    by_cases hheld : Holds history name
    · rcases holds_concat_iff.1 h with rfl | ⟨-, hstep⟩
      · obtain ⟨before, hbefore⟩ := ih hheld
        exact ⟨before, hbefore.concat id⟩
      · obtain ⟨before, hbefore⟩ := ih hheld
        exact ⟨before, hbefore.concat hstep⟩
    · rcases holds_concat_iff.1 h with rfl | ⟨hh, -⟩
      · exact ⟨history, entersAfter_insert hheld⟩
      · exact absurd hh hheld

/-- A name is held since one step only. -/
theorem EntersAfter.eq {other : List KeyStep} (h : EntersAfter history name before)
    (ho : EntersAfter history name other) : before = other := by
  obtain ⟨hnew, after, rfl, hkept⟩ := h
  obtain ⟨honew, oafter, he, hokept⟩ := ho
  -- of two insertions that nothing removed, the later one would find the name held
  rcases List.append_eq_append_iff.1 he with ⟨mid, rfl, hmid⟩ | ⟨mid, rfl, hmid⟩
  · cases mid with
    | nil => simp
    | cons s mid =>
      obtain ⟨rfl, rfl⟩ := List.cons.inj hmid
      exact absurd ⟨before, mid, rfl, fun s hs => hkept s (by simp [hs])⟩ honew
  · cases mid with
    | nil => simp
    | cons s mid =>
      obtain ⟨rfl, rfl⟩ := List.cons.inj hmid
      exact absurd ⟨other, mid, rfl, fun s hs => hokept s (by simp [hs])⟩ hnew

/-- No two names entered before each other. -/
theorem EntersBefore.asymm {first second : String} (h : EntersBefore history first second) :
    ¬ EntersBefore history second first := by
  obtain ⟨before, between, hf, hs⟩ := h
  rintro ⟨other, others, hs', hf'⟩
  -- each name was inserted after fewer steps than the other one
  have hlonger := congrArg List.length (hs.eq hs')
  have hshorter := congrArg List.length (hf.eq hf')
  simp only [List.length_append, List.length_cons] at hlonger hshorter
  omega

theorem EntersBefore.concat {first second : String} (h : EntersBefore history first second)
    (hfirst : ¬ step.Removes first) (hsecond : ¬ step.Removes second) :
    EntersBefore (history ++ [step]) first second := by
  obtain ⟨before, between, hf, hs⟩ := h
  exact ⟨before, between, hf.concat hfirst, hs.concat hsecond⟩

/-- A name that is held entered before one that is inserted now. -/
theorem entersBefore_insert {held : String} (h : Holds history held) (hnew : ¬ Holds history name) :
    EntersBefore (history ++ [insert name]) held name := by
  obtain ⟨before, hbefore⟩ := h.exists_entersAfter
  obtain ⟨-, after, rfl, -⟩ := id hbefore
  exact ⟨before, after, hbefore.concat id, entersAfter_insert hnew⟩

end KeyStep

/-- A list of primary keys is what its history makes of it: the names that are held, each of them
once, in the order in which they were inserted. -/
structure KeysFollow (history : List KeyStep) (keys : List String) : Prop where
  nodup : keys.Nodup
  mem_iff : ∀ name, name ∈ keys ↔ KeyStep.Holds history name
  ordered : keys.Pairwise (KeyStep.EntersBefore history)

namespace KeysFollow

open KeyStep

variable {history : List KeyStep} {g : Governance} {name : String}

/-- A history leaves no choice. -/
theorem eq {keys others : List String} (h : KeysFollow history keys)
    (ho : KeysFollow history others) : keys = others := by
  have hperm : keys.Perm others :=
    (List.perm_ext_iff_of_nodup h.nodup ho.nodup).2 fun name =>
      (h.mem_iff name).trans (ho.mem_iff name).symm
  exact hperm.eq_of_pairwise (fun _ _ _ _ hab hba => absurd hba hab.asymm) h.ordered ho.ordered

theorem nil : KeysFollow [] [] where
  nodup := List.nodup_nil
  mem_iff _ := iff_of_false List.not_mem_nil not_holds_nil
  ordered := .nil

theorem addPrimaryKey (h : KeysFollow history g.primaryKeys) :
    KeysFollow (history ++ [.insert name]) (g.addPrimaryKey name).primaryKeys := by
  have hordered : g.primaryKeys.Pairwise (EntersBefore (history ++ [.insert name])) :=
    h.ordered.imp fun hj => hj.concat id id
  have hmem (other : String) :
      Holds (history ++ [.insert name]) other ↔ other = name ∨ other ∈ g.primaryKeys := by
    rw [holds_concat_iff, h.mem_iff, KeyStep.insert.injEq, eq_comm]
    exact or_congr_right (and_iff_left id)
  unfold Governance.addPrimaryKey
  split
  next hold =>
    -- the name keeps its place
    refine ⟨h.nodup, fun other => ?_, hordered⟩
    rw [hmem]
    exact ⟨.inr, fun ho => ho.elim (fun e => e ▸ hold) id⟩
  next hnew =>
    refine ⟨?nodup, fun other => ?mem, ?ordered⟩
    case nodup =>
      rw [← List.concat_eq_append]
      exact h.nodup.concat hnew
    case mem =>
      rw [hmem, List.mem_append, List.mem_singleton, or_comm]
    case ordered =>
      refine List.pairwise_append.2 ⟨hordered, List.pairwise_singleton _ _, ?_⟩
      rintro held hheld _ hadded
      obtain rfl := List.mem_singleton.1 hadded
      exact entersBefore_insert ((h.mem_iff _).1 hheld) (mt (h.mem_iff _).2 hnew)

theorem removePrimaryKey (h : KeysFollow history g.primaryKeys) :
    KeysFollow (history ++ [.remove name]) (g.removePrimaryKey name).primaryKeys := by
  have hkept {other : String} (ho : other ∈ g.primaryKeys.filter (· != name)) :
      ¬ (KeyStep.remove name).Removes other := fun e : name = other => by
    simp [e] at ho
  refine ⟨h.nodup.filter _, fun other => ?mem, ?ordered⟩
  case mem =>
    have hne : (other != name) = true ↔ ¬ name = other := by
      rw [bne_iff_ne, ne_comm, ne_eq]
    have hnot : ¬ KeyStep.remove name = .insert other := nofun
    rw [holds_concat_iff, ← h.mem_iff, or_iff_right hnot]
    exact List.mem_filter.trans (and_congr_right' hne)
  case ordered =>
    refine (h.ordered.filter _).imp_of_mem fun hj hk hjk => ?_
    exact hjk.concat (hkept hj) (hkept hk)

theorem clear : KeysFollow (history ++ [.clear]) [] where
  nodup := List.nodup_nil
  mem_iff _ := by simp [holds_concat_iff, Removes]
  ordered := .nil

/-- Primary keys that take the place of others are put there one by one. -/
theorem setPrimaryKeys (names : List String) :
    KeysFollow (history ++ .clear :: names.map .insert) (g.setPrimaryKeys names).primaryKeys := by
  have hstart : KeysFollow (history ++ [.clear])
      ({ g with primaryKeys := [] } : Governance).primaryKeys := clear
  rw [List.append_cons]
  unfold Governance.setPrimaryKeys
  generalize { g with primaryKeys := [] } = start at hstart ⊢
  generalize history ++ [.clear] = past at hstart ⊢
  induction names generalizing start past with
  | nil => simpa using hstart
  | cons name rest ih =>
    rw [List.map_cons, List.append_cons, List.foldl_cons]
    exact ih _ _ hstart.addPrimaryKey

end KeysFollow

/-! ## Edits -/

namespace ValueSchema

/-- A call that edits a value schema in one respect. -/
inductive Edit where
  /-- A change of the fields or the primary keys. -/
  | change (c : Change)
  | setNamespace (space : String)
  | setDoc (doc : String)
  | addForeignKey (key : ForeignKey)
  | setForeignKeys (keys : List ForeignKey)
  | setOwner (owner : String)
  | setRetention (period : Period)
  | setDeletion (policy : DeletionPolicy)
  | addClassification (text : String)
  | removeClassification (text : String)
  | setTickets (url : String)
  | setRepository (url : String)

/-- The value schema after an edit. -/
def edit (s : ValueSchema) : Edit → ValueSchema
  | .change c => s.apply c
  | .setNamespace space => s.withNamespace space
  | .setDoc doc => s.withDoc doc
  | .addForeignKey key => s.govern fun g => { g with foreignKeys := g.foreignKeys ++ [key] }
  | .setForeignKeys keys => s.govern fun g => { g with foreignKeys := keys }
  | .setOwner owner => s.govern fun g => { g with owner := some owner }
  | .setRetention period => s.govern fun g => { g with retention := some period }
  | .setDeletion policy => s.govern fun g => { g with deletion := some policy }
  | .addClassification text => s.govern (·.addClassification text)
  | .removeClassification text => s.govern (·.removeClassification text)
  | .setTickets url => s.govern fun g => { g with tickets := some url }
  | .setRepository url => s.govern fun g => { g with repository := some url }

/-- The value schema after several edits. -/
def edited (s : ValueSchema) (edits : List Edit) : ValueSchema := edits.foldl edit s

/-- The field that an edit adds, if it is an addition and succeeds. -/
def gain (s : ValueSchema) : Edit → List Field
  | .change (.addField f) =>
    match s.addField f with
    | .ok _ => [f]
    | .error _ => []
  | _ => []

/-- The fields that several edits add, in the order of their addition. -/
def added (s : ValueSchema) : List Edit → List Field
  | [] => []
  | e :: rest => s.gain e ++ (s.edit e).added rest

/-- What an edit does to the primary keys. -/
def Edit.keySteps : Edit → List KeyStep
  | .change (.addPrimaryKey name) => [.insert name]
  | .change (.removePrimaryKey name) => [.remove name]
  | .change (.setPrimaryKeys names) => .clear :: names.map .insert
  | _ => []

variable {s : ValueSchema} {f : Field} {history : List KeyStep}

theorem addField_of_mem (h : f.name ∈ s.record.fieldNames) :
    s.addField f = .error (.duplicateField f.name) := by
  unfold addField Record.addField
  rw [Record.hasField_eq_true_iff.2 h]
  rfl

theorem addField_of_not_mem (h : f.name ∉ s.record.fieldNames) :
    s.addField f = .ok { s with record := { s.record with fields := s.record.fields ++ [f] } } := by
  unfold addField
  rw [Record.addField_eq_ok_iff.2 ⟨h, rfl⟩]
  rfl

/-- A field whose name is taken changes nothing. -/
theorem edit_addField_of_mem (h : f.name ∈ s.record.fieldNames) :
    s.edit (.change (.addField f)) = s ∧ s.gain (.change (.addField f)) = [] := by
  simp only [edit, apply, gain, addField_of_mem h, and_self]

theorem edit_addField_of_not_mem (h : f.name ∉ s.record.fieldNames) :
    s.edit (.change (.addField f)) =
        { s with record := { s.record with fields := s.record.fields ++ [f] } } ∧
      s.gain (.change (.addField f)) = [f] := by
  simp only [edit, apply, gain, addField_of_not_mem h, and_self]

/-- An edit puts what it adds after the fields that are there. -/
theorem fields_edit (s : ValueSchema) (e : Edit) :
    (s.edit e).record.fields = s.record.fields ++ s.gain e := by
  cases e with
  | change c =>
    cases c with
    | addField f =>
      by_cases hm : f.name ∈ s.record.fieldNames
      · obtain ⟨hsame, hnone⟩ := edit_addField_of_mem hm
        rw [hsame, hnone, List.append_nil]
      · obtain ⟨hmore, hone⟩ := edit_addField_of_not_mem hm
        rw [hmore, hone]
    | _ => exact (List.append_nil _).symm
  | _ => exact (List.append_nil _).symm

/-- No name is taken twice by an edit. -/
theorem nodup_fieldNames_edit (h : s.record.fieldNames.Nodup) (e : Edit) :
    (s.edit e).record.fieldNames.Nodup := by
  cases e with
  | change c =>
    cases c with
    | addField f =>
      by_cases hm : f.name ∈ s.record.fieldNames
      · rw [(edit_addField_of_mem hm).1]
        exact h
      · rw [(edit_addField_of_not_mem hm).1]
        simpa [Record.fieldNames] using h.concat hm
    | _ => exact h
  | _ => exact h

theorem keysFollow_edit (h : KeysFollow history s.governance.primaryKeys) (e : Edit) :
    KeysFollow (history ++ e.keySteps) (s.edit e).governance.primaryKeys := by
  cases e with
  | change c =>
    cases c with
    | addField f =>
      -- fields are no primary keys, whether they are added or not
      have hsame : (s.edit (.change (.addField f))).governance = s.governance :=
        governance_apply_addField s f
      rw [hsame]
      simpa [Edit.keySteps] using h
    | addPrimaryKey name => exact h.addPrimaryKey
    | removePrimaryKey name => exact h.removePrimaryKey
    | setPrimaryKeys names => exact .setPrimaryKeys names
  | _ => exact (List.append_nil history).symm ▸ h

theorem fields_edited (s : ValueSchema) (edits : List Edit) :
    (s.edited edits).record.fields = s.record.fields ++ s.added edits := by
  induction edits generalizing s with
  | nil => exact (List.append_nil _).symm
  | cons e rest ih =>
    have hstep : s.edited (e :: rest) = (s.edit e).edited rest := rfl
    rw [hstep, ih, fields_edit, List.append_assoc]
    rfl

theorem nodup_fieldNames_edited (h : s.record.fieldNames.Nodup) (edits : List Edit) :
    (s.edited edits).record.fieldNames.Nodup := by
  induction edits generalizing s with
  | nil => exact h
  | cons e rest ih => exact ih (nodup_fieldNames_edit h e)

theorem keysFollow_edited (h : KeysFollow history s.governance.primaryKeys) (edits : List Edit) :
    KeysFollow (history ++ edits.flatMap Edit.keySteps)
      (s.edited edits).governance.primaryKeys := by
  induction edits generalizing s history with
  | nil => exact (List.append_nil history).symm ▸ h
  | cons e rest ih =>
    rw [List.flatMap_cons, ← List.append_assoc]
    exact ih (keysFollow_edit h e)

/-! ## What edits keep -/

/-- A value schema is the technical fields, the fields that were added, and what the history of its
primary keys makes of them. -/
structure Follows (s : ValueSchema) (added : List Field) (history : List KeyStep) : Prop where
  /-- The technical fields come first, then the added ones. -/
  fields_eq : s.record.fields = Technical.fields ++ added
  /-- The payload is what was added. -/
  payload_eq : s.payload = added
  /-- A field whose name is technical or was added is refused, and nothing changes. -/
  refused : ∀ f : Field, f.name ∈ Technical.names ++ added.map Field.name →
    s.addField f = .error (.duplicateField f.name) ∧ s.edit (.change (.addField f)) = s
  /-- Any other field is put after the ones that are there. -/
  accepted : ∀ f : Field, f.name ∉ Technical.names ++ added.map Field.name →
    s.addField f = .ok { s with record := { s.record with fields := s.record.fields ++ [f] } }
  /-- The primary keys are those that were inserted and not removed since, in order. -/
  keysFollow : KeysFollow history s.governance.primaryKeys

/-- The technical fields are told apart from fields with other names. -/
theorem payload_of_fields {added : List Field}
    (hfields : s.record.fields = Technical.fields ++ added)
    (hnodup : s.record.fieldNames.Nodup) : s.payload = added := by
  rw [Record.fieldNames, hfields, List.map_append] at hnodup
  have hdistinct := (List.nodup_append.1 hnodup).2.2
  have htechnical : Technical.fields.filter (fun f => !Technical.names.contains f.name) = [] := by
    refine List.filter_eq_nil_iff.2 fun f hf => ?_
    simp [Technical.names, List.mem_map_of_mem hf]
  have hadded : added.filter (fun f => !Technical.names.contains f.name) = added := by
    refine List.filter_eq_self.2 fun f hf => ?_
    have hnew : f.name ∉ Technical.names := fun hm =>
      hdistinct f.name hm f.name (List.mem_map_of_mem hf) rfl
    simpa using hnew
  rw [payload, hfields, List.filter_append, htechnical, hadded, List.nil_append]

theorem Follows.of_fields {added : List Field}
    (hfields : s.record.fields = Technical.fields ++ added)
    (hnodup : s.record.fieldNames.Nodup) (hkeys : KeysFollow history s.governance.primaryKeys) :
    Follows s added history := by
  have hnames : s.record.fieldNames = Technical.names ++ added.map Field.name := by
    rw [Record.fieldNames, hfields, List.map_append]
    rfl
  exact ⟨hfields, payload_of_fields hfields hnodup,
    fun _ hf => ⟨addField_of_mem (hnames ▸ hf), (edit_addField_of_mem (hnames ▸ hf)).1⟩,
    fun _ hf => addField_of_not_mem (hnames ▸ hf), hkeys⟩

/-- Edits of a value schema with the technical fields only and without primary keys. -/
theorem follows_edited (hfields : s.record.fields = Technical.fields)
    (hkeys : s.governance.primaryKeys = []) (edits : List Edit) :
    Follows (s.edited edits) (s.added edits) (edits.flatMap Edit.keySteps) := by
  have hnodup : s.record.fieldNames.Nodup := by
    rw [Record.fieldNames, hfields]
    decide
  have hempty : KeysFollow [] s.governance.primaryKeys := hkeys ▸ .nil
  exact .of_fields (hfields ▸ fields_edited s edits) (nodup_fieldNames_edited hnodup edits)
    (keysFollow_edited hempty edits)

/-- Whatever the edits are of a value schema that is new, be it in the default namespace or in none:
its fields are the technical ones and then those that were added, its payload is what was added, it
refuses exactly the names that are taken, and its primary keys are those that were inserted and not
removed since, in the order of insertion. -/
theorem follows_of_edits (name : String) (edits : List Edit) :
    Follows ((empty name).edited edits) ((empty name).added edits) (edits.flatMap Edit.keySteps) ∧
    ∀ config, Follows ((emptyWith name config).edited edits) ((emptyWith name config).added edits)
      (edits.flatMap Edit.keySteps) :=
  ⟨follows_edited rfl rfl edits, fun _ => follows_edited rfl rfl edits⟩

end ValueSchema

/-- The second `id` is refused. The first primary key that is inserted leaves and enters again, and
the second one comes before it from then on. -/
example :
    let edits : List ValueSchema.Edit := [
      .change (.addField { name := "id", type := .plain .long }),
      .change (.setPrimaryKeys ["id", "day"]),
      .change (.addField { name := "id", type := .plain .string }),
      .change (.removePrimaryKey "id"),
      .change (.addPrimaryKey "id")]
    ((ValueSchema.empty "visit").edited edits).record.fieldNames =
        ["__audit", "__change_type", "__change_time", "__source_rowid", "__source_transaction",
          "__source_system", "__truncate", "__extension", "id"] ∧
      ((ValueSchema.empty "visit").edited edits).governance.primaryKeys = ["day", "id"] := by
  decide

end AvroSchema
