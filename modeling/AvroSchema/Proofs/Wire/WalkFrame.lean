import AvroSchema.Proofs.Wire.DefinitionSites

/-!
# The Frame of a Walk

A walk completes the sites of a node from the first one on: all of them if it succeeds, and those
before the fault if it fails (`Walk.Covers`). This goes through all parts of a walk, and through all
readers by induction on the levels that are left. What a walk does to its state follows from it, as
the first site of a name to be completed is the one that defines the name.

* `Walk.Completes.firstGives`: a new definition is the type of the first site of its name.
* `Walk.covers_level`: the readers at every depth cover the sites of what they read.
* `Walk.keeps_frame`: the namespace is put back, definitions stay, and new ones are those of sites.
-/

namespace AvroSchema

open Wire

/-! ## Growing tables -/

namespace Definitions

/-- A table has all definitions of another one, unchanged. -/
def Extends (left table : Definitions) : Prop :=
  ∀ name t, table.find? name = some t → left.find? name = some t

theorem Extends.refl (table : Definitions) : table.Extends table := fun _ _ h => h

theorem Extends.trans {left between table : Definitions} (hl : left.Extends between)
    (ht : between.Extends table) : left.Extends table := fun name t h => hl name t (ht name t h)

theorem extends_define (table : Definitions) (name : String) (t : DataType) :
    (table.define name t).Extends table := by
  intro other u h
  rw [find?_define]
  split
  · next he =>
    subst he
    rw [h]
    rfl
  · exact h

end Definitions

namespace Walk

/-! ## Completing sites -/

/-- Reads the node of a site. -/
def parseSite (limit depth : Nat) (site : Site) : Walking DataType :=
  match site.kind with
  | none => do return .record (← record limit depth (level limit (depth + 1)) site.members)
  | some kind => namedPrimitive kind site.members

/-- The node of a site is read at some depth, in the namespace that encloses it. -/
def Parses (limit : Nat) (site : Site) (table : Definitions) (t : DataType) (left : Definitions) :
    Prop :=
  ∃ depth, parseSite limit depth site ⟨table, site.space⟩ = .ok t ⟨left, site.space⟩

/-- Sites are completed one after the other. A site is completed after those inside it, and then
its type is defined. -/
inductive Completes (limit : Nat) : Definitions → List Site → Definitions → Prop where
  | nil (table : Definitions) : Completes limit table [] table
  | site {table between left : Definitions} {inside : List Site} {site : Site} {t : DataType}
      (done : Completes limit table inside between) (parsed : Parses limit site table t left)
      (defined : left = between.define site.fullName t) :
      Completes limit table (inside ++ [site]) left
  | append {table between left : Definitions} {earlier later : List Site}
      (first : Completes limit table earlier between)
      (second : Completes limit between later left) : Completes limit table (earlier ++ later) left

/-- A name is defined as the type that was read from the first site of that name. -/
inductive FirstGives (limit : Nat) (sites : List Site) (name : String) (t : DataType)
    (before after : Definitions) : Prop where
  | intro (earlier later : List Site) (site : Site) (start left : Definitions)
      (split : sites = earlier ++ site :: later) (named : site.fullName = name)
      (first : ∀ other ∈ earlier, other.fullName ≠ name) (begun : start.Extends before)
      (parsed : Parses limit site start t left) (kept : after.Extends left)

section

variable {limit : Nat} {table left : Definitions} {sites : List Site}

/-- What follows, and what is defined later, does not change the first site of a name. -/
theorem FirstGives.append {name : String} {t : DataType} {last : Definitions}
    (h : FirstGives limit sites name t table left) (later : List Site) (hl : last.Extends left) :
    FirstGives limit (sites ++ later) name t table last := by
  obtain ⟨earlier, others, site, start, after, rfl, named, first, begun, parsed, kept⟩ := h
  exact ⟨earlier, others ++ later, site, start, after, by simp, named, first, begun, parsed,
    hl.trans kept⟩

namespace Completes

theorem extends_left (h : Completes limit table sites left) : left.Extends table := by
  induction h with
  | nil table => exact .refl table
  | site _ _ defined ih => exact defined ▸ (Definitions.extends_define _ _ _).trans ih
  | append _ _ first second => exact second.trans first

/-- Sites that were completed are defined. -/
theorem isSome_find? (h : Completes limit table sites left) {site : Site} (hs : site ∈ sites) :
    (left.find? site.fullName).isSome := by
  induction h with
  | nil => cases hs
  | @site _ between _ _ other t _ _ defined ih =>
    rw [defined, Definitions.find?_define]
    split
    · rfl
    · next hne =>
      rcases List.mem_append.1 hs with hs | hs
      · exact ih hs
      · exact absurd (congrArg Site.fullName (List.mem_singleton.1 hs)) hne
  | append _ second ihfirst ihsecond =>
    rcases List.mem_append.1 hs with hs | hs
    · obtain ⟨t, ht⟩ := Option.isSome_iff_exists.1 (ihfirst hs)
      exact Option.isSome_iff_exists.2 ⟨t, second.extends_left _ t ht⟩
    · exact ihsecond hs

/-- A name that is not defined is not that of a site that was completed. -/
theorem fullName_ne (h : Completes limit table sites left) {name : String}
    (hn : left.find? name = none) : ∀ site ∈ sites, site.fullName ≠ name := by
  rintro site hs rfl
  simpa [hn] using h.isSome_find? hs

/-- What is defined while sites are completed is the type of the first site of its name. -/
theorem firstGives (h : Completes limit table sites left) {name : String} {t : DataType}
    (hnew : table.find? name = none) (ht : left.find? name = some t) :
    FirstGives limit sites name t table left := by
  -- by induction on how the sites were completed: whether the name is defined before the last step
  -- tells which part holds its first site
  induction h with
  | nil =>
    rw [hnew] at ht
    cases ht
  | @site table between left inside site u done parsed defined ih =>
    have hleft : left.Extends between := defined ▸ Definitions.extends_define _ _ _
    cases hb : between.find? name with
    | some v =>
      -- a site inside has defined the name before
      obtain rfl : v = t := Option.some.inj ((hleft name v hb).symm.trans ht)
      exact (ih hnew hb).append [site] hleft
    | none =>
      rw [defined, Definitions.find?_define] at ht
      split at ht
      · next he =>
        subst he
        rw [hb] at ht
        obtain rfl : u = t := Option.some.inj ht
        exact ⟨inside, [], site, table, left, rfl, rfl, done.fullName_ne hb, .refl table, parsed,
          .refl left⟩
      · rw [hb] at ht
        cases ht
  | @append table between left earlier later first second ihfirst ihsecond =>
    cases hb : between.find? name with
    | some v =>
      obtain rfl : v = t := Option.some.inj ((second.extends_left name v hb).symm.trans ht)
      exact (ihfirst hnew hb).append later second.extends_left
    | none =>
      -- none of the earlier sites has this name
      obtain ⟨before, others, site, start, after, rfl, named, hne, begun, parsed, kept⟩ :=
        ihsecond hb ht
      refine ⟨earlier ++ before, others, site, start, after, by simp, named, ?_,
        begun.trans first.extends_left, parsed, kept⟩
      exact fun other ho => (List.mem_append.1 ho).elim (first.fullName_ne hb other) (hne other)

end Completes

end

/-! ## Parts of a walk -/

/-- A part of a walk ends in the namespace in which it started. If it succeeds, it has completed
all of its sites, and otherwise the first ones of them. -/
inductive Ends {α : Type} (limit : Nat) (space : Option String) (sites : List Site)
    (table : Definitions) : EStateM.Result SchemaError Walk α → Prop where
  | ok (a : α) {left : Definitions} (completed : Completes limit table sites left) :
      Ends limit space sites table (.ok a ⟨left, space⟩)
  | error (e : SchemaError) {left : Definitions} {done : List Site} (reached : done <+: sites)
      (completed : Completes limit table done left) :
      Ends limit space sites table (.error e ⟨left, space⟩)

/-- Whatever is defined, a part of a walk completes these sites in a namespace, or fails. -/
def Covers {α : Type} (limit : Nat) (space : Option String) (sites : List Site)
    (walking : Walking α) : Prop :=
  ∀ table, Ends limit space sites table (walking ⟨table, space⟩)

section

variable {α β : Type} {limit : Nat} {space : Option String}

theorem covers_pure (a : α) : Covers limit space [] (pure a) := fun table => .ok a (.nil table)

/-- A failure before anything is completed. -/
theorem covers_throw (sites : List Site) (e : SchemaError) :
    Covers limit space sites (throw e : Walking α) :=
  fun table => .error e List.nil_prefix (.nil table)

theorem covers_ofExcept (x : Except SchemaError α) : Covers limit space [] (ofExcept x) := by
  cases x with
  | ok a => exact covers_pure a
  | error e => exact covers_throw [] e

theorem covers_refuse (sites : List Site) (fault : NodeFault) :
    Covers limit space sites (ofExcept (refuse fault) : Walking α) :=
  covers_throw sites (.unrecognized fault)

/-- The sites of one part come before those of the next one. -/
theorem covers_bind {x : Walking α} {f : α → Walking β} {earlier later : List Site}
    (hx : Covers limit space earlier x) (hf : ∀ a, Covers limit space later (f a)) :
    Covers limit space (earlier ++ later) (x >>= f) := by
  intro table
  have h := hx table
  simp only [bind, EStateM.bind]
  generalize x ⟨table, space⟩ = result at h ⊢
  cases h with
  | error e reached completed =>
    exact .error e (reached.trans (List.prefix_append _ _)) completed
  | @ok a between completed =>
    have h := hf a between
    dsimp only
    generalize f a ⟨between, space⟩ = result at h ⊢
    cases h with
    | ok b more => exact .ok b (completed.append more)
    | error e reached more =>
      exact .error e ((List.prefix_append_right_inj earlier).2 reached) (completed.append more)

/-- Nothing is completed after the first part. -/
theorem covers_bind_nil {x : Walking α} {f : α → Walking β} {sites : List Site}
    (hx : Covers limit space sites x) (hf : ∀ a, Covers limit space [] (f a)) :
    Covers limit space sites (x >>= f) := by
  simpa using covers_bind hx hf

/-- Nothing is completed before the second part. -/
theorem covers_nil_bind {x : Walking α} {f : α → Walking β} {sites : List Site}
    (hx : Covers limit space [] x) (hf : ∀ a, Covers limit space sites (f a)) :
    Covers limit space sites (x >>= f) := covers_bind hx hf

theorem covers_mapM {f : α → Walking β} {g : α → List Site}
    (h : ∀ a, Covers limit space (g a) (f a)) (as : List α) :
    Covers limit space (as.flatMap g) (as.mapM f) := by
  induction as with
  | nil => exact covers_pure []
  | cons a as ih =>
    rw [List.mapM_cons, List.flatMap_cons]
    exact covers_bind (h a) fun b => covers_bind_nil ih fun bs => covers_pure (b :: bs)

/-- Beyond the limit, nothing is completed. -/
theorem covers_guard (depth : Nat) {sites : List Site} {walking : Walking α}
    (h : Covers limit space sites walking) :
    Covers limit space sites (guard limit depth >>= fun _ => walking) := by
  by_cases hd : limit < depth
  · rw [guard_bind_of_lt hd]
    exact covers_throw sites _
  · rwa [guard_eq (Nat.le_of_not_lt hd), pure_bind]

/-- What is completed in another namespace stays so, and the enclosing one is put back. -/
theorem covers_enter {own : Option String} {sites : List Site} {walking : Walking α}
    (h : Covers limit (own <|> space) sites walking) :
    Covers limit space sites (enter own walking) := by
  intro table
  rw [enter_apply]
  have h := h table
  dsimp only
  generalize walking ⟨table, own <|> space⟩ = result at h ⊢
  cases h with
  | ok a completed => exact .ok a completed
  | error e reached completed => exact .error e reached completed

end

/-! ## Sites that are completed -/

/-- The table after a node was registered. -/
def registered (members : Json.Members) (space : Option String) (t : DataType)
    (table : Definitions) : Definitions :=
  match text? members "name" with
  | some name => table.define (fullName space name) t
  | none => table

theorem register_apply (members : Json.Members) (own : Option String) (t : DataType) (walk : Walk) :
    register members own t walk =
      .ok () { walk with named := registered members (own <|> walk.space) t walk.named } := by
  unfold register registered
  cases text? members "name" <;> rfl

section

variable {limit depth : Nat} {space : Option String} {members : Json.Members}

/-- A node is completed after what is inside it, if it has a name. -/
theorem Completes.ofMembers {table between left : Definitions} {inside : List Site}
    {kind : Option Kind} {own : Option String} {t : DataType}
    (done : Completes limit table inside between)
    (hown : ∀ name, Site.own ⟨kind, members, space, name⟩ = own)
    (parsed : ∀ name, Parses limit ⟨kind, members, space, name⟩ table t left)
    (hleft : left = registered members (own <|> space) t between) :
    Completes limit table (inside ++ Site.ofMembers kind space members) left := by
  unfold registered at hleft
  unfold Site.ofMembers
  cases hn : text? members "name" with
  | none =>
    rw [hn] at hleft
    subst hleft
    simpa using done
  | some name =>
    rw [hn] at hleft
    refine .site done (parsed name) ?_
    rw [Site.fullName, hown]
    exact hleft

/-- The type of a named kind is registered in the enclosing namespace. -/
theorem namedPrimitive_apply {kind : Kind} (hk : kind = .fixed ∨ kind = .enum ∨ kind = .uuid)
    {p : Primitive} (hp : primitive kind members = .ok p) (walk : Walk) :
    namedPrimitive kind members walk =
      .ok (.primitive p)
        { walk with named := registered members walk.space (.primitive p) walk.named } := by
  have heq : namedPrimitive kind members =
      register members none (.primitive p) >>= fun _ => pure (.primitive p) := by
    rcases hk with rfl | rfl | rfl <;> simp only [namedPrimitive, hp] <;> rfl
  simp only [heq, bind, EStateM.bind, register_apply]
  rfl

theorem covers_namedPrimitive (kind : Kind) (members : Json.Members) :
    Covers limit space (primitiveSites space kind members) (namedPrimitive kind members) := by
  by_cases hk : kind = .fixed ∨ kind = .enum ∨ kind = .uuid
  · have hsites : primitiveSites space kind members = Site.ofMembers (some kind) space members := by
      rcases hk with rfl | rfl | rfl <;> rfl
    rw [hsites]
    cases hp : primitive kind members with
    | error e =>
      rw [show namedPrimitive kind members = throw e by simp only [namedPrimitive, hp]; rfl]
      exact covers_throw _ e
    | ok p =>
      intro table
      have heq := namedPrimitive_apply hk hp ⟨table, space⟩
      rw [heq]
      exact .ok _ (.ofMembers (.nil table) (fun _ => rfl) (fun _ => ⟨0, heq⟩) rfl)
  · -- a type of another kind is neither a site nor registered
    have hsites : primitiveSites space kind members = [] := by
      cases kind <;> first | rfl | simp at hk
    have heq : namedPrimitive kind members =
        ofExcept (primitive kind members) >>= fun p => pure (.primitive p) := by
      cases kind <;> first | rfl | simp at hk
    rw [hsites, heq]
    exact covers_bind_nil (covers_ofExcept _) fun p => covers_pure _

theorem covers_reference (members : Json.Members) (name : String) :
    Covers limit space [] (reference members name) := by
  intro table
  rw [reference_apply]
  cases resolve? table space name with
  | some t => exact .ok t (.nil table)
  | none => exact covers_refuse [] _ table

end

/-- The readers at a depth complete the sites of what they read. -/
structure Level.Covers (limit : Nat) (level : Level) : Prop where
  node : ∀ space json, Walk.Covers limit space (sites space json) (level.node json)
  union : ∀ space items, Walk.Covers limit space (sites space (.array items)) (level.union items)
  field : ∀ space json, Walk.Covers limit space (fieldSites sites space json) (level.field json)

section

variable {limit depth : Nat} (h : (level limit (depth + 1)).Covers limit) {space : Option String}
include h

theorem covers_mapType (members : Json.Members) :
    Covers limit space (mapSites sites space members)
      (mapType (level limit (depth + 1)) members) := by
  unfold mapType mapSites
  cases Json.Members.get? members "values" with
  | none => exact covers_refuse _ _
  | some values => exact covers_bind_nil (h.node space values) fun a => covers_pure _

theorem covers_scalar (members : Json.Members) (name : String) :
    Covers limit space (scalarSites sites space members name)
      (scalar (level limit (depth + 1)) members name) := by
  have hmap : Covers limit space (mapSites sites space members)
      (mapType (level limit (depth + 1)) members) := covers_mapType h members
  have hprimitive : ∀ kind,
      Covers limit space (primitiveSites space kind members) (namedPrimitive kind members) :=
    fun kind => covers_namedPrimitive kind members
  unfold scalar scalarSites
  dsimp only
  -- the name is looked at if there is no logical type, or one that is not known
  generalize hl : (if name = "map" then mapSites sites space members else _) = l
  generalize hx : (if name = "map" then mapType (level limit (depth + 1)) members else _) = x
  have hname : Covers limit space l x := by
    rw [← hl, ← hx]
    split
    · exact hmap
    cases Kind.ofAvro? name with
    | some kind => exact hprimitive kind
    | none => exact covers_reference members name
  cases text? members "logicalType" with
  | none => exact hname
  | some logical =>
    dsimp only
    split
    · exact hmap
    cases Kind.ofLogical? logical with
    | some kind => exact hprimitive kind
    | none => exact hname

theorem covers_union (items : List Json) :
    Covers limit space (sites space (.array items))
      (union limit depth (level limit (depth + 1)) items) := by
  rw [sites_eq, nodeSites, unionSites]
  refine covers_guard depth ?_
  rcases items.filter (!isNullBranch ·) with _ | ⟨single, _ | ⟨second, rest⟩⟩
  · exact covers_refuse _ _
  · rw [List.flatMap_singleton]
    exact covers_bind_nil (h.node space single) fun a => covers_pure _
  · refine covers_bind_nil (covers_mapM (fun branch => ?_) _) fun types => ?_
    · exact covers_bind_nil (h.node space branch) fun a => covers_pure _
    · exact covers_bind_nil (covers_ofExcept _) fun t => covers_pure _

theorem covers_addFields (r : Record) (nodes : List Json) :
    Covers limit space (nodes.flatMap (fieldSites sites space))
      (addFields (level limit (depth + 1)) r nodes) := by
  induction nodes generalizing r with
  | nil => exact covers_pure r
  | cons node rest ih =>
    rw [List.flatMap_cons]
    refine covers_bind (h.field space node) fun f => ?_
    exact covers_nil_bind (covers_ofExcept _) fun s => ih s

omit h in
/-- A record is registered after all of its fields were read, in the enclosing namespace. -/
theorem record_apply {inner : Level} {members : Json.Members} {name : String} {fields : List Json}
    (hd : depth ≤ limit) (hn : logicalName members = .ok name)
    (hf : (Json.Members.get? members "fields").bind Json.array? = some fields) (walk : Walk) :
    record limit depth inner members walk =
      match enter (text? members "namespace")
          (addFields inner (opened members name) fields) walk with
      | .ok r left =>
        .ok r { left with
          named := registered members (text? members "namespace" <|> left.space) (.record r)
            left.named }
      | .error e left => .error e left := by
  have heq : record limit depth inner members =
      enter (text? members "namespace") (addFields inner (opened members name) fields) >>=
        fun r => register members (text? members "namespace") (.record r) >>= fun _ => pure r := by
    simp only [record, guard_eq hd, hn, hf]
    rfl
  simp only [heq, bind, EStateM.bind, register_apply]
  cases enter _ _ walk <;> rfl

theorem covers_record (members : Json.Members) :
    Covers limit space (recordSites sites space members)
      (record limit depth (level limit (depth + 1)) members) := by
  by_cases hd : limit < depth
  · rw [record, guard_bind_of_lt hd]
    exact covers_throw _ _
  rw [Nat.not_lt] at hd
  cases hn : logicalName members with
  | error e =>
    rw [show record limit depth (level limit (depth + 1)) members = throw e by
      simp only [record, guard_eq hd, hn]; rfl]
    exact covers_throw _ e
  | ok name =>
    cases hf : (Json.Members.get? members "fields").bind Json.array? with
    | none =>
      rw [show record limit depth (level limit (depth + 1)) members =
        ofExcept (refuse (.fieldsMissing name)) by simp only [record, guard_eq hd, hn, hf]; rfl]
      exact covers_refuse _ _
    | some fields =>
      intro table
      have heq := @record_apply limit depth (level limit (depth + 1)) _ _ _ hd hn hf ⟨table, space⟩
      have hfields := @covers_enter _ limit space (text? members "namespace") _ _
        (covers_addFields h (opened members name) fields) table
      rw [recordSites, hf]
      generalize enter (text? members "namespace") _ _ = result at heq hfields
      cases hfields with
      | error e reached completed =>
        -- the record itself is not completed
        rw [heq]
        exact .error e (reached.trans (List.prefix_append _ _)) completed
      | ok r completed =>
        -- the node of the site is the one that was just read
        rw [heq]
        refine .ok r (.ofMembers completed (fun _ => rfl) (fun _ => ⟨depth, ?_⟩) rfl)
        simp only [parseSite, bind, EStateM.bind, heq]
        rfl

theorem covers_object (members : Json.Members) :
    Covers limit space (sites space (.object members))
      (object limit depth (level limit (depth + 1)) members) := by
  rw [sites_eq, nodeSites]
  unfold object objectSites
  rcases Json.Members.get? members "type" with _ | _ | _ | _ | _ | name | items | type
  case some.string =>
    by_cases hrecord : name = "record"
    · subst hrecord
      exact covers_bind_nil (covers_record h members) fun r => covers_pure _
    by_cases harray : name = "array"
    · subst harray
      cases Json.Members.get? members "items" with
      | none => exact covers_refuse _ _
      | some items => exact covers_bind_nil (h.node space items) fun a => covers_pure _
    · simp only
      exact covers_bind_nil (covers_scalar h members name) fun t => covers_pure _
  case some.array => exact h.union space items
  case some.object => exact h.node space (.object type)
  all_goals exact covers_refuse _ _

theorem covers_node (json : Json) :
    Covers limit space (sites space json)
      (node limit depth (level limit (depth + 1)) json) := by
  refine covers_guard depth ?_
  cases json with
  | string name =>
    -- a name is read like a node without members, which has no site
    have hscalar : Covers limit space (scalarSites sites space [] name)
        (scalar (level limit (depth + 1)) [] name) := covers_scalar h [] name
    rw [scalarSites_nil] at hscalar
    rw [sites_eq]
    exact covers_bind_nil hscalar fun t => covers_pure _
  | array items => exact covers_union h items
  | object members => exact covers_object h members
  | null | bool _ | int _ | float _ => exact covers_refuse _ _

theorem covers_field (json : Json) :
    Covers limit space (fieldSites sites space json)
      (field limit depth (level limit (depth + 1)) json) := by
  refine covers_guard depth ?_
  cases json with
  | object members =>
    refine covers_nil_bind (covers_ofExcept _) fun name => ?_
    exact covers_bind_nil (covers_object h members) fun a => covers_pure _
  | null | bool _ | int _ | float _ | string _ | array _ => exact covers_refuse _ _

end

/-- The readers at every depth complete the sites of what they read. -/
theorem covers_level (limit depth : Nat) : (level limit depth).Covers limit := by
  -- by induction on the levels that are left
  induction hleft : limit + 1 - depth generalizing depth with
  | zero =>
    rw [level, hleft]
    exact ⟨fun _ _ => covers_throw _ _, fun _ _ => covers_throw _ _, fun _ _ => covers_throw _ _⟩
  | succ left ih =>
    have h := ih (depth + 1) (by omega)
    rw [level_eq]
    exact ⟨fun _ => covers_node h, fun _ => covers_union h, fun _ => covers_field h⟩

/-! ## The frame -/

/-- What a walk leaves behind, with a result or without. -/
def after {α : Type} : EStateM.Result SchemaError Walk α → Walk
  | .ok _ left => left
  | .error _ left => left

/-- What a walk through a node with these sites does to the state, with a result or without. -/
structure Frame {α : Type} (limit : Nat) (node : Json) (sites : List Site) (before : Walk)
    (result : EStateM.Result SchemaError Walk α) : Prop where
  /-- The enclosing namespace is the one from before. -/
  space_eq : (after result).space = before.space
  /-- Definitions stay as they are. -/
  kept : (after result).named.Extends before.named
  /-- A new definition has the name of a site, and its type is that of the first such site. -/
  added : ∀ name t, before.named.find? name = none → (after result).named.find? name = some t →
    FirstGives limit sites name t before.named (after result).named
  /-- With a result, the names of all sites are defined. -/
  complete : ∀ a left, result = .ok a left →
    ∀ site ∈ sites, (left.named.find? site.fullName).isSome
  /-- The sites are the node and nodes inside it. -/
  inside : ∀ site ∈ sites, (Json.object site.members).TypeNode node

theorem Covers.toFrame {α : Type} {limit : Nat} {walk : Walk} {node : Json} {sites : List Site}
    {walking : Walking α} (h : Covers limit walk.space sites walking)
    (inside : ∀ site ∈ sites, (Json.object site.members).TypeNode node) :
    Frame limit node sites walk (walking walk) := by
  have h := h walk.named
  generalize walking ⟨walk.named, walk.space⟩ = result at h ⊢
  cases h with
  | ok a completed =>
    refine ⟨rfl, completed.extends_left, fun name t => completed.firstGives, ?_, inside⟩
    rintro _ _ ⟨⟩
    exact fun site => completed.isSome_find?
  | @error e left done reached completed =>
    refine ⟨rfl, completed.extends_left, fun name t hnew ht => ?_, fun _ _ => nofun, inside⟩
    obtain ⟨rest, rfl⟩ := reached
    exact (completed.firstGives hnew ht).append rest (.refl left)

/-- Whatever the state, every part of a walk keeps to its frame, at every depth and whether it gives
a result or fails. The walk does what the readers do that are given the namespace. -/
theorem keeps_frame (limit depth : Nat) (walk : Walk) :
    let inner := level limit (depth + 1)
    (∀ json, Frame limit json (sites walk.space json) walk (node limit depth inner json walk)) ∧
    (∀ members, Frame limit (.object members) (sites walk.space (.object members)) walk
      (object limit depth inner members walk)) ∧
    (∀ items, Frame limit (.array items) (sites walk.space (.array items)) walk
      (union limit depth inner items walk)) ∧
    (∀ members, Frame limit (.object members) (recordSites sites walk.space members) walk
      (record limit depth inner members walk)) ∧
    (∀ json, Frame limit json (fieldSites sites walk.space json) walk
      (field limit depth inner json walk)) ∧
    (∀ members name, Frame limit (.object members) (scalarSites sites walk.space members name) walk
      (scalar inner members name walk)) ∧
    (∀ members, Frame limit (.object members) (mapSites sites walk.space members) walk
      (mapType inner members walk)) ∧
    (level limit depth).Follows (Wire.inner limit (limit + 1 - depth)) := by
  have h := covers_level limit (depth + 1)
  refine ⟨?node, ?object, ?union, ?record, ?field, ?scalar, ?map, follows_level limit depth⟩
  case node => exact fun json => (covers_node h json).toFrame fun _ => typeNode_of_mem_sites
  case object =>
    exact fun members => (covers_object h members).toFrame fun _ => typeNode_of_mem_sites
  case union => exact fun items => (covers_union h items).toFrame fun _ => typeNode_of_mem_sites
  case record =>
    exact fun members => (covers_record h members).toFrame fun _ hs =>
      (liesIn_of_mem_recordSites hs).typeNode
  case field =>
    intro json
    refine (covers_field h json).toFrame fun _ hs => ?_
    cases json with
    | object members => exact typeNode_of_mem_sites hs
    | _ => cases hs
  case scalar =>
    exact fun members name => (covers_scalar h members name).toFrame fun _ hs =>
      (liesIn_of_mem_scalarSites hs).typeNode
  case map =>
    exact fun members => (covers_mapType h members).toFrame fun _ hs =>
      (liesIn_of_mem_mapSites hs).typeNode

-- the second field refers to no type: the first one stays defined, and the namespace is put back
example :
    let hash := Json.object
      [("name", .string "hash"), ("size", .int 4), ("type", .string "fixed")]
    let fields := Json.array
      [.object [("name", .string "a"), ("type", hash)],
        .object [("name", .string "b"), ("type", .string "other")]]
    let document := Json.object
      [("fields", fields), ("name", .string "r"), ("namespace", .string "ns"),
        ("type", .string "record")]
    let left := after (node 8 0 (level 8 1) document ⟨[], some "outer"⟩)
    (sites (some "outer") document).map Site.fullName = ["ns.hash", "ns.r"] ∧
      left.named.map Prod.fst = ["ns.hash"] ∧ left.space = some "outer" := by
  decide +kernel

end Walk

end AvroSchema
