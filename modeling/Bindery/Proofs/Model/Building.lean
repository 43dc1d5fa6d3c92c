import Mathlib
import Bindery.Model.Building
import Bindery.Proofs.FieldType.Blittable
/-!
# Built models

What a built model is made of (`BuiltFrom`).  In a well-formed registry every model in the walk of a
built one is itself the model of its own name (`build_of_mem_walk`), so what holds of built models
holds at every depth; and every definition nested in that of a built model has its model in the walk
(`exists_mem_walk`).
-/

namespace Bindery

/-! ### Walks -/

namespace Model

variable {m n : Model}

theorem mem_walkAll {ms : List Model} : n ∈ walkAll ms ↔ ∃ c ∈ ms, n ∈ c.walk := by
  induction ms with
  | nil => simp [walkAll]
  | cons c ms ih => simp [walkAll, ih]

theorem mem_walk : n ∈ m.walk ↔ n = m ∨ ∃ c ∈ m.nested, n ∈ c.walk := by
  obtain ⟨_, _, _, _, _, _, _, _, nested, _⟩ := m
  rw [walk, List.mem_cons, mem_walkAll]

theorem self_mem_walk (m : Model) : m ∈ m.walk := mem_walk.2 (.inl rfl)

theorem sizeOf_lt_of_mem_nested {c : Model} (h : c ∈ m.nested) : sizeOf c < sizeOf m := by
  obtain ⟨_, _, _, _, _, _, _, _, nested, _⟩ := m
  have := List.sizeOf_lt_of_mem h
  simp only [mk.sizeOf_spec] at this ⊢
  omega

theorem nested_induction {P : Model → Prop} (step : ∀ m, (∀ c ∈ m.nested, P c) → P m) (m : Model) :
    P m := by
  induction m using (measure (fun m : Model => sizeOf m)).wf.induction with
  | h m ih => exact step m fun c hc => ih c (sizeOf_lt_of_mem_nested hc)

theorem mem_walk_of_mem_nested {c : Model} (hn : n ∈ m.walk) (hc : c ∈ n.nested) : c ∈ m.walk := by
  induction m using nested_induction with
  | step m ih =>
    rcases mem_walk.1 hn with rfl | ⟨k, hk, hn⟩
    · exact mem_walk.2 (.inr ⟨c, hc, c.self_mem_walk⟩)
    · exact mem_walk.2 (.inr ⟨k, hk, ih k hk hn⟩)

end Model

/-! ### The types of field lists -/

namespace FieldList

theorem map_snd_uniqueAfter (taken : List String) (fields : FieldList) :
    (uniqueAfter taken fields).map (·.2) = fields.map (·.2) := by
  induction fields generalizing taken with
  | nil => rfl
  | cons f fields ih =>
    simp only [uniqueAfter, List.map_cons, ih]

/-- The passes drop the pointers of delegates and fill a struct without fields. -/
theorem map_snd_run (guid : Guid) (fields : FieldList) :
    (run (standardPasses guid) fields).map (·.2) =
      if fields.isEmpty && guid.isAbsent then [.ofPrimitive .u8]
      else fields.map (·.2.fixDelegate) := by
  have hfixed : (fixDelegates (unique fields)).map (·.2) = fields.map (·.2.fixDelegate) := by
    have htypes := congrArg (List.map FieldType.fixDelegate) (map_snd_uniqueAfter [] fields)
    rw [List.map_map, List.map_map] at htypes
    rw [fixDelegates, List.map_map]
    exact htypes
  have hempty : (fixDelegates (unique fields)).isEmpty = fields.isEmpty := by
    rw [← List.isEmpty_map (f := (·.2)), hfixed, List.isEmpty_map]
  simp only [run, standardPasses, List.foldl_cons, List.foldl_nil, Pass.apply, pad, hempty]
  split
  · rfl
  · exact hfixed

end FieldList

/-! ### Stored fields -/

namespace Registry

variable {reg : Registry}

theorem result_resolveTraced (scope : Scope) (f : Field) (type : TypeExpr) :
    (reg.resolveTraced scope f type).result = reg.resolveStored scope f type := by
  unfold resolveTraced
  simp only [Traced.result_bind, Traced.result_lift, Traced.result_tell, Traced.result_pure]
  cases reg.resolveStored scope f type <;> rfl

theorem result_storedFields (scope : Scope) (d : Definition) :
    (reg.storedFields scope d.fields).result =
      d.stored.mapM fun f => (reg.resolveStored scope f.1 f.2).map fun t =>
        (Code.memberIdentifier f.1.name, t) := by
  unfold storedFields Definition.stored
  induction d.fields with
  | nil => rfl
  | cons f fields ih =>
    rw [List.filterMapM_cons, List.filterMap_cons]
    cases hkind : f.kind with
    | literal c => simpa using ih
    | stored type =>
      simp only [Traced.result_bind, Traced.result_pure, result_resolveTraced, List.mapM_cons]
      cases reg.resolveStored scope f type with
      | error e => rfl
      | ok t =>
        simp only [Except.bind, Except.map, Traced.result_bind, ih]
        rfl

/-! ### The parts of a built model -/

/-- The scope in which the fields of a definition are resolved when its nested models are built. -/
def builtScope (name : TypeName) (children : List Model) : Scope :=
  .of name.place (children.map fun c => (c.metadataName, c.name)) (some name.space)

/-- What the model `m` of the definition `d` under the name `name` is made of: the models of the
nested definitions in order of declaration, and the stored fields with their types. -/
structure BuiltFrom (reg : Registry) (name : TypeName) (d : Definition) (children : List Model)
    (stored : FieldList) (m : Model) : Prop where
  found : reg.find? name.place = some d
  isStruct : d.category = .struct
  checked : ∀ n ∈ d.nested, checkNested d name.place n = .ok ()
  /-- Each nested definition has its model, under a name with its index. -/
  built : List.Forall₂ (fun n c => (reg.build (name.nestedName n.2 n.1)).result = .ok c)
    d.nested.zipIdx children
  resolved : List.Forall₂ (fun f entry => entry.1 = Code.memberIdentifier f.1.name ∧
    reg.resolveStored (builtScope name children) f.1 f.2 = .ok entry.2) d.stored stored
  name_eq : m.name = name
  explicitLayout_eq : m.explicitLayout = d.explicitLayout
  generics_eq : m.generics = d.generics
  constants_eq : m.constants = d.constants
  isTypedef_eq : m.isTypedef = (d.attribute? typedefAttribute).isSome
  signature_eq : (if name.winrt then some <$> reg.structSignature name else pure none) =
    Except.ok m.signature
  guid_eq : Guid.ofDefinition d = .ok m.guid
  fields_eq : m.fields = FieldList.run (FieldList.standardPasses m.guid) stored
  nested_eq : m.nested = children.mergeSort fun a b => decide (a.metadataName ≤ b.metadataName)
  shape_eq : m.shape = Shape.of m.guid m.explicitLayout m.nested

/-! ### Building step by step -/

def modelOf (name : TypeName) (d : Definition) (signature : Option String) (children : List Model)
    (stored : FieldList) (guid : Guid) : Model :=
  let nested := children.mergeSort fun a b => decide (a.metadataName ≤ b.metadataName)
  { name, signature, guid, nested
    explicitLayout := d.explicitLayout
    generics := d.generics
    fields := FieldList.run (FieldList.standardPasses guid) stored
    constants := d.constants
    isTypedef := (d.attribute? typedefAttribute).isSome
    shape := Shape.of guid d.explicitLayout nested }

/-- The signature that goes into a model: only WinRT definitions have one. -/
def signatureFor (reg : Registry) (name : TypeName) : Except Error (Option String) :=
  if name.winrt then some <$> reg.structSignature name else pure none

def buildInner (reg : Registry) (name : TypeName) (outer : Definition) (n : Definition × Nat) :
    Except Error Model := do
  checkNested outer name.place n.1
  (reg.build (name.nestedName n.2 n.1)).result

/-- A stored field by identifier, with its type in the scope. -/
def storedEntry (reg : Registry) (scope : Scope) (f : Field × TypeExpr) :
    Except Error (String × FieldType) :=
  (reg.resolveStored scope f.1 f.2).map fun t => (Code.memberIdentifier f.1.name, t)

theorem result_assemble (name : TypeName) (d : Definition) (signature : Option String)
    (children : List Model) :
    (reg.assemble name d signature children).result = (do
      let stored ← d.stored.mapM (reg.storedEntry (builtScope name children))
      let guid ← Guid.ofDefinition d
      return modelOf name d signature children stored guid) := by
  unfold assemble
  simp only [Traced.result_bind, Traced.result_lift, Traced.result_tell, Traced.result_pure]
  rw [show Scope.of name.place (children.map fun m => (m.metadataName, m.name)) (some name.space) =
    builtScope name children from rfl, result_storedFields]
  rfl

theorem result_buildNested (name : TypeName) (outer : Definition) (index : Nat)
    (ds : List Definition) :
    (reg.buildNested name outer index ds).result = (ds.zipIdx index).mapM (fun n => do
      checkNested outer name.place n.1
      (reg.buildDefinition (name.nestedName n.2 n.1) n.1).result) := by
  induction ds generalizing index with
  | nil =>
    rw [buildNested]
    rfl
  | cons d ds ih =>
    rw [buildNested, List.zipIdx_cons, List.mapM_cons, ← ih]
    simp only [Traced.result_bind, Traced.result_lift, Traced.result_tell, Traced.result_pure]
    cases checkNested outer name.place d <;> rfl

theorem result_buildDefinition (name : TypeName) (d : Definition) :
    (reg.buildDefinition name d).result =
      if d.category = .struct then do
        let signature ← reg.signatureFor name
        let children ← (reg.buildNested name d 0 d.nested).result
        (reg.assemble name d signature children).result
      else .error (.notAggregate name.place.qualifiedName d.category) := by
  obtain ⟨dname, category, fields, attributes, explicitLayout, winrt, generics, underlying,
    enumValues, file, line, nested⟩ := d
  rw [buildDefinition]
  by_cases hcategory : category = .struct
  · simp only [hcategory, ne_eq, not_true_eq_false, if_false, if_true, signatureFor]
    split
    · simp only [Traced.result_bind, Traced.result_map, Traced.result_lift]
      rfl
    · simp only [Traced.result_bind, Traced.result_pure]
      rfl
  · simp only [ne_eq, hcategory, not_false_eq_true, if_true, if_false]
    rfl

theorem build_eq {name : TypeName} {d : Definition} (h : reg.find? name.place = some d) :
    reg.build name = reg.buildDefinition name d := by
  rw [build, h]

/-- **Building step by step.**  In a well-formed registry the model of a struct comes from its
signature, the models of its nested definitions by their own names, its stored fields and its
identity, in this order. -/
theorem WellFormed.result_build (hreg : reg.WellFormed) {name : TypeName} {d : Definition}
    (hd : reg.find? name.place = some d) :
    (reg.build name).result =
      if d.category = .struct then do
        let signature ← reg.signatureFor name
        let children ← d.nested.zipIdx.mapM (reg.buildInner name d)
        let stored ← d.stored.mapM (reg.storedEntry (builtScope name children))
        let guid ← Guid.ofDefinition d
        return modelOf name d signature children stored guid
      else .error (.notAggregate name.place.qualifiedName d.category) := by
  -- a nested definition is found under its name, so its model is the one of this name
  have hnested : (reg.buildNested name d 0 d.nested).result =
      d.nested.zipIdx.mapM (reg.buildInner name d) := by
    rw [result_buildNested]
    refine mapM_congr fun n hn => ?_
    rw [buildInner, build_eq (hreg.find?_nested hd (List.fst_mem_of_mem_zipIdx hn))]
  rw [build_eq hd, result_buildDefinition, hnested]
  simp only [result_assemble]

/-- **Built models.**  In a well-formed registry a built model is made of the models of the nested
definitions and of the resolved fields. -/
theorem WellFormed.builtFrom (hreg : reg.WellFormed) {name : TypeName} {m : Model}
    (h : (reg.build name).result = .ok m) :
    ∃ d children stored, reg.BuiltFrom name d children stored m := by
  cases hd : reg.find? name.place with
  | none =>
    rw [build, hd] at h
    cases h
  | some d =>
    rw [hreg.result_build hd] at h
    split at h
    · rename_i hstruct
      simp only [bind_eq_ok, mapM_eq_ok] at h
      obtain ⟨signature, hsignature, children, hchildren, stored, hstored, guid, hguid, h⟩ := h
      cases h
      refine ⟨d, children, stored, hd, hstruct, fun n hn => ?_, ?_, ?_, rfl, rfl, rfl, rfl, rfl,
        hsignature, hguid, rfl, rfl, rfl⟩
      · obtain ⟨k, hk⟩ := exists_mem_zipIdx hn
        obtain ⟨c, -, hc⟩ := exists_of_mem_left hchildren hk
        obtain ⟨_, hcheck, -⟩ := bind_eq_ok.1 hc
        exact hcheck
      · refine hchildren.imp fun n c hc => ?_
        obtain ⟨_, -, hbuild⟩ := bind_eq_ok.1 hc
        exact hbuild
      · refine hstored.imp fun f entry hentry => ?_
        unfold storedEntry at hentry
        cases ht : reg.resolveStored (builtScope name children) f.1 f.2 with
        | error e => simp [ht, Except.map] at hentry
        | ok t =>
          simp only [ht, Except.map, Except.ok.injEq] at hentry
          subst hentry
          exact ⟨rfl, rfl⟩
    · cases h

theorem name_of_build {name : TypeName} {m : Model} (h : (reg.build name).result = .ok m) :
    m.name = name := by
  unfold build at h
  split at h
  · rw [result_buildDefinition] at h
    split at h
    · simp only [result_assemble, bind_eq_ok] at h
      obtain ⟨_, -, _, -, _, -, _, -, h⟩ := h
      cases h
      rfl
    · cases h
  · cases h

namespace BuiltFrom

variable {name : TypeName} {d : Definition} {children : List Model} {stored : FieldList} {m : Model}

theorem mem_nested (h : reg.BuiltFrom name d children stored m) {c : Model} :
    c ∈ m.nested ↔ c ∈ children := by
  rw [h.nested_eq]
  exact (List.mergeSort_perm _ _).mem_iff

theorem of_mem_nested (h : reg.BuiltFrom name d children stored m) {c : Model}
    (hc : c ∈ m.nested) : ∃ n ∈ d.nested, ∃ k, (reg.build (name.nestedName k n)).result = .ok c := by
  obtain ⟨⟨n, k⟩, hn, hbuild⟩ := exists_of_mem_right h.built (h.mem_nested.1 hc)
  exact ⟨n, List.fst_mem_of_mem_zipIdx hn, k, hbuild⟩

theorem exists_nested (h : reg.BuiltFrom name d children stored m) {n : Definition}
    (hn : n ∈ d.nested) :
    ∃ c ∈ m.nested, ∃ k, (reg.build (name.nestedName k n)).result = .ok c := by
  obtain ⟨k, hk⟩ := exists_mem_zipIdx hn
  obtain ⟨c, hc, hbuild⟩ := exists_of_mem_left h.built hk
  exact ⟨c, h.mem_nested.2 hc, k, hbuild⟩

theorem map_metadataName (h : reg.BuiltFrom name d children stored m) :
    children.map (·.metadataName) = d.nested.map (·.name) := by
  have hnames : List.Forall₂ (fun n c => n.1.name = c.metadataName) d.nested.zipIdx children := by
    refine h.built.imp fun n c hc => ?_
    rw [Model.metadataName, name_of_build hc]
    exact (Place.child_name _ _).symm
  rw [← map_eq_of_forall₂ hnames,
    show (fun n : Definition × Nat => n.1.name) = Definition.name ∘ Prod.fst from rfl,
    ← List.map_map, List.zipIdx_map_fst]

theorem exists_field (h : reg.BuiltFrom name d children stored m) {f : Field} {type : TypeExpr}
    (hf : f ∈ d.fields) (hkind : f.kind = .stored type) :
    ∃ t, reg.resolveStored (builtScope name children) f type = .ok t ∧
      ∃ x, (x, t.fixDelegate) ∈ m.fields := by
  obtain ⟨entry, hentry, -, ht⟩ :=
    exists_of_mem_left h.resolved (Definition.mem_stored.2 ⟨hf, hkind⟩)
  refine ⟨entry.2, ht, ?_⟩
  have hmem : entry.2.fixDelegate ∈ m.fields.map (·.2) := by
    rw [h.fields_eq, FieldList.map_snd_run, if_neg (by simp [List.ne_nil_of_mem hentry])]
    exact List.mem_map_of_mem hentry
  obtain ⟨⟨x, t⟩, hx, heq⟩ := List.mem_map.1 hmem
  exact ⟨x, heq ▸ hx⟩

/-- The type of a field of the model is that of a stored field, without the pointers of a delegate,
or that of the byte in a struct without fields. -/
theorem of_mem_fields (h : reg.BuiltFrom name d children stored m) {entry : String × FieldType}
    (hentry : entry ∈ m.fields) :
    entry.2 = .ofPrimitive .u8 ∨ ∃ f ∈ d.fields, ∃ type t, f.kind = .stored type ∧
      reg.resolveStored (builtScope name children) f type = .ok t ∧ entry.2 = t.fixDelegate := by
  have hmem : entry.2 ∈ m.fields.map (·.2) := List.mem_map_of_mem hentry
  rw [h.fields_eq, FieldList.map_snd_run] at hmem
  split at hmem
  · exact .inl (List.mem_singleton.1 hmem)
  · obtain ⟨e, he, heq⟩ := List.mem_map.1 hmem
    obtain ⟨⟨f, type⟩, hf, -, ht⟩ := exists_of_mem_right h.resolved he
    obtain ⟨hf, hkind⟩ := Definition.mem_stored.1 hf
    exact .inr ⟨f, hf, type, e.2, hkind, ht, heq.symm⟩

end BuiltFrom

/-! ### The scope of a built model -/

theorem own_nestedName (name : TypeName) (k : Nat) (n : Definition) :
    (name.nestedName k n).own = .ofDefinition (name.place.child n.name) n := by
  simp [TypeName.own, TypeName.nestedName, TypeName.ofDefinition]

theorem lookup_children {name : TypeName} {ds : List Definition} {k : Nat} {children : List Model}
    (h : List.Forall₂ (fun n c => c.name = name.nestedName n.2 n.1) (ds.zipIdx k) children)
    (x : String) :
    ((children.map fun c => (c.metadataName, c.name)).lookup x).map TypeName.own =
      (ds.find? (·.name = x)).map (.ofDefinition (name.place.child x)) := by
  induction ds generalizing k children with
  | nil =>
    cases h
    rfl
  | cons n ds ih =>
    rw [List.zipIdx_cons] at h
    obtain _ | ⟨hc, h⟩ := h
    rename_i c children
    have hmeta : c.metadataName = n.name := by
      rw [Model.metadataName, hc]
      exact Place.child_name _ _
    rw [List.map_cons, List.lookup_cons, List.find?_cons, hmeta]
    by_cases hx : n.name = x
    · simp [hx, hc, own_nestedName]
    · simp only [beq_eq_false_iff_ne.2 (Ne.symm hx), decide_eq_false hx]
      exact ih h

/-- With the models of the nested definitions of a definition in its own namespace, the scope has
the right names. -/
theorem faithful_builtScope {name : TypeName} {d : Definition} {children : List Model}
    (hd : reg.find? name.place = some d)
    (hspace : name.space = "" ∨ name.space = name.place.space)
    (hchildren : List.Forall₂ (fun n c => c.name = name.nestedName n.2 n.1) d.nested.zipIdx
      children) : (builtScope name children).Faithful reg := by
  refine ⟨?_, fun x => ?_⟩
  · simp only [builtScope, Scope.of]
    rcases hspace with hspace | hspace
    · rw [if_pos hspace]
    · rw [hspace, ite_id]
  · rw [nestedName?, show (builtScope name children).owner = name.place from rfl, hd]
    exact lookup_children hchildren x

namespace BuiltFrom

variable {name : TypeName} {d : Definition} {children : List Model} {stored : FieldList} {m : Model}

theorem lookup_nested (h : reg.BuiltFrom name d children stored m) (x : String) :
    ((builtScope name children).nested.lookup x).map TypeName.own =
      reg.nestedName? name.place x := by
  rw [nestedName?, h.found]
  exact lookup_children (h.built.imp fun _ _ hc => name_of_build hc) x

theorem faithful (h : reg.BuiltFrom name d children stored m)
    (hspace : name.space = "" ∨ name.space = name.place.space) :
    (builtScope name children).Faithful reg :=
  faithful_builtScope h.found hspace (h.built.imp fun _ _ hc => name_of_build hc)

theorem exists_nested_of_lookup (h : reg.BuiltFrom name d children stored m) {x : String}
    {n : TypeName} (hlookup : (builtScope name children).nested.lookup x = some n) :
    ∃ c ∈ m.nested, c.name = n := by
  obtain ⟨before, after, hsplit, -⟩ := List.lookup_eq_some_iff.1 hlookup
  have hmem : (x, n) ∈ (builtScope name children).nested := by rw [hsplit]; simp
  obtain ⟨c, hc, heq⟩ := List.mem_map.1 hmem
  exact ⟨c, h.mem_nested.2 hc, congrArg Prod.snd heq⟩

/-- A field of a definition is of that of a nested model, or of one at the top level under its own
name. -/
theorem nested_or_top_of_mem_fields (h : reg.BuiltFrom name d children stored m)
    {f : String × FieldType} {n : TypeName} (hf : f ∈ m.fields) (hn : f.2.base = .named n) :
    (∃ c ∈ m.nested, c.name = n) ∨ (reg.Has n ∧ n.place.isNested = false) := by
  rcases h.of_mem_fields hf with hpad | ⟨field, -, type, t, -, ht, heq⟩
  · rw [hpad] at hn
    cases hn
  · have hbase : t.base = .named n := by
      rwa [heq, FieldType.base_fixDelegate] at hn
    obtain ⟨x, hx⟩ := base_of_resolveExpr (resolveStored_eq_ok.1 ht).1
    rw [hbase] at hx
    cases hnested : n.place.isNested with
    | false =>
      rcases lookup_or_has_of_resolveName hx with hlookup | hhas
      · exact .inl (h.exists_nested_of_lookup hlookup)
      · exact .inr ⟨hhas, rfl⟩
    | true =>
      rcases nested_of_resolveName hx hnested with hlookup | ⟨hnone, hlookup⟩
      · exact .inl (h.exists_nested_of_lookup hlookup)
      · have hnames := h.lookup_nested x
        rw [hnone] at hnames
        rw [show (builtScope name children).owner = name.place from rfl, ← hnames] at hlookup
        cases hlookup

theorem has_of_mem_fields (h : reg.BuiltFrom name d children stored m) {f : String × FieldType}
    {n : TypeName} (hf : f ∈ m.fields) (hn : f.2.base = .named n)
    (htop : n.place.isNested = false) : reg.Has n := by
  rcases h.nested_or_top_of_mem_fields hf hn with ⟨c, hc, rfl⟩ | ⟨hhas, -⟩
  · obtain ⟨inner, -, k, hbuild⟩ := h.of_mem_nested hc
    rw [name_of_build hbuild] at htop
    simp [TypeName.nestedName, Place.child, Place.isNested] at htop
  · exact hhas

end BuiltFrom

theorem WellFormed.nodup_metadataName (hreg : reg.WellFormed) {name : TypeName} {m : Model}
    (hbuild : (reg.build name).result = .ok m) : (m.nested.map (·.metadataName)).Nodup := by
  obtain ⟨d, children, _, hm⟩ := hreg.builtFrom hbuild
  rw [hm.nested_eq, ((List.mergeSort_perm children _).map _).nodup_iff, hm.map_metadataName]
  exact (hreg.distinct_of_find? hm.found).names

theorem WellFormed.pairwise_nested (hreg : reg.WellFormed) {name : TypeName} {m : Model}
    (hbuild : (reg.build name).result = .ok m) :
    m.nested.Pairwise fun a b => a.metadataName < b.metadataName := by
  obtain ⟨d, children, _, hm⟩ := hreg.builtFrom hbuild
  have hsorted : m.nested.Pairwise fun a b => a.metadataName ≤ b.metadataName := by
    rw [hm.nested_eq]
    refine (List.pairwise_mergeSort (fun a b c hab hbc => ?_) (fun a b => ?_) children).imp
      of_decide_eq_true
    · exact decide_eq_true (String.le_trans (of_decide_eq_true hab) (of_decide_eq_true hbc))
    · simpa using String.le_total a.metadataName b.metadataName
  exact (hsorted.and (List.pairwise_map.1 (hreg.nodup_metadataName hbuild))).imp fun h =>
    Std.lt_of_le_of_ne h.1 h.2

/-- The model of a nested struct that a field of a built model has is nested in it. -/
theorem WellFormed.exists_nested_of_field (hreg : reg.WellFormed) {name n : TypeName} {m : Model}
    (hbuild : (reg.build name).result = .ok m) {f : String × FieldType} (hf : f ∈ m.fields)
    (hn : f.2.base = .named n) (hnested : n.place.isNested = true) :
    ∃ e ∈ m.nested, (reg.build n).result = .ok e := by
  obtain ⟨d, children, stored, hm⟩ := hreg.builtFrom hbuild
  rcases hm.nested_or_top_of_mem_fields hf hn with ⟨c, hc, rfl⟩ | ⟨-, htop⟩
  · obtain ⟨inner, -, k, hcbuild⟩ := hm.of_mem_nested hc
    exact ⟨c, hc, by rw [name_of_build hcbuild, hcbuild]⟩
  · rw [hnested] at htop
    cases htop

/-! ### The walk of a built model -/

/-- **Models inside models.**  Every model in the walk of a built one is the model of its own name,
which stands for a definition inside that of the built one. -/
theorem WellFormed.build_of_mem_walk (hreg : reg.WellFormed) {name : TypeName} {m n : Model}
    (h : (reg.build name).result = .ok m) (hn : n ∈ m.walk) :
    (reg.build n.name).result = .ok n ∧ n.name.space = name.space ∧
      ∃ steps, n.name.place = name.place.within steps := by
  induction m using Model.nested_induction generalizing name with
  | step m ih =>
    rcases Model.mem_walk.1 hn with rfl | ⟨c, hc, hn⟩
    · rw [name_of_build h]
      exact ⟨h, rfl, [], (Place.within_nil _).symm⟩
    · obtain ⟨d, children, stored, hm⟩ := hreg.builtFrom h
      obtain ⟨inner, -, k, hbuild⟩ := hm.of_mem_nested hc
      obtain ⟨hn, hspace, steps, hplace⟩ := ih c hc hbuild hn
      refine ⟨hn, hspace, inner.name :: steps, ?_⟩
      rw [hplace, ← Place.child_within]
      rfl

theorem WellFormed.eq_or_length_lt_of_mem_walk (hreg : reg.WellFormed) {name : TypeName}
    {m n : Model} (h : (reg.build name).result = .ok m) (hn : n ∈ m.walk) :
    n = m ∨ m.name.name.length < n.name.name.length := by
  induction m using Model.nested_induction generalizing name with
  | step m ih =>
    rcases Model.mem_walk.1 hn with rfl | ⟨c, hc, hn⟩
    · exact .inl rfl
    · obtain ⟨d, children, stored, hm⟩ := hreg.builtFrom h
      obtain ⟨inner, -, k, hbuild⟩ := hm.of_mem_nested hc
      have hlong : m.name.name.length < c.name.name.length := by
        rw [name_of_build h, name_of_build hbuild]
        simp only [TypeName.nestedName, String.length_append]
        have : "_".length = 1 := rfl
        omega
      rcases ih c hc hbuild hn with rfl | hlt
      · exact .inr hlong
      · exact .inr (Nat.lt_trans hlong hlt)

/-- Every definition inside that of a built model has its model in the walk. -/
theorem WellFormed.exists_mem_walk (hreg : reg.WellFormed) {name : TypeName} {m : Model}
    {steps : List String} {inner : Definition} (h : (reg.build name).result = .ok m)
    (hinner : reg.find? (name.place.within steps) = some inner) :
    ∃ n ∈ m.walk, n.name.place = name.place.within steps := by
  induction steps generalizing name m with
  | nil => exact ⟨m, m.self_mem_walk, by rw [name_of_build h, Place.within_nil]⟩
  | cons step steps ih =>
    obtain ⟨d, children, stored, hm⟩ := hreg.builtFrom h
    rw [← Place.child_within] at hinner ⊢
    -- the first step leads to a nested definition, and the rest is found from there
    have hchild := hinner
    rw [find?_within] at hchild
    obtain ⟨k, hk, -⟩ := Option.bind_eq_some_iff.1 hchild
    rw [find?_child, hm.found] at hk
    obtain rfl : k.name = step := by simpa using List.find?_some hk
    obtain ⟨c, hc, index, hbuild⟩ := hm.exists_nested (List.mem_of_find?_eq_some hk)
    obtain ⟨n, hn, hplace⟩ := ih hbuild hinner
    exact ⟨n, Model.mem_walk.2 (.inr ⟨c, hc, hn⟩), hplace⟩

end Registry

/-! ### A sample -/

namespace Sample

/-- A struct with constants in which a struct and a union are nested. -/
def wholeText : String :=
  "namespace N { struct A { u: _U; const K: u8 = 1; union _U { y: u8; } struct _S { x: u8; } } }"

/-- The struct or union nested in `A`, with one field of a byte. -/
def part (name field : String) (isUnion : Bool) : Definition :=
  ⟨name, .struct, [⟨field, .stored (.named "u8"), some 1⟩], [], isUnion, false, [], none, [],
    some "m", some 1, []⟩

def wholeRegistry : Registry :=
  ⟨[⟨"N", ⟨"A", .struct, [⟨"u", .stored (.named "_U"), some 1⟩,
      ⟨"K", .literal (some ⟨.int 1, "u8"⟩), some 1⟩], [], false, false, [], none, [], some "m", some 1,
    [part "_U" "y" true, part "_S" "x" false]⟩⟩]⟩

def partName (step name : String) : TypeName := ⟨⟨"N", "A", [step]⟩, .struct, false, "N", name⟩

/-- The model of the outer struct: plain, since a union is inside. -/
def whole : Model where
  name := nameOf "A"
  explicitLayout := false
  generics := []
  fields := [("u", .ofBase (.named (partName "_U" "A_0")))]
  constants := [("K", ⟨.int 1, "u8"⟩)]
  signature := none
  isTypedef := false
  guid := .absent
  nested := [
    ⟨partName "_S" "A_1", false, [], [("x", .ofPrimitive .u8)], [], none, false, .absent, [], .full⟩,
    ⟨partName "_U" "A_0", true, [], [("y", .ofPrimitive .u8)], [], none, false, .absent, [], .union⟩]
  shape := .plain

theorem ofText_whole : (Registry.ofText "m" wholeText).result = .ok wholeRegistry := by cbv

theorem build_whole : (wholeRegistry.build (nameOf "A")).result = .ok whole := by cbv

end Sample

end Bindery
