import Bindery.Proofs.FieldType.Alike
import Bindery.Proofs.Model.Declarations
/-!
# Models built from registries alike

What is kept of the types in a model is the same whether it is built from one registry or from one
that is alike, provided that the signatures are the same (`Alike.build_inStep`).  The declarations of
a model do not depend on which of the two is asked, nor on an idle constness
(`Alike.declarations_inStep`).
-/

namespace Bindery

/-! ### The types in a model -/

namespace FieldList

def mapTypes (f : FieldType → FieldType) (fields : FieldList) : FieldList :=
  fields.map fun entry => (entry.1, f entry.2)

variable {fields fields' : FieldList} {f : FieldType → FieldType}

theorem mapTypes_uniqueAfter (taken : List String) (fields : FieldList) :
    (uniqueAfter taken fields).mapTypes f = uniqueAfter taken (fields.mapTypes f) := by
  induction fields generalizing taken with
  | nil => rfl
  | cons entry fields ih =>
    obtain ⟨name, t⟩ := entry
    have hrest := ih (taken ++ [Code.bare (freshName taken name)])
    exact congrArg ((freshName taken name, f t) :: ·) hrest

/-- The passes ask of the types only whether they are of delegates. -/
theorem mapTypes_run (guid : Guid)
    (h : fields.mapTypes (fun t => f t.fixDelegate) = fields'.mapTypes fun t => f t.fixDelegate) :
    (run (standardPasses guid) fields).mapTypes f = (run (standardPasses guid) fields').mapTypes f := by
  have hfixed (fs : FieldList) : (fixDelegates (unique fs)).mapTypes f =
      unique (fs.mapTypes fun t => f t.fixDelegate) := by
    rw [unique, unique, ← mapTypes_uniqueAfter, mapTypes, fixDelegates, List.map_map]
    rfl
  have hempty (fs : FieldList) : (fixDelegates (unique fs)).isEmpty = fs.isEmpty := by
    cases fs <;> rfl
  have hsame : fields.isEmpty = fields'.isEmpty := by
    have hlength := congrArg List.isEmpty h
    rwa [mapTypes, mapTypes, List.isEmpty_map, List.isEmpty_map] at hlength
  simp only [run, standardPasses, List.foldl_cons, List.foldl_nil, Pass.apply, pad, hempty, hsame]
  split
  · rfl
  · rw [hfixed, hfixed, h]

end FieldList

namespace Model

mutual

/-- The model with the types of its fields mapped, at every depth. -/
def mapTypes (f : FieldType → FieldType) : Model → Model
  | ⟨name, layout, generics, fields, constants, signature, isTypedef, guid, nested, shape⟩ =>
    ⟨name, layout, generics, FieldList.mapTypes f fields, constants, signature, isTypedef, guid,
      mapTypesAll f nested, shape⟩

def mapTypesAll (f : FieldType → FieldType) : List Model → List Model
  | [] => []
  | m :: ms => m.mapTypes f :: mapTypesAll f ms

end

variable {f : FieldType → FieldType}

theorem mapTypesAll_eq (ms : List Model) : mapTypesAll f ms = ms.map (mapTypes f) := by
  induction ms with
  | nil => rfl
  | cons m ms ih => rw [mapTypesAll, ih, List.map_cons]

theorem mapTypes_eq (m : Model) :
    m.mapTypes f = { m with fields := m.fields.mapTypes f, nested := m.nested.map (mapTypes f) } := by
  obtain ⟨_, _, _, _, _, _, _, _, _, _⟩ := m
  rw [mapTypes, mapTypesAll_eq]

variable (m : Model)

@[simp] theorem mapTypes_name : (m.mapTypes f).name = m.name := by rw [mapTypes_eq]

@[simp] theorem mapTypes_metadataName : (m.mapTypes f).metadataName = m.metadataName := by
  rw [metadataName, mapTypes_name, metadataName]

theorem mapTypes_fields : (m.mapTypes f).fields = m.fields.map fun e => (e.1, f e.2) := by
  rw [mapTypes_eq]
  rfl

@[simp] theorem mapTypes_explicitLayout : (m.mapTypes f).explicitLayout = m.explicitLayout := by
  rw [mapTypes_eq]

@[simp] theorem mapTypes_nested : (m.mapTypes f).nested = m.nested.map (mapTypes f) := by
  rw [mapTypes_eq]

@[simp] theorem mapTypes_shape : (m.mapTypes f).shape = m.shape := by rw [mapTypes_eq]

theorem mapTypes_id : m.mapTypes id = m := by
  induction m using nested_induction with
  | step m ih =>
    have hfields : m.fields.mapTypes id = m.fields := List.map_id m.fields
    have hnested : m.nested.map (mapTypes id) = m.nested :=
      List.map_congr_left ih |>.trans (List.map_id m.nested)
    obtain ⟨_, _, _, _, _, _, _, _, _, _⟩ := m
    rw [mapTypes_eq, hfields, hnested]

theorem anyUnion_map {ms : List Model}
    (h : ∀ c ∈ ms, (c.mapTypes f).hasNestedUnion = c.hasNestedUnion) :
    anyUnion (ms.map (mapTypes f)) = anyUnion ms := by
  induction ms with
  | nil => rfl
  | cons c ms ih =>
    rw [List.map_cons, anyUnion, anyUnion, mapTypes_explicitLayout, h c (by simp),
      ih fun x hx => h x (by simp [hx])]

theorem hasNestedUnion_mapTypes : (m.mapTypes f).hasNestedUnion = m.hasNestedUnion := by
  induction m using nested_induction with
  | step m ih =>
    obtain ⟨_, _, _, _, _, _, _, _, nested, _⟩ := m
    rw [mapTypes, mapTypesAll_eq, hasNestedUnion, hasNestedUnion]
    exact anyUnion_map ih

theorem map_mapTypes_mergeSort (ms : List Model) :
    (ms.mergeSort fun a b => decide (a.metadataName ≤ b.metadataName)).map (mapTypes f) =
      (ms.map (mapTypes f)).mergeSort fun a b => decide (a.metadataName ≤ b.metadataName) := by
  refine List.map_mergeSort fun a _ b _ => ?_
  rw [mapTypes_metadataName, mapTypes_metadataName]

end Model

namespace Registry

open Model

variable {reg reg' : Registry} {kept : FieldType → FieldType} {name : TypeName} {d d' : Definition}

/-! ### Building -/

/-- What is kept of a model is made of what is kept of its parts. -/
theorem mapTypes_modelOf {signature : Option String} {children children' : List Model}
    {stored stored' : FieldList} {guid : Guid} (hagree : d.Agree d')
    (hchildren : children.map (mapTypes kept) = children'.map (mapTypes kept))
    (hstored : stored.mapTypes (fun t => kept t.fixDelegate) =
      stored'.mapTypes fun t => kept t.fixDelegate) :
    (modelOf name d signature children stored guid).mapTypes kept =
      (modelOf name d' signature children' stored' guid).mapTypes kept := by
  have hsorted := congrArg
    (List.mergeSort · fun a b : Model => decide (a.metadataName ≤ b.metadataName)) hchildren
  rw [← map_mapTypes_mergeSort, ← map_mapTypes_mergeSort] at hsorted
  have hunion := congrArg anyUnion hsorted
  rw [anyUnion_map fun c _ => hasNestedUnion_mapTypes c,
    anyUnion_map fun c _ => hasNestedUnion_mapTypes c] at hunion
  rw [mapTypes_eq, mapTypes_eq]
  unfold modelOf
  simp only [FieldList.mapTypes_run guid hstored, hsorted, hunion, hagree.explicitLayout,
    hagree.generics, hagree.constants, Definition.attribute?, hagree.attributes, Shape.of]

theorem SameNames.nested_inStep (h : reg.SameNames reg') (hreg : reg.WellFormed)
    (hreg' : reg'.WellFormed) {p : Place} (hd : reg.find? p = some d) (hd' : reg'.find? p = some d')
    (hagree : d.Agree d') :
    List.Forall₂ (fun n n' => n.Agree n' ∧ n ∈ d.nested) d.nested d'.nested := by
  refine (forall₂_mem (forall₂_of_map_eq hagree.nested)).imp ?_
  rintro n n' ⟨hname, hn, hn'⟩
  have hfound := hreg.find?_nested hd hn
  have hfound' := hreg'.find?_nested hd' hn'
  obtain ⟨k, hk, hinner⟩ := h.exists_find? hfound
  rw [hname, hfound'] at hk
  exact ⟨Option.some.inj hk ▸ hinner, hn⟩

theorem builtScope_congr {children children' : List Model}
    (h : children.map (mapTypes kept) = children'.map (mapTypes kept)) :
    builtScope name children = builtScope name children' := by
  have hnames := congrArg (List.map fun c => (c.metadataName, c.name)) h
  simp only [List.map_map, Function.comp_def, mapTypes_metadataName, mapTypes_name] at hnames
  rw [builtScope, builtScope, hnames]

theorem nestedName_congr {n n' : Definition} (h : n.Agree n') (k : Nat) :
    name.nestedName k n = name.nestedName k n' := by
  rw [TypeName.nestedName, TypeName.nestedName, h.name, h.category, h.winrt]

theorem checkNested_congr {n n' : Definition} (hagree : d.Agree d') (h : n.Agree n') (p : Place) :
    checkNested d p n = checkNested d' p n' := by
  rw [checkNested, checkNested, hagree.generics, h.name]

theorem names_of_buildInner {ns : List (Definition × Nat)} {children : List Model}
    (h : ns.mapM (reg.buildInner name d) = .ok children) :
    List.Forall₂ (fun n c => c.name = name.nestedName n.2 n.1) ns children := by
  refine (mapM_eq_ok.1 h).imp fun n c hc => ?_
  obtain ⟨_, -, hbuild⟩ := bind_eq_ok.1 hc
  exact name_of_build hbuild

theorem Alike.storedEntry_inStep (h : Alike kept reg reg') (hd : reg.find? name.place = some d)
    (hd' : reg'.find? name.place = some d') {scope : Scope} (hscope : reg.ScopeAt name.place scope) :
    InStep (List.Forall₂ fun e e' : String × FieldType =>
        (e.1, kept e.2.fixDelegate) = (e'.1, kept e'.2.fixDelegate))
      (d.stored.mapM (reg.storedEntry scope)) (d'.stored.mapM (reg'.storedEntry scope)) := by
  refine InStep.mapM (h.stored hd hd' hscope) fun f f' hf => ?_
  refine hf.2.map fun t t' ht => ?_
  rw [hf.1, ht]

/-- **The same models.**  In registries alike a model is built in both or in neither, and what is
kept of its types is the same, if the signatures inside are. -/
theorem Alike.build_inStep (h : Alike kept reg reg') (hreg : reg.WellFormed)
    (hreg' : reg'.WellFormed) (hd : reg.find? name.place = some d)
    (hspace : name.space = "" ∨ name.space = name.place.space) (hwinrt : name.winrt = d.winrt)
    (hsignature : ∀ n steps inner, n.place = name.place.within steps →
      reg.find? n.place = some inner → inner.winrt = true →
      InStep Eq (reg.structSignature n) (reg'.structSignature n)) :
    InStep (fun m m' => m.mapTypes kept = m'.mapTypes kept) (reg.build name).result
      (reg'.build name).result := by
  -- on how the definitions are nested
  have hdistinct := hreg.distinct_of_find? hd
  induction hdistinct generalizing name with
  | @intro d _ _ ih =>
    obtain ⟨d', hd', hagree⟩ := h.exists_find? hd
    have hsignatureFor : InStep Eq (reg.signatureFor name) (reg'.signatureFor name) := by
      unfold signatureFor
      split
      · rename_i hname
        have hsame := hsignature name [] d (Place.within_nil _).symm hd (hwinrt.symm.trans hname)
        exact hsame.map fun s s' hs => congrArg some hs
      · exact .ok rfl
    have hinner : InStep (List.Forall₂ fun c c' => c.mapTypes kept = c'.mapTypes kept)
        (d.nested.zipIdx.mapM (reg.buildInner name d))
        (d'.nested.zipIdx.mapM (reg'.buildInner name d')) := by
      refine InStep.mapM (forall₂_zipIdx (h.nested_inStep hreg hreg' hd hd' hagree) 0) ?_
      rintro ⟨n, k⟩ ⟨n', _⟩ ⟨⟨hn, hmem⟩, rfl⟩
      unfold buildInner
      rw [checkNested_congr hagree hn, ← nestedName_congr hn]
      refine (InStep.refl _).bind_eq fun _ => ?_
      refine ih n hmem (hreg.find?_nested hd hmem) hspace rfl fun e steps inner he => ?_
      exact hsignature e (n.name :: steps) inner (he.trans (Place.child_within _ _ _))
    rw [hreg.result_build hd, hreg'.result_build hd', hagree.category, hagree.guid_eq]
    split
    · refine hsignatureFor.bind_eq fun signature => ?_
      refine (hinner.and_of_ok (fun _ => names_of_buildInner) fun _ _ => trivial).bind ?_
      rintro children children' ⟨hchildren, hnames, -⟩
      have hkept : children.map (mapTypes kept) = children'.map (mapTypes kept) :=
        map_eq_of_forall₂ hchildren
      have hscope : reg.ScopeAt name.place (builtScope name children) :=
        ⟨rfl, .inr (faithful_builtScope hd hspace hnames)⟩
      rw [← builtScope_congr hkept]
      refine (h.storedEntry_inStep hd hd' hscope).bind fun stored stored' hstored => ?_
      refine (InStep.refl _).bind_eq fun guid => ?_
      exact .ok (mapTypes_modelOf hagree hkept (map_eq_of_forall₂ hstored))
    · exact .error _ _

end Registry

/-! ### Declarations -/

namespace Model

open FieldType

variable {reg reg' : Registry} {kept : FieldType → FieldType} (m : Model)

theorem ownDeclarations_dropIdleConst (reg : Registry) :
    (m.mapTypes dropIdleConst).ownDeclarations reg = m.ownDeclarations reg := by
  have hfields : (m.mapTypes dropIdleConst).fieldCodes = m.fieldCodes := by
    simp [fieldCodes, mapTypes_fields, fieldCode_dropIdleConst]
  have habi : (m.mapTypes dropIdleConst).abiEntries reg = m.abiEntries reg := by
    simp only [abiEntries, mapTypes_fields, List.mapM_map, Function.comp_def, abiCode_dropIdleConst]
    rw [mapTypes_eq]
  have hdefaults : (m.mapTypes dropIdleConst).defaults reg = m.defaults reg := by
    simp only [defaults, mapTypes_fields, List.mapM_map, Function.comp_def,
      defaultCode_dropIdleConst]
  have hcopy : (m.mapTypes dropIdleConst).allBlittable reg = m.allBlittable reg := by
    simp only [allBlittable, mapTypes_fields, allM_map, isBlittable_dropIdleConst]
  have hdebug : (m.mapTypes dropIdleConst).debugEntries = m.debugEntries := by
    simp only [debugEntries, mapTypes_fields, List.mapIdx_eq_zipIdx_map, List.zipIdx_map,
      List.map_map, List.filterMap_map, Function.comp_def, dropIdleConst_isCallback, Prod.map]
    rw [mapTypes_eq]
    rfl
  have hcomparisons : (m.mapTypes dropIdleConst).comparisons = m.comparisons := by
    simp only [comparisons, mapTypes_fields, List.mapIdx_eq_zipIdx_map, List.zipIdx_map,
      List.map_map, Function.comp_def, dropIdleConst_isCallback, Prod.map]
    rw [mapTypes_eq]
    rfl
  unfold ownDeclarations structDeclaration
  rw [hfields, habi, hdefaults, hcopy, hdebug, hcomparisons, mapTypes_eq]
  rfl

theorem declarations_dropIdleConst (reg : Registry) :
    ((m.mapTypes dropIdleConst).declarations reg).result = (m.declarations reg).result := by
  induction m using nested_induction with
  | step m ih =>
    rw [result_declarations, result_declarations, ownDeclarations_dropIdleConst, mapTypes_shape,
      mapTypes_nested, List.mapM_map]
    rw [mapM_congr (f := (fun c => (declarations reg c).result) ∘ mapTypes dropIdleConst) ih]

/-- What is declared for a model without its nested ones is the same in registries alike. -/
theorem ownDeclarations_inStep (h : Registry.Alike kept reg reg') :
    InStep Eq (m.ownDeclarations reg) (m.ownDeclarations reg') := by
  have habi : InStep Eq (m.abiEntries reg) (m.abiEntries reg') :=
    (InStep.mapM_eq fun e _ => abiCode_inStep h e.2 _).bind_eq fun types => .refl _
  have hdefaults : InStep Eq (m.defaults reg) (m.defaults reg') :=
    InStep.mapM_eq fun e _ => (defaultCode_inStep h e.2).bind_eq fun c => .refl _
  have hcopy : InStep Eq (m.allBlittable reg) (m.allBlittable reg') := by
    refine InStep.allM (R := Eq) (by rw [List.forall₂_eq_eq_eq]) ?_
    rintro e _ rfl
    exact h.isBlittable_inStep e.2
  unfold ownDeclarations
  cases m.shape with
  | constantOnly | union => exact .ok rfl
  | plain => exact .refl _
  | full =>
    refine habi.bind_eq fun abi => (InStep.refl _).bind_eq fun constants => ?_
    exact hdefaults.bind_eq fun defaults => hcopy.bind_eq fun copy => .refl _

/-- **The same declarations.**  The declarations of a model are the same in registries alike, or fail
in both. -/
theorem declarations_inStep (h : Registry.Alike kept reg reg') :
    InStep Eq (m.declarations reg).result (m.declarations reg').result := by
  induction m using nested_induction with
  | step m ih =>
    rw [result_declarations, result_declarations]
    refine (ownDeclarations_inStep m h).bind_eq fun own => ?_
    split
    · exact .ok rfl
    · exact (InStep.mapM_eq ih).bind_eq fun inner => .refl _

end Model

end Bindery
