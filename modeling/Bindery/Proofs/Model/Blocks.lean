import Bindery.Proofs.Model.Derived
/-!
# The declarations of a model, block by block

The declarations of a model come in one block for each model that is written: the model itself, then
those nested in it, but nothing inside a mere identity (`Model.written`).  What a block holds is told
by the definition it is for and by those inside that definition (`IsBlock`).
-/

namespace Bindery

open Code (Declaration DeclarationKind)

/-! ### What is written -/

namespace Model

mutual

/-- The models that are declared, in order: the model itself and, unless it only stands for an
identity, those nested in it. -/
def written : Model → List Model
  | ⟨name, layout, generics, fields, constants, signature, isTypedef, guid, nested, shape⟩ =>
    ⟨name, layout, generics, fields, constants, signature, isTypedef, guid, nested, shape⟩ ::
      if guid.isAbsent then writtenAll nested else []

def writtenAll : List Model → List Model
  | [] => []
  | m :: ms => m.written ++ writtenAll ms

end

theorem written_eq (m : Model) :
    m.written = m :: if m.guid.isAbsent then writtenAll m.nested else [] := by
  obtain ⟨_, _, _, _, _, _, _, _, _, _⟩ := m
  rw [written]

end Model

/-! ### The kinds of own declarations -/

/-- The kinds of which every block has one. -/
def Code.bodyKinds : List DeclarationKind := [.guidConstant, .union, .struct]

/-- The kinds that every model with derived operations has besides its body. -/
def Code.fullKinds : List DeclarationKind :=
  [.abiStruct, .abiImpl, .defaultImpl, .debugImpl, .partialEqImpl, .eqImpl]

open Code (bodyKinds fullKinds)

namespace Shape

def bodyKind : Shape → DeclarationKind
  | constantOnly => .guidConstant
  | union => .union
  | plain | full => .struct

/-- The kinds of the own declarations of a model, in order: whether it has constants, can be copied
and has a signature. -/
def ownKinds (shape : Shape) (constants copy signature : Bool) : List DeclarationKind :=
  let constantKinds := if constants then [.constants] else []
  match shape with
  | constantOnly => [.guidConstant]
  | union => [.union]
  | plain => .struct :: constantKinds
  | full => [.struct, .abiStruct] ++ constantKinds ++
      [.abiImpl, .defaultImpl, .debugImpl, .partialEqImpl, .eqImpl] ++
      (if copy then [.copyImpl] else []) ++ (if signature then [.runtimeTypeImpl] else [])

variable (shape : Shape) (constants copy signature : Bool)

theorem nodup_ownKinds : (shape.ownKinds constants copy signature).Nodup := by
  cases shape <;> cases constants <;> cases copy <;> cases signature <;> decide

theorem filter_ownKinds :
    (shape.ownKinds constants copy signature).filter (· ∈ bodyKinds) = [shape.bodyKind] := by
  cases shape <;> cases constants <;> cases copy <;> cases signature <;> decide

theorem mem_ownKinds_of_mem_fullKinds {kind : DeclarationKind} (h : kind ∈ fullKinds) :
    kind ∈ shape.ownKinds constants copy signature ↔ shape = .full := by
  revert kind
  cases shape <;> cases constants <;> cases copy <;> cases signature <;> decide

theorem copyImpl_mem_ownKinds :
    .copyImpl ∈ shape.ownKinds constants copy signature ↔ shape = .full ∧ copy = true := by
  cases shape <;> cases constants <;> cases copy <;> cases signature <;> decide

theorem runtimeTypeImpl_mem_ownKinds :
    .runtimeTypeImpl ∈ shape.ownKinds constants copy signature ↔
      shape = .full ∧ signature = true := by
  cases shape <;> cases constants <;> cases copy <;> cases signature <;> decide

theorem constants_mem_ownKinds :
    .constants ∈ shape.ownKinds constants copy signature ↔
      shape.bodyKind = .struct ∧ constants = true := by
  cases shape <;> cases constants <;> cases copy <;> cases signature <;> decide

end Shape

namespace Model

variable {reg : Registry} {m : Model} {own : List Declaration}

theorem kinds_constantsDeclaration {ds : List Declaration} (h : m.constantsDeclaration = .ok ds) :
    ds.map (·.kind) = if !m.constants.isEmpty then [.constants] else [] := by
  unfold constantsDeclaration at h
  split at h
  · rename_i hempty
    cases h
    rw [hempty]
    rfl
  · rename_i hempty
    obtain ⟨items, -, h⟩ := bind_eq_ok.1 h
    cases h
    rw [Bool.not_eq_true] at hempty
    rw [hempty]
    rfl

/-- **Own declarations.**  Which kinds there are, and in which order. -/
theorem kinds_ownDeclarations (h : m.ownDeclarations reg = .ok own) :
    ∃ copy, own.map (·.kind) = m.shape.ownKinds (!m.constants.isEmpty) copy m.signature.isSome ∧
      (m.shape = .full → m.allBlittable reg = .ok copy) := by
  cases hshape : m.shape with
  | constantOnly =>
    rw [ownDeclarations, hshape] at h
    cases h
    exact ⟨false, rfl, by simp⟩
  | union =>
    rw [ownDeclarations, hshape] at h
    cases h
    exact ⟨false, rfl, by simp⟩
  | plain =>
    rw [ownDeclarations, hshape] at h
    obtain ⟨constants, hconstants, h⟩ := bind_eq_ok.1 h
    cases h
    refine ⟨false, ?_, by simp⟩
    rw [List.map_cons, kinds_constantsDeclaration hconstants]
    rfl
  | full =>
    obtain ⟨abi, constants, defaults, copy, -, hconstants, -, hcopy, rfl⟩ := ownDeclarations_full hshape h
    refine ⟨copy, ?_, fun _ => hcopy⟩
    simp only [List.map_append, kinds_constantsDeclaration hconstants, List.map_map]
    cases copy <;> cases m.signature <;> rfl

end Model

/-! ### What a block holds -/

/-- A union is nested in the definition, at any depth. -/
def Definition.HasUnionInside (d : Definition) : Prop :=
  ∃ steps n, steps ≠ [] ∧ d.find? steps = some n ∧ n.explicitLayout = true

/-- The kind of body of a definition with an identity, which may be absent. -/
def Definition.bodyKind (d : Definition) (guid : Guid) : DeclarationKind :=
  if !guid.isAbsent then .guidConstant else if d.explicitLayout then .union else .struct

/-- A definition with an identity gets derived operations: the identity is absent, and neither the
definition nor one inside it is a union. -/
def Definition.Derives (d : Definition) (guid : Guid) : Prop :=
  guid.isAbsent = true ∧ d.explicitLayout = false ∧ ¬ d.HasUnionInside

/-- What is declared for the model `m` of the definition `d`, apart from what is nested in it. -/
structure IsBlock (reg : Registry) (d : Definition) (m : Model) (block : List Declaration) : Prop where
  /-- Everything is declared for the type of the model. -/
  owner : ∀ x ∈ block, x.typeName = m.name.name
  once : (block.map (·.kind)).Nodup
  guid : Guid.ofDefinition d = .ok m.guid
  body : (block.map (·.kind)).filter (· ∈ bodyKinds) = [d.bodyKind m.guid]
  identity : m.guid.isAbsent = false → block.map (·.kind) = [.guidConstant]
  derived : ∀ kind ∈ fullKinds, kind ∈ block.map (·.kind) ↔ d.Derives m.guid
  copy : .copyImpl ∈ block.map (·.kind) ↔
    d.Derives m.guid ∧ ∀ f ∈ m.fields, f.2.isBlittable reg = .ok true
  runtimeType : .runtimeTypeImpl ∈ block.map (·.kind) ↔ d.Derives m.guid ∧ d.winrt = true
  constants : .constants ∈ block.map (·.kind) ↔ d.bodyKind m.guid = .struct ∧ d.constants ≠ []

namespace Model

theorem anyUnion_nested_eq_false (m : Model) :
    anyUnion m.nested = false ↔ ∀ n ∈ walkAll m.nested, n.explicitLayout = false := by
  induction m using nested_induction with
  | step m ih =>
    rw [anyUnion_eq_false]
    constructor
    · intro h n hn
      obtain ⟨c, hc, hn⟩ := mem_walkAll.1 hn
      rcases mem_walk.1 hn with rfl | hn
      · exact (h n hc).1
      · exact (ih c hc).1 (h c hc).2 n (mem_walkAll.2 hn)
    · intro h c hc
      refine ⟨h c (mem_walkAll.2 ⟨c, hc, c.self_mem_walk⟩), (ih c hc).2 fun n hn => ?_⟩
      exact h n (mem_walkAll.2 ⟨c, hc, mem_walk.2 (.inr (mem_walkAll.1 hn))⟩)

end Model

namespace Registry

open Model

variable {reg : Registry} {name : TypeName} {m : Model} {d : Definition}

/-- The models nested in one at any depth are those of the definitions inside its own. -/
theorem WellFormed.hasUnionInside_iff (hreg : reg.WellFormed)
    (hbuild : (reg.build name).result = .ok m) (hd : reg.find? name.place = some d) :
    d.HasUnionInside ↔ anyUnion m.nested = true := by
  have hinside : ∀ steps, reg.find? (name.place.within steps) = d.find? steps := fun steps => by
    rw [find?_within, hd]
    rfl
  rw [← Bool.not_eq_false, anyUnion_nested_eq_false]
  push Not
  constructor
  · rintro ⟨steps, inner, hsteps, hinner, hunion⟩
    rw [← hinside] at hinner
    obtain ⟨n, hn, hplace⟩ := hreg.exists_mem_walk hbuild hinner
    obtain ⟨hnbuild, -, -⟩ := hreg.build_of_mem_walk hbuild hn
    obtain ⟨d', _, _, hnfrom⟩ := hreg.builtFrom hnbuild
    obtain rfl : d' = inner := by
      have := hnfrom.found
      rw [hplace, hinner] at this
      exact (Option.some.inj this).symm
    refine ⟨n, ?_, by rw [hnfrom.explicitLayout_eq, hunion]; simp⟩
    rcases mem_walk.1 hn with rfl | hn
    · rw [name_of_build hbuild, Place.within] at hplace
      have := congrArg Place.steps hplace
      simp [hsteps] at this
    · exact mem_walkAll.2 hn
  · rintro ⟨n, hn, hunion⟩
    obtain ⟨c, hc, hn⟩ := mem_walkAll.1 hn
    obtain ⟨_, _, _, hm⟩ := hreg.builtFrom hbuild
    obtain ⟨inner, -, k, hcbuild⟩ := hm.of_mem_nested hc
    obtain ⟨hnbuild, -, steps, hplace⟩ := hreg.build_of_mem_walk hcbuild hn
    obtain ⟨d', _, _, hnfrom⟩ := hreg.builtFrom hnbuild
    have hfound := hnfrom.found
    rw [hplace, show (name.nestedName k inner).place = name.place.child inner.name from rfl,
      Place.child_within, hinside] at hfound
    exact ⟨_, d', by simp, hfound, by simpa [hnfrom.explicitLayout_eq] using hunion⟩

theorem BuiltFrom.derives_iff (hreg : reg.WellFormed) {children : List Model} {stored : FieldList}
    (hm : reg.BuiltFrom name d children stored m) (hbuild : (reg.build name).result = .ok m) :
    d.Derives m.guid ↔ m.shape = .full := by
  rw [Definition.Derives, hreg.hasUnionInside_iff hbuild hm.found, hm.shape_eq, Shape.of_eq_full,
    hm.explicitLayout_eq, Bool.not_eq_true]

theorem BuiltFrom.bodyKind_eq {children : List Model} {stored : FieldList}
    (hm : reg.BuiltFrom name d children stored m) : d.bodyKind m.guid = m.shape.bodyKind := by
  rw [Definition.bodyKind, hm.shape_eq, Shape.of, hm.explicitLayout_eq]
  cases m.guid.isAbsent <;> cases d.explicitLayout <;> cases anyUnion m.nested <;> rfl

theorem BuiltFrom.isSome_signature {children : List Model} {stored : FieldList}
    (hm : reg.BuiltFrom name d children stored m) : m.signature.isSome = name.winrt := by
  have h := hm.signature_eq
  cases hwinrt : name.winrt with
  | true =>
    rw [hwinrt, if_pos rfl] at h
    cases hs : reg.structSignature name with
    | error e => simp [hs, Functor.map, Except.map] at h
    | ok s =>
      simp only [hs, Functor.map, Except.map, Except.ok.injEq] at h
      rw [← h, Option.isSome_some]
  | false =>
    rw [hwinrt] at h
    rw [← Except.ok.inj h, Option.isSome_none]

/-- The own declarations of a built model are a block. -/
theorem WellFormed.isBlock (hreg : reg.WellFormed) (hname : reg.Has name.own)
    (hbuild : (reg.build name).result = .ok m) {own : List Declaration}
    (h : m.ownDeclarations reg = .ok own) :
    ∃ d, reg.find? m.name.place = some d ∧ IsBlock reg d m own := by
  obtain ⟨d, children, stored, hm⟩ := hreg.builtFrom hbuild
  have hderives := BuiltFrom.derives_iff hreg hm hbuild
  have hwinrt : m.signature.isSome = d.winrt := by
    obtain ⟨d', hd', hown⟩ := hname
    obtain rfl : d = d' := Option.some.inj (hm.found.symm.trans hd')
    rw [hm.isSome_signature, show name.winrt = name.own.winrt from rfl, hown]
    rfl
  obtain ⟨copy, hkinds, hcopy⟩ := kinds_ownDeclarations h
  refine ⟨d, by rw [hm.name_eq]; exact hm.found, ?_⟩
  constructor
  case owner => exact fun x hx => typeName_of_mem_ownDeclarations h hx
  case once => exact hkinds ▸ Shape.nodup_ownKinds ..
  case guid => exact hm.guid_eq
  case body => rw [hkinds, hm.bodyKind_eq, Shape.filter_ownKinds]
  case identity =>
    intro hguid
    rw [hkinds, hm.shape_eq, Shape.of, hguid]
    rfl
  case derived =>
    intro kind hkind
    rw [hkinds, hderives, Shape.mem_ownKinds_of_mem_fullKinds _ _ _ _ hkind]
  case copy =>
    rw [hkinds, hderives, Shape.copyImpl_mem_ownKinds]
    refine and_congr_right fun hfull => ?_
    rw [← allBlittable_iff, hcopy hfull, Except.ok.injEq]
  case runtimeType => rw [hkinds, hderives, Shape.runtimeTypeImpl_mem_ownKinds, hwinrt]
  case constants =>
    rw [hkinds, hm.bodyKind_eq, Shape.constants_mem_ownKinds, hm.constants_eq]
    simp

theorem WellFormed.has_own_of_mem_nested (hreg : reg.WellFormed)
    (hbuild : (reg.build name).result = .ok m) {c : Model} (hc : c ∈ m.nested) :
    (reg.build c.name).result = .ok c ∧ reg.Has c.name.own := by
  obtain ⟨d, _, _, hm⟩ := hreg.builtFrom hbuild
  obtain ⟨inner, hinner, k, hcbuild⟩ := hm.of_mem_nested hc
  rw [name_of_build hcbuild, own_nestedName]
  exact ⟨hcbuild, has_ofDefinition (hreg.find?_nested hm.found hinner)⟩

/-- The blocks of several models make up their declarations. -/
theorem exists_blocks_of_forall₂ {ms : List Model} {dss : List (List Declaration)}
    {R : Model → List Declaration → Prop}
    (h : List.Forall₂ (fun m ds => ∃ blocks, List.Forall₂ R m.written blocks ∧ ds = blocks.flatten)
      ms dss) :
    ∃ blocks, List.Forall₂ R (writtenAll ms) blocks ∧ dss.flatten = blocks.flatten := by
  induction h with
  | nil => exact ⟨[], by rw [writtenAll]; exact .nil, rfl⟩
  | cons hm _ ih =>
    obtain ⟨blocks, hblocks, rfl⟩ := hm
    obtain ⟨others, hothers, heq⟩ := ih
    refine ⟨blocks ++ others, ?_, by rw [List.flatten_cons, heq, List.flatten_append]⟩
    rw [writtenAll]
    exact List.rel_append hblocks hothers

/-- **Blocks.**  The declarations of a built model are one block after the other, for the models that
are written, in their order; and nested models are in the order of their names in metadata. -/
theorem WellFormed.declarations_eq_blocks (hreg : reg.WellFormed) (hname : reg.Has name.own)
    (hbuild : (reg.build name).result = .ok m) {ds : List Declaration}
    (h : (m.declarations reg).result = .ok ds) :
    ∃ blocks, ds = blocks.flatten ∧ List.Forall₂ (fun n block =>
      n.nested.Pairwise (fun a b => a.metadataName < b.metadataName) ∧
      ∃ d, reg.find? n.name.place = some d ∧ IsBlock reg d n block) m.written blocks := by
  induction m using nested_induction generalizing name ds with
  | step m ih =>
    obtain ⟨d, _, _, hm⟩ := hreg.builtFrom hbuild
    obtain ⟨own, hown, hrest⟩ := declarations_ok h
    have hblock := hreg.isBlock hname hbuild hown
    have hsorted := hreg.pairwise_nested hbuild
    have hidentity : m.shape = .constantOnly ↔ m.guid.isAbsent = false := by
      rw [hm.shape_eq, Shape.of]
      cases m.guid.isAbsent <;> cases m.explicitLayout <;> cases anyUnion m.nested <;> simp
    rw [written_eq]
    rcases hrest with ⟨hshape, rfl⟩ | ⟨hshape, inner, hinner, rfl⟩
    · rw [hidentity.1 hshape]
      exact ⟨[_], by simp, .cons ⟨hsorted, hblock⟩ .nil⟩
    · rw [if_pos (by simpa using mt hidentity.2 hshape)]
      have hinside := (List.forall₂_and_left m.nested inner).2 ⟨fun c hc => hc, hinner⟩
      obtain ⟨blocks, hblocks, heq⟩ := exists_blocks_of_forall₂ (hinside.imp fun c cs hc => by
        obtain ⟨hcbuild, hcname⟩ := hreg.has_own_of_mem_nested hbuild hc.1
        obtain ⟨blocks, hflat, hblocks⟩ := ih c hc.1 hcname hcbuild hc.2
        exact ⟨blocks, hblocks, hflat⟩)
      exact ⟨own :: blocks, by rw [List.flatten_cons, heq], .cons ⟨hsorted, hblock⟩ hblocks⟩

end Registry

/-- The outer struct of the sample, the nested struct and the union have one block each. -/
theorem Sample.blocks_whole : ∃ ds, (whole.declarations wholeRegistry).result = .ok ds ∧
    ∃ blocks : List (List Declaration), ds = blocks.flatten ∧ blocks.length = 3 := by
  have hname : wholeRegistry.Has (nameOf "A").own := ⟨_, rfl, rfl⟩
  obtain ⟨ds, hds⟩ := DerivedSample.exists_declarations wholeRegistry whole (by cbv)
  obtain ⟨blocks, hflat, hblocks⟩ :=
    (Registry.wellFormed_of_ofText ofText_whole).declarations_eq_blocks hname build_whole hds
  exact ⟨ds, hds, blocks, hflat, hblocks.length_eq.symm⟩

end Bindery
