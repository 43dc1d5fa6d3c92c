import Bindery.Proofs.Code.Path
import Bindery.Proofs.Code.TypeNames
import Bindery.Proofs.Metadata.Contents
/-!
# References in files

A struct or union is written with the paths of the types of its fields.  The path of a struct leads
to the module where its definition is declared: for a nested definition that is the module in which
the path stands, since the model of such a definition is nested in that of the holder, and for one
at the top level it is the module of its namespace, since all of these are converted.  A definition
with an identity is declared as the constant of this identity and nothing else, so what such a path
leads to is not a type.
-/

namespace Bindery

open Code (Declaration DeclarationKind Declares)

/-! ### Bodies -/

namespace Code

/-- The kinds of declarations with fields and their types. -/
def aggregateKinds : List DeclarationKind := [.struct, .union]

/-- The fields, with their types, of the body of a struct or union. -/
def Declaration.bodyFields : Declaration → List (String × String)
  | .union _ fields | .struct _ _ fields => fields
  | _ => []

theorem Declares.mono {ds ds' : List Declaration} {kind : DeclarationKind} {name : String}
    (h : Declares ds kind name) (hsubset : ds ⊆ ds') : Declares ds' kind name := by
  obtain ⟨d, hd, hdeclares⟩ := h
  exact ⟨d, hsubset hd, hdeclares⟩

end Code

open Code (aggregateKinds)

namespace Model

variable {reg : Registry} {m : Model} {own ds : List Declaration}

theorem bodyFields_of_mem_ownDeclarations (h : m.ownDeclarations reg = .ok own) {d : Declaration}
    (hd : d ∈ own) (hkind : d.kind ∈ aggregateKinds) :
    m.shape ≠ .constantOnly ∧ d.bodyFields = m.fieldCodes := by
  obtain ⟨copy, hkinds, -⟩ := kinds_ownDeclarations h
  have hbody : d.kind = m.shape.bodyKind := by
    have hbodies : ∀ kind ∈ aggregateKinds, kind ∈ Code.bodyKinds := by decide
    have hmem : d.kind ∈ (own.map (·.kind)).filter (· ∈ Code.bodyKinds) :=
      List.mem_filter.2 ⟨List.mem_map_of_mem hd, decide_eq_true (hbodies _ hkind)⟩
    rw [hkinds, Shape.filter_ownKinds] at hmem
    exact List.mem_singleton.1 hmem
  -- nothing else is of this kind
  have honly (d' : Declaration) (hd' : d' ∈ own) (hkind' : d'.kind = m.shape.bodyKind) :
      d = d' := by
    have hnodup : (own.map (·.kind)).Nodup := hkinds ▸ Shape.nodup_ownKinds ..
    exact List.inj_on_of_nodup_map hnodup hd hd' (hbody.trans hkind'.symm)
  cases hshape : m.shape with
  | constantOnly =>
    rw [hbody, hshape] at hkind
    exact absurd hkind (by decide)
  | union =>
    rw [ownDeclarations, hshape] at h
    cases h
    rw [List.mem_singleton.1 hd]
    exact ⟨by decide, rfl⟩
  | plain =>
    rw [ownDeclarations, hshape] at h
    obtain ⟨constants, -, h⟩ := bind_eq_ok.1 h
    cases h
    rw [honly m.structDeclaration List.mem_cons_self (by rw [hshape]; rfl)]
    exact ⟨by decide, rfl⟩
  | full =>
    obtain ⟨abi, constants, defaults, copy, -, -, -, -, rfl⟩ := ownDeclarations_full hshape h
    rw [honly m.structDeclaration (by simp) (by rw [hshape]; rfl)]
    exact ⟨by decide, rfl⟩

theorem declares_bodyKind (h : (m.declarations reg).result = .ok ds) :
    Declares ds m.shape.bodyKind m.name.name := by
  obtain ⟨own, hown, -⟩ := declarations_ok h
  obtain ⟨copy, hkinds, -⟩ := kinds_ownDeclarations hown
  have hbody : m.shape.bodyKind ∈ own.map (·.kind) := by
    refine List.mem_of_mem_filter (p := (· ∈ Code.bodyKinds)) ?_
    rw [hkinds, Shape.filter_ownKinds]
    exact List.mem_singleton_self _
  obtain ⟨d, hd, hkind⟩ := List.mem_map.1 hbody
  exact ⟨d, ownDeclarations_subset h hown hd, hkind, typeName_of_mem_ownDeclarations hown hd⟩

end Model

namespace Registry

variable {reg : Registry} {name : TypeName} {m : Model} {ds : List Declaration}

theorem WellFormed.exists_declares_bodyKind (hreg : reg.WellFormed)
    (hbuild : (reg.build name).result = .ok m) (h : (m.declarations reg).result = .ok ds) :
    ∃ d guid, reg.find? name.place = some d ∧ Guid.ofDefinition d = .ok guid ∧
      Declares ds (d.bodyKind guid) name.name := by
  obtain ⟨d, _, _, hm⟩ := hreg.builtFrom hbuild
  refine ⟨d, m.guid, hm.found, hm.guid_eq, ?_⟩
  rw [hm.bodyKind_eq, ← name_of_build hbuild]
  exact Model.declares_bodyKind h

end Registry

/-! ### Files -/

namespace Code

variable {reg : Registry} {models : List Model}

/-- The declarations of the module at a path, given what is declared for each model. -/
def moduleDeclarations (models : List Model) (declared : Model → List Declaration)
    (path : List String) : List Declaration :=
  ((ModuleTree.ofModels models).modelsAt path).flatMap declared

/-- Read where it is written, the path to a type leads to the module of its namespace. -/
theorem readPath_codePath {t : TypeName} (hspace : ':' ∉ t.space.toList)
    (hname : ':' ∉ t.name.toList) (source : String) :
    readPath (modulePath source) (t.codePath source) = some (modulePath t.space, t.name) := by
  rw [TypeName.codePath, readPath, pathSteps_itemPath hspace hname, follow_itemSteps]

end Code

/-! ### Where fields lead -/

namespace Command.Conversion

variable {reg : Registry} {models : List Model}

theorem exists_mem_of_has (hreg : reg.WellFormed)
    (h : (orderedModels reg (targets reg none)).result = .ok models) {t : TypeName}
    (hhas : reg.Has t) (htop : t.place.isNested = false) (hstruct : t.category = .struct) :
    ∃ e ∈ models, e.name = t := by
  obtain ⟨d, hd, ht⟩ := hhas
  have htarget : reg.IsTarget t.place := by
    refine ⟨htop, d, hd, ?_⟩
    rw [ht] at hstruct
    exact hstruct
  obtain ⟨d', hd', hmem⟩ := exists_mem_targets htarget
  obtain rfl : d = d' := Option.some.inj (hd.symm.trans hd')
  rw [← ht] at hmem
  obtain ⟨built, hbuilt, -, -⟩ := exists_built_of_orderedModels h
  obtain ⟨e, -, hbuild⟩ := exists_of_mem_left hbuilt hmem
  exact ⟨e, (mem_orderedModels hreg h).2 ⟨t, hmem, hbuild⟩, Registry.name_of_build hbuild⟩

theorem not_mem_names {file text : String} (htext : (Registry.ofText file text).result = .ok reg)
    {space : Option String} (h : (orderedModels reg (targets reg space)).result = .ok models)
    {e k : Model} (he : e ∈ models) (hk : k ∈ e.walk) :
    ':' ∉ k.name.space.toList ∧ ':' ∉ k.name.name.toList := by
  have hreg := Registry.wellFormed_of_ofText htext
  obtain ⟨name, hname, hbuild⟩ := (mem_orderedModels hreg h).1 he
  obtain ⟨entry, hentry, hname⟩ := List.mem_filterMap.1 hname
  split at hname
  · cases hname
    obtain ⟨hspace, hword⟩ := Registry.words_of_ofText htext entry hentry
    constructor
    · rw [(hreg.build_of_mem_walk hbuild hk).2.1]
      intro hcolon
      rcases hspace ':' hcolon with hdot | hletter
      · exact absurd hdot (by decide)
      · exact absurd hletter (by decide)
    · -- inside a model there are only indices more
      obtain ⟨ks, hks⟩ := hreg.exists_indexSuffix hbuild hk
      rw [hks, List.mem_append, not_or]
      exact ⟨fun hcolon => absurd (hword ':' hcolon) (by decide),
        not_mem_indexSuffix (by decide) (by decide) ks⟩
  · cases hname

/-- The struct of a field has its model inside a converted one, with which it is declared. -/
theorem exists_model_of_mem_fields (hreg : reg.WellFormed)
    (h : (orderedModels reg (targets reg none)).result = .ok models)
    {declared : Model → List Declaration}
    (hdeclared : ∀ m ∈ models, (m.declarations reg).result = .ok (declared m)) {m n : Model}
    (hm : m ∈ models) (hn : n ∈ m.walk) {ns : List Declaration}
    (hns : (n.declarations reg).result = .ok ns) (hsubset : ns ⊆ declared m)
    (hshape : n.shape ≠ .constantOnly) {f : String × FieldType} (hf : f ∈ n.fields) {t : TypeName}
    (ht : f.2.base = .named t) (hstruct : t.category = .struct) :
    ∃ e ∈ models, ∃ k ∈ e.walk, k.name = t ∧
      ∃ ks, (k.declarations reg).result = .ok ks ∧ ks ⊆ declared e := by
  obtain ⟨hbuild, -, -⟩ := hreg.build_of_mem_walk ((built_of_orderedModels hreg h).2 m hm) hn
  obtain ⟨_, _, _, hfrom⟩ := hreg.builtFrom hbuild
  rcases hfrom.nested_or_top_of_mem_fields hf ht with ⟨c, hc, rfl⟩ | ⟨hhas, htop⟩
  · obtain ⟨cs, hcs, hinside⟩ := Model.exists_subset_of_mem_nested hns hshape hc
    exact ⟨m, hm, c, Model.mem_walk_of_mem_nested hn hc, rfl, cs, hcs,
      List.Subset.trans hinside hsubset⟩
  · obtain ⟨e, he, rfl⟩ := exists_mem_of_has hreg h hhas htop hstruct
    exact ⟨e, he, e, e.self_mem_walk, rfl, _, hdeclared e he, List.Subset.refl _⟩

/-- **References in files.**  A file that is made from all structs and unions of a loaded text is the
text of what is declared for their models, and in each of its modules every body of a struct or
union is that of a model.  Where such a model has a field of a struct or union, whatever pointers
and arrays are around it, the field is written with the path of this, and the path leads to a module
where its definition is declared under its name in code: as a struct or union, or as the constant of
the identity if the definition has one. -/
theorem declares_of_mem_fields {file text : String}
    (htext : (Registry.ofText file text).result = .ok reg)
    (hmodels : (orderedModels reg (targets reg none)).result = .ok models) {code : String}
    (hcode : (Code.fileText reg models).result = .ok code) :
    ∃ declared : Model → List Declaration,
      (∀ m ∈ models, (m.declarations reg).result = .ok (declared m)) ∧
      code = Code.declaredText models declared ∧
      ∀ source, ∀ d ∈ Code.moduleDeclarations models declared source, d.kind ∈ aggregateKinds →
        ∃ n : Model, (∃ m ∈ models, n ∈ m.walk) ∧ n.modulePath = source ∧
          d.typeName = n.name.name ∧ d.bodyFields = n.fieldCodes ∧
          ∀ f ∈ n.fields, ∀ t, f.2.base = .named t → t.category = .struct →
            f.2.fieldCode n.name.space = f.2.wrap (t.codePath n.name.space) ∧
            ∃ target, Code.readPath source (t.codePath n.name.space) = some (target, t.name) ∧
              ∃ referenced guid, reg.find? t.place = some referenced ∧
                Guid.ofDefinition referenced = .ok guid ∧
                Declares (Code.moduleDeclarations models declared target) (referenced.bodyKind guid)
                  t.name := by
  have hreg := Registry.wellFormed_of_ofText htext
  have hbuilt := (built_of_orderedModels hreg hmodels).2
  obtain ⟨declared, hdeclared, htextof⟩ := Code.fileText_eq_ok.1 hcode
  refine ⟨declared, hdeclared, htextof, fun source d hd hkind => ?_⟩
  obtain ⟨m, hmat, hdm⟩ := List.mem_flatMap.1 hd
  obtain ⟨hm, rfl⟩ := Code.ModuleTree.mem_modelsAt.1 hmat
  obtain ⟨n, hn, own, ns, hown, hdown, hns, hsubset⟩ :=
    Model.exists_declared_of_mem_declarations (hdeclared m hm) hdm
  obtain ⟨-, hspace, -⟩ := hreg.build_of_mem_walk (hbuilt m hm) hn
  have hpath : n.modulePath = m.modulePath := by rw [Model.modulePath, hspace]; rfl
  obtain ⟨hshape, hfields⟩ := Model.bodyFields_of_mem_ownDeclarations hown hdown hkind
  refine ⟨n, ⟨m, hm, hn⟩, hpath, Model.typeName_of_mem_ownDeclarations hown hdown, hfields,
    fun f hf t ht hstruct => ⟨?_, ?_⟩⟩
  · simp [FieldType.fieldCode, FieldType.baseCode, ht, Category.isNullable, hstruct]
  · obtain ⟨e, he, k, hk, rfl, ks, hks, hinside⟩ :=
      exists_model_of_mem_fields hreg hmodels hdeclared hm hn hns hsubset hshape hf ht hstruct
    obtain ⟨hkspace, hkname⟩ := not_mem_names htext hmodels he hk
    obtain ⟨hkbuild, hsame, -⟩ := hreg.build_of_mem_walk (hbuilt e he) hk
    obtain ⟨referenced, guid, hfound, hguid, hbody⟩ := hreg.exists_declares_bodyKind hkbuild hks
    have hat : e ∈ (Code.ModuleTree.ofModels models).modelsAt (Code.modulePath k.name.space) :=
      Code.ModuleTree.mem_modelsAt.2 ⟨he, by rw [hsame]; rfl⟩
    refine ⟨_, ?_, referenced, guid, hfound, hguid,
      hbody.mono fun x hx => List.mem_flatMap.2 ⟨e, hat, hinside hx⟩⟩
    rw [← hpath]
    exact Code.readPath_codePath hkspace hkname n.name.space

end Command.Conversion

/-! ### Samples -/

namespace ReferenceSample

open Command.Conversion Sample DerivedSample

/-- The path of the union inside the struct leads to the module of the struct, where it is declared.
-/
theorem declares_nested_union : ∃ declared : Model → List Declaration,
    (whole.declarations wholeRegistry).result = .ok (declared whole) ∧
    Code.readPath ["n"] ((partName "_U" "A_0").codePath "N") = some (["n"], "A_0") ∧
    Declares (Code.moduleDeclarations [whole] declared ["n"]) .union "A_0" := by
  have hmodels : (orderedModels wholeRegistry (targets wholeRegistry none)).result =
      .ok [whole] := by cbv
  obtain ⟨ds, hds⟩ := exists_declarations wholeRegistry whole (by cbv)
  obtain ⟨code, hcode⟩ := Code.exists_fileText_iff.2 (List.forall_mem_singleton.2 ⟨ds, hds⟩)
  obtain ⟨declared, hdeclared, -, hbodies⟩ := declares_of_mem_fields ofText_whole hmodels hcode
  have hwhole := hdeclared whole List.mem_cons_self
  obtain ⟨d, hd, hkind, hname⟩ := Model.declares_bodyKind hwhole
  have hat : whole ∈ (Code.ModuleTree.ofModels [whole]).modelsAt ["n"] :=
    Code.ModuleTree.mem_modelsAt.2 ⟨List.mem_cons_self, by cbv⟩
  obtain ⟨n, ⟨m, hm, hn⟩, -, hnname, -, hfields⟩ :=
    hbodies ["n"] d (List.mem_flatMap.2 ⟨whole, hat, hd⟩) (by rw [hkind]; decide)
  obtain rfl := List.mem_singleton.1 hm
  obtain rfl : n = whole := by
    -- what is nested has a longer name
    refine ((Registry.wellFormed_of_ofText ofText_whole).eq_or_length_lt_of_mem_walk build_whole
      hn).resolve_right fun hlt => ?_
    rw [← hnname, hname] at hlt
    exact absurd hlt (Nat.lt_irrefl _)
  have hfield : ("u", FieldType.ofBase (.named (partName "_U" "A_0"))) ∈ whole.fields :=
    List.mem_singleton_self _
  obtain ⟨-, target, hread, referenced, guid, hfound, hguid, hbody⟩ := hfields _ hfield _ rfl rfl
  have hpath : Code.readPath ["n"] ((partName "_U" "A_0").codePath "N") = some (["n"], "A_0") := by
    cbv
  obtain ⟨rfl, -⟩ := Prod.mk.inj (Option.some.inj (hpath.symm.trans hread))
  obtain rfl : part "_U" "y" true = referenced := Option.some.inj hfound
  obtain rfl : Guid.absent = guid := Except.ok.inj hguid
  exact ⟨declared, hwhole, hpath, hbody⟩

/-- A struct with an identity and one that holds it. -/
def identityText : String :=
  "namespace N { [GuidAttribute(1,0,0,0,0,0,0,0,0,0,0)] struct A { x: u8; } struct B { a: A; } }"

def identityRegistry : Registry :=
  ⟨[⟨"N", ⟨"A", .struct, [⟨"x", .stored (.named "u8"), some 1⟩],
      [⟨"Guid", .int 1 :: List.replicate 10 (.int 0)⟩], false, false, [], none, [], some "m",
      some 1, []⟩⟩,
    entry "B" false [("a", .named "A")]]⟩

def marker : Model :=
  { simple "A" .constantOnly [("x", .ofPrimitive .u8)] with
    guid := ⟨0x1000000000000000000000000, by decide⟩ }

def holder : Model := simple "B" .full [("a", .ofBase (.named (nameOf "A")))]

/-- **A path can lead to a constant.**  A struct with an identity is none in code, and can still be
the type of a field. -/
theorem not_declares_marker : ¬ ∀ (file text : String) (reg : Registry) (models : List Model)
    (code : String) (declared : Model → List Declaration),
    (Registry.ofText file text).result = .ok reg →
    (orderedModels reg (targets reg none)).result = .ok models →
    (Code.fileText reg models).result = .ok code →
    (∀ m ∈ models, (m.declarations reg).result = .ok (declared m)) →
    ∀ source, ∀ d ∈ Code.moduleDeclarations models declared source, d.kind ∈ aggregateKinds →
      ∀ n : Model, (∃ m ∈ models, n ∈ m.walk) → n.modulePath = source →
        d.typeName = n.name.name → d.bodyFields = n.fieldCodes →
        ∀ f ∈ n.fields, ∀ t, f.2.base = .named t → t.category = .struct →
          ∃ target, Code.readPath source (t.codePath n.name.space) = some (target, t.name) ∧
            ∃ kind ∈ aggregateKinds,
              Declares (Code.moduleDeclarations models declared target) kind t.name := by
  intro hall
  have htext : (Registry.ofText "m" identityText).result = .ok identityRegistry := by cbv
  have hmodels : (orderedModels identityRegistry (targets identityRegistry none)).result =
      .ok [marker, holder] := by cbv
  have hdeclared : ∀ m ∈ [marker, holder],
      ∃ ds, (m.declarations identityRegistry).result = .ok ds := by
    refine List.forall_mem_cons.2 ⟨?_, List.forall_mem_singleton.2 ?_⟩
    · exact exists_declarations _ _ (by cbv)
    · exact exists_declarations _ _ (by cbv)
  obtain ⟨code, hcode⟩ := Code.exists_fileText_iff.2 hdeclared
  choose! declared hdeclared using hdeclared
  have hnone : ∀ m ∈ [marker, holder], m.nested = [] :=
    List.forall_mem_cons.2 ⟨rfl, List.forall_mem_singleton.2 rfl⟩
  have hown (m : Model) (hm : m ∈ [marker, holder]) {d : Declaration} (hd : d ∈ declared m) :
      ∃ own, m.ownDeclarations identityRegistry = .ok own ∧ d ∈ own := by
    obtain ⟨n, hn, own, _, hown, hdown, -⟩ :=
      Model.exists_declared_of_mem_declarations (hdeclared m hm) hd
    rcases Model.mem_walk.1 hn with rfl | ⟨c, hc, -⟩
    · exact ⟨own, hown, hdown⟩
    · rw [hnone m hm] at hc
      cases hc
  have hholder : holder ∈ [marker, holder] := List.mem_cons_of_mem _ List.mem_cons_self
  obtain ⟨d, hd, hkind, hname⟩ := Model.declares_bodyKind (hdeclared holder hholder)
  have hbody : d.kind ∈ aggregateKinds := by rw [hkind]; decide
  obtain ⟨own, hdeclares, hdown⟩ := hown holder hholder hd
  have hat : holder ∈ (Code.ModuleTree.ofModels [marker, holder]).modelsAt ["n"] :=
    Code.ModuleTree.mem_modelsAt.2 ⟨hholder, by cbv⟩
  obtain ⟨target, -, kind, hkind', d', hd', rfl, hname'⟩ := hall "m" identityText identityRegistry
    [marker, holder] code declared htext hmodels hcode hdeclared ["n"] d
    (List.mem_flatMap.2 ⟨holder, hat, hd⟩) hbody holder ⟨holder, hholder, holder.self_mem_walk⟩
    (by cbv) hname (Model.bodyFields_of_mem_ownDeclarations hdeclares hdown hbody).2 _
    (List.mem_singleton_self _) (nameOf "A") rfl rfl
  -- the struct with an identity has no body, and that of the other one goes by another name
  obtain ⟨m, hm, hdm⟩ := List.mem_flatMap.1 hd'
  have hm := Code.mem_of_mem_modelsAt hm
  obtain ⟨own', hdeclares', hdown'⟩ := hown m hm hdm
  rcases List.mem_cons.1 hm with rfl | hm
  · exact (Model.bodyFields_of_mem_ownDeclarations hdeclares' hdown' hkind').1 rfl
  · obtain rfl := List.mem_singleton.1 hm
    rw [Model.typeName_of_mem_ownDeclarations hdeclares' hdown'] at hname'
    exact absurd hname' (by decide)

end ReferenceSample

end Bindery
