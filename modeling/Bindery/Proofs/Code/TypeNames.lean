import Bindery.Proofs.Code.File
import Bindery.Proofs.Model.Blocks
import Bindery.Proofs.Model.Containment
import Bindery.Proofs.Model.Naming
/-!
# The types declared in a module

The types declared for a model have the names of the models inside it and, for full ones, these names
with the ending of call boundaries.  They differ (`WellFormed.nodup_typeNames`).  Two models can declare
one type, though: the names of nested definitions and of shadow types are made up, and the names of
definitions are declared, and nothing keeps them apart.  If they meet, they do so in the name of one of
the two models (`WellFormed.name_mem_of_mem_typeNames`), so this is all there is to look for in a module
(`nodup_flatMap_typeNames`).
-/

namespace Bindery

/-! ### Indices in names -/

theorem indexSuffix_append (js ks : List Nat) :
    indexSuffix (js ++ ks) = indexSuffix js ++ indexSuffix ks := by
  simp [indexSuffix]

theorem indexSuffix_injective : Function.Injective indexSuffix := by
  intro js
  induction js with
  | nil =>
    intro ks h
    cases ks with
    | nil => rfl
    | cons k ks =>
      rw [indexSuffix_cons] at h
      cases h
  | cons j js ih =>
    intro ks h
    cases ks with
    | nil =>
      rw [indexSuffix_cons] at h
      cases h
    | cons k ks =>
      obtain rfl := head_eq_of_indexSuffix_eq h
      rw [indexSuffix_cons, indexSuffix_cons] at h
      have hrest := List.append_cancel_left (List.cons.inj h).2
      rw [ih hrest]

theorem exists_of_append_indexSuffix {t : List Char} {js ks : List Nat}
    (h : t ++ indexSuffix js = indexSuffix ks) : ∃ is, t = indexSuffix is ∧ ks = is ++ js := by
  induction ks generalizing t with
  | nil =>
    obtain ⟨rfl, hjs⟩ := List.append_eq_nil_iff.1 h
    exact ⟨[], rfl, (indexSuffix_injective hjs).symm⟩
  | cons k ks ih =>
    cases t with
    | nil => exact ⟨[], rfl, (indexSuffix_injective h).symm⟩
    | cons c t =>
      rw [indexSuffix_cons, List.cons_append, List.cons.injEq] at h
      obtain ⟨rfl, h⟩ := h
      rcases List.append_eq_append_iff.1 h with ⟨digits, hdigits, hrest⟩ | ⟨rest, rfl, hrest⟩
      · -- the indices behind cannot start within the digits
        have hnone : digits = [] := by
          cases digits with
          | nil => rfl
          | cons d ds =>
            cases js with
            | nil => cases hrest
            | cons j js =>
              rw [indexSuffix_cons, List.cons_append, List.cons.injEq] at hrest
              have hmem : d ∈ Nat.toDigits 10 k := by simp [hdigits]
              rw [← hrest.1] at hmem
              exact absurd hmem Nat.underscore_not_in_toDigits
        subst hnone
        rw [List.append_nil] at hdigits
        refine ⟨[k], by rw [indexSuffix_cons, hdigits]; simp [indexSuffix], ?_⟩
        rw [List.singleton_append, indexSuffix_injective hrest]
      · obtain ⟨is, rfl, rfl⟩ := ih hrest.symm
        exact ⟨k :: is, by rw [indexSuffix_cons], rfl⟩

theorem eq_nil_of_append_indexSuffix {x y : List Char} {ks : List Nat}
    (h : x ++ indexSuffix ks = y ++ abiEnding.toList) : ks = [] := by
  rcases List.eq_nil_or_concat' ks with rfl | ⟨init, k, rfl⟩
  · rfl
  · -- one side ends with a digit, the other with a letter
    have hlast := congrArg List.getLast? h
    rw [indexSuffix_append, indexSuffix_cons, show indexSuffix [] = [] from rfl, List.append_nil,
      ← List.append_assoc, List.append_cons, List.getLast?_append_of_ne_nil y (by decide)] at hlast
    obtain ⟨c, hc, hdigit⟩ := exists_getLast?_toDigits (x ++ indexSuffix init ++ ['_']) k
    obtain rfl : c = 'i' := Option.some.inj (hc.symm.trans hlast)
    cases hdigit

/-! ### The types of a model -/

namespace Code

def Declaration.declaredType? : Declaration → Option String
  | .union head _ => some head.name
  | .struct head _ _ => some head.name
  | .abiStruct head _ => some (head.name ++ abiEnding)
  | _ => none

def typeNames (ds : List Declaration) : List String := ds.filterMap Declaration.declaredType?

theorem typeNames_append (ds ds' : List Declaration) :
    typeNames (ds ++ ds') = typeNames ds ++ typeNames ds' := List.filterMap_append

theorem typeNames_flatMap {α : Type} (l : List α) (f : α → List Declaration) :
    typeNames (l.flatMap f) = l.flatMap fun a => typeNames (f a) := List.filterMap_flatMap

end Code

namespace Model

variable {reg : Registry} {m n : Model}

/-- The types declared for a model apart from those nested in it. -/
def ownTypeNames (m : Model) : List String :=
  match m.shape with
  | .constantOnly => []
  | .union | .plain => [m.name.name]
  | .full => [m.name.name, m.name.name ++ abiEnding]

def typeNames (m : Model) : List String := m.written.flatMap ownTypeNames

theorem mem_ownTypeNames {x : String} : x ∈ m.ownTypeNames ↔
    (m.shape ≠ .constantOnly ∧ x = m.name.name) ∨ (m.shape = .full ∧ x = m.name.name ++ abiEnding) := by
  unfold ownTypeNames
  cases m.shape <;> simp

theorem writtenAll_eq (ms : List Model) : writtenAll ms = ms.flatMap written := by
  induction ms with
  | nil => rw [writtenAll, List.flatMap_nil]
  | cons c ms ih => rw [writtenAll, List.flatMap_cons, ih]

theorem self_mem_written (m : Model) : m ∈ m.written := by
  rw [written_eq]
  exact List.mem_cons_self

theorem mem_written : n ∈ m.written ↔
    n = m ∨ (m.guid.isAbsent = true ∧ ∃ c ∈ m.nested, n ∈ c.written) := by
  rw [written_eq, List.mem_cons, writtenAll_eq]
  by_cases hguid : m.guid.isAbsent = true
  · simp [hguid, List.mem_flatMap]
  · simp [hguid]

theorem written_sublist_walk (m : Model) : m.written.Sublist m.walk := by
  induction m using nested_induction with
  | step m ih =>
    rw [written_eq, walk_eq, writtenAll_eq]
    split
    · exact (List.Sublist.flatMap_right m.nested ih).cons_cons m
    · exact (List.nil_sublist _).cons_cons m

/-- A type of the name `x` is declared for the model inside that the indices lead to. -/
def TypeAt (m : Model) (ks : List Nat) (x : String) : Prop :=
  x.toList = m.name.name.toList ++ indexSuffix ks ∧
    ∃ n ∈ m.written, n.shape ≠ .constantOnly ∧ n.name.name = x

theorem TypeAt.mem_typeNames {ks : List Nat} {x : String} (h : m.TypeAt ks x) : x ∈ m.typeNames := by
  obtain ⟨-, n, hn, hshape, rfl⟩ := h
  exact List.mem_flatMap.2 ⟨n, hn, mem_ownTypeNames.2 (.inl ⟨hshape, rfl⟩)⟩

theorem TypeAt.eq_name_of_abiEnding {ks : List Nat} {x : String} (h : m.TypeAt ks (x ++ abiEnding)) :
    x ++ abiEnding = m.name.name := by
  have hname := h.1
  obtain rfl := eq_nil_of_append_indexSuffix (hname.symm.trans String.toList_append)
  exact String.toList_injective (by simpa [indexSuffix] using hname)

/-! ### What is declared -/

theorem typeNames_constantsDeclaration {ds : List Code.Declaration}
    (h : m.constantsDeclaration = .ok ds) : Code.typeNames ds = [] := by
  unfold constantsDeclaration at h
  split at h
  · cases h
    rfl
  · obtain ⟨items, -, h⟩ := bind_eq_ok.1 h
    cases h
    rfl

theorem typeNames_ownDeclarations {own : List Code.Declaration}
    (h : m.ownDeclarations reg = .ok own) : Code.typeNames own = m.ownTypeNames := by
  cases hshape : m.shape with
  | constantOnly =>
    rw [ownDeclarations, hshape] at h
    cases h
    rw [ownTypeNames, hshape]
    rfl
  | union =>
    rw [ownDeclarations, hshape] at h
    cases h
    rw [ownTypeNames, hshape]
    rfl
  | plain =>
    rw [ownDeclarations, hshape] at h
    obtain ⟨constants, hconstants, h⟩ := bind_eq_ok.1 h
    cases h
    rw [← List.singleton_append, Code.typeNames_append, typeNames_constantsDeclaration hconstants,
      ownTypeNames, hshape]
    rfl
  | full =>
    obtain ⟨abi, constants, defaults, copy, -, hconstants, -, -, rfl⟩ := ownDeclarations_full hshape h
    have hcopy : Code.typeNames (if copy then [.copyImpl m.head] else []) = [] := by
      cases copy <;> rfl
    have hsignature : Code.typeNames (m.signature.toList.map (.runtimeTypeImpl m.head)) = [] := by
      cases m.signature <;> rfl
    simp only [Code.typeNames_append, typeNames_constantsDeclaration hconstants, hcopy, hsignature,
      ownTypeNames, hshape]
    rfl

end Model

namespace Registry

open Model

variable {reg : Registry} {name name' : TypeName} {m n : Model}

theorem BuiltFrom.isAbsent_iff {d : Definition} {children : List Model} {stored : FieldList}
    (hm : reg.BuiltFrom name d children stored m) :
    m.guid.isAbsent = true ↔ m.shape ≠ .constantOnly := by
  rw [hm.shape_eq, Shape.of]
  cases m.guid.isAbsent <;> cases m.explicitLayout <;> cases anyUnion m.nested <;> simp

theorem typeNames_flatten {ms : List Model} {dss : List (List Code.Declaration)}
    (h : List.Forall₂ (fun c ds => Code.typeNames ds = c.typeNames) ms dss) :
    Code.typeNames dss.flatten = (ms.flatMap written).flatMap ownTypeNames := by
  induction h with
  | nil => rfl
  | cons hc _ ih =>
    rw [List.flatten_cons, Code.typeNames_append, hc, ih, List.flatMap_cons, List.flatMap_append,
      typeNames]

theorem WellFormed.typeNames_declarations (hreg : reg.WellFormed)
    (hbuild : (reg.build name).result = .ok m) {ds : List Code.Declaration}
    (h : (m.declarations reg).result = .ok ds) : Code.typeNames ds = m.typeNames := by
  induction m using nested_induction generalizing name ds with
  | step m ih =>
    obtain ⟨d, _, _, hm⟩ := hreg.builtFrom hbuild
    obtain ⟨own, hown, ⟨hshape, rfl⟩ | ⟨hshape, inner, hinner, rfl⟩⟩ := declarations_ok h
    · rw [typeNames, written_eq, if_neg (mt hm.isAbsent_iff.1 (not_not.2 hshape)),
        typeNames_ownDeclarations hown]
      simp
    · rw [typeNames, written_eq, if_pos (hm.isAbsent_iff.2 hshape), List.flatMap_cons,
        Code.typeNames_append, typeNames_ownDeclarations hown, writtenAll_eq]
      have hnested := (List.forall₂_and_left m.nested inner).2 ⟨fun c hc => hc, hinner⟩
      have htypes : List.Forall₂ (fun c ds => Code.typeNames ds = c.typeNames) m.nested inner := by
        refine hnested.imp fun c cs hc => ?_
        obtain ⟨_, -, k, hcbuild⟩ := hm.of_mem_nested hc.1
        exact ih c hc.1 hcbuild hc.2
      rw [typeNames_flatten htypes]

/-- Every type that is declared for a model stands at some indices, or is the shadow of one that does. -/
theorem WellFormed.exists_typeAt (hreg : reg.WellFormed) (hbuild : (reg.build name).result = .ok m)
    {x : String} (hx : x ∈ m.typeNames) :
    ∃ ks y, m.TypeAt ks y ∧ (x = y ∨ x = y ++ abiEnding) := by
  obtain ⟨n, hn, hx⟩ := List.mem_flatMap.1 hx
  obtain ⟨ks, hks⟩ := hreg.exists_indexSuffix hbuild ((written_sublist_walk m).subset hn)
  rw [← name_of_build hbuild] at hks
  rcases mem_ownTypeNames.1 hx with ⟨hshape, rfl⟩ | ⟨hshape, rfl⟩
  · exact ⟨ks, _, ⟨hks, n, hn, hshape, rfl⟩, .inl rfl⟩
  · exact ⟨ks, _, ⟨hks, n, hn, by simp [hshape], rfl⟩, .inr rfl⟩

theorem WellFormed.nodup_typeNames (hreg : reg.WellFormed) (hbuild : (reg.build name).result = .ok m) :
    m.typeNames.Nodup := by
  obtain ⟨hnames, -, hdisjoint⟩ := List.nodup_append.1 (hreg.nodup_abiNames hbuild)
  have hsub := written_sublist_walk m
  have hwritten : m.written.Pairwise fun a b => a.name.name ≠ b.name.name :=
    List.pairwise_map.1 (hnames.sublist (hsub.map _))
  have habi (a b : Model) (ha : a ∈ m.written) (hb : b ∈ m.written) :
      a.name.name ≠ b.name.name ++ abiEnding :=
    hdisjoint _ (List.mem_map_of_mem (hsub.subset ha)) _
      (List.mem_map.2 ⟨b, hsub.subset hb, rfl⟩)
  refine List.nodup_flatMap.2 ⟨fun a ha => ?_, hwritten.imp_of_mem fun {a b} ha hb hne => ?_⟩
  · have hself := habi a a ha ha
    unfold ownTypeNames
    cases a.shape <;> simp [hself]
  · refine List.disjoint_left.2 fun {x} hxa hxb => ?_
    rcases mem_ownTypeNames.1 hxa with ⟨-, rfl⟩ | ⟨-, rfl⟩
    · rcases mem_ownTypeNames.1 hxb with ⟨-, heq⟩ | ⟨-, heq⟩
      · exact hne heq
      · exact habi a b ha hb heq
    · rcases mem_ownTypeNames.1 hxb with ⟨-, heq⟩ | ⟨-, heq⟩
      · exact habi b a hb ha heq.symm
      · exact hne ((String.append_left_inj _).1 heq)

/-! ### Types of two models -/

theorem WellFormed.exists_typeAt_of_append (hreg : reg.WellFormed)
    (hbuild : (reg.build name).result = .ok m) {js ks : List Nat} {x : String}
    (h : m.TypeAt (js ++ ks) x) : ∃ y, m.TypeAt js y := by
  induction js generalizing name m with
  | nil =>
    obtain ⟨-, n, hn, hshape, -⟩ := h
    obtain ⟨_, _, _, hm⟩ := hreg.builtFrom hbuild
    refine ⟨m.name.name, by simp [indexSuffix], m, m.self_mem_written, ?_, rfl⟩
    rcases mem_written.1 hn with rfl | ⟨hguid, -⟩
    · exact hshape
    · exact hm.isAbsent_iff.1 hguid
  | cons j js ih =>
    obtain ⟨hx, n, hn, hshape, rfl⟩ := h
    obtain ⟨_, _, _, hm⟩ := hreg.builtFrom hbuild
    rcases mem_written.1 hn with rfl | ⟨hguid, c, hc, hn⟩
    · rw [List.cons_append, indexSuffix_cons] at hx
      simp at hx
    · obtain ⟨inner, -, i, hcbuild⟩ := hm.of_mem_nested hc
      have hcname (is : List Nat) : c.name.name.toList ++ indexSuffix is =
          m.name.name.toList ++ indexSuffix (i :: is) := by
        rw [name_of_build hcbuild, toList_nestedName, name_of_build hbuild, List.append_assoc,
          ← indexSuffix_append, List.singleton_append]
      -- the first index is that of the nested model
      obtain ⟨is, his⟩ := hreg.exists_indexSuffix hcbuild ((written_sublist_walk c).subset hn)
      rw [← name_of_build hcbuild, hcname, hx] at his
      have hindices := indexSuffix_injective (List.append_cancel_left his)
      obtain ⟨rfl, rfl⟩ := List.cons.inj hindices
      obtain ⟨y, hy, k, hk, hkshape, hkname⟩ :=
        ih hcbuild ⟨hx.trans (hcname _).symm, n, hn, hshape, rfl⟩
      exact ⟨y, by rw [hy, hcname], k, mem_written.2 (.inr ⟨hguid, c, hc, hk⟩), hkshape, hkname⟩

variable {a b : Model}

/-- A type inside two models, of which one is named like a point on the way inside the other, has the
first one's type around it in both. -/
theorem WellFormed.name_mem_of_typeAt (hreg : reg.WellFormed)
    (ha : (reg.build name).result = .ok a) (hb : (reg.build name').result = .ok b) {x : String}
    {js ks : List Nat} {t : List Char} (hxa : a.TypeAt js x) (hxb : b.TypeAt ks x)
    (hname : b.name.name.toList = a.name.name.toList ++ t) :
    b.name.name ∈ a.typeNames ∧ b.name.name ∈ b.typeNames := by
  have hlists : a.name.name.toList ++ (t ++ indexSuffix ks) =
      a.name.name.toList ++ indexSuffix js := by
    rw [← List.append_assoc, ← hname, ← hxb.1, hxa.1]
  obtain ⟨is, rfl, rfl⟩ := exists_of_append_indexSuffix (List.append_cancel_left hlists)
  have hself : b.TypeAt ([] ++ ks) x := hxb
  obtain ⟨y, hy⟩ := hreg.exists_typeAt_of_append ha hxa
  obtain ⟨z, hz⟩ := hreg.exists_typeAt_of_append hb hself
  have hyname : y = b.name.name := String.toList_injective (hy.1.trans hname.symm)
  have hzname : z = b.name.name := String.toList_injective (by simpa [indexSuffix] using hz.1)
  exact ⟨hyname ▸ hy.mem_typeNames, hzname ▸ hz.mem_typeNames⟩

/-- **Types of two models.**  If two models declare one type, they both declare that of one of them. -/
theorem WellFormed.name_mem_of_mem_typeNames (hreg : reg.WellFormed)
    (ha : (reg.build name).result = .ok a) (hb : (reg.build name').result = .ok b) {x : String}
    (hxa : x ∈ a.typeNames) (hxb : x ∈ b.typeNames) :
    (a.name.name ∈ a.typeNames ∧ a.name.name ∈ b.typeNames) ∨
      (b.name.name ∈ a.typeNames ∧ b.name.name ∈ b.typeNames) := by
  obtain ⟨js, p, hp, hxp⟩ := hreg.exists_typeAt ha hxa
  obtain ⟨ks, q, hq, hxq⟩ := hreg.exists_typeAt hb hxb
  have hcase : p = q ∨ x = a.name.name ∨ x = b.name.name := by
    rcases hxp with rfl | rfl
    · rcases hxq with rfl | rfl
      · exact .inl rfl
      · exact .inr (.inl hp.eq_name_of_abiEnding)
    · rcases hxq with rfl | hxq
      · exact .inr (.inr hq.eq_name_of_abiEnding)
      · exact .inl ((String.append_left_inj _).1 hxq)
  rcases hcase with rfl | rfl | rfl
  · -- the name of one model goes on with that of the other
    have hlists := hp.1.symm.trans hq.1
    rcases List.append_eq_append_iff.1 hlists with ⟨t, hname, -⟩ | ⟨t, hname, -⟩
    · exact .inr (hreg.name_mem_of_typeAt ha hb hp hq hname)
    · exact .inl (hreg.name_mem_of_typeAt hb ha hq hp hname).symm
  · exact .inl ⟨hxa, hxb⟩
  · exact .inr ⟨hxa, hxb⟩

/-- The types of several models differ if none of them declares its own type while another one declares
it too, and only then. -/
theorem WellFormed.nodup_flatMap_typeNames (hreg : reg.WellFormed) {ms : List Model} (hnd : ms.Nodup)
    (hbuilt : ∀ m ∈ ms, (reg.build m.name).result = .ok m) :
    (ms.flatMap typeNames).Nodup ↔ ∀ a ∈ ms, ∀ b ∈ ms, a ≠ b →
      ¬ (b.name.name ∈ a.typeNames ∧ b.name.name ∈ b.typeNames) := by
  rw [List.nodup_flatMap]
  constructor
  · rintro ⟨-, hpairwise⟩ a ha b hb hne ⟨hxa, hxb⟩
    have hsymm : Std.Symm (Function.onFun List.Disjoint typeNames) :=
      ⟨fun _ _ h => List.Disjoint.symm h⟩
    exact hpairwise.forall ha hb hne hxa hxb
  · intro h
    refine ⟨fun m hm => hreg.nodup_typeNames (hbuilt m hm),
      hnd.pairwise_of_forall_ne fun a ha b hb hne => ?_⟩
    refine List.disjoint_left.2 fun {x} hxa hxb => ?_
    rcases hreg.name_mem_of_mem_typeNames (hbuilt a ha) (hbuilt b hb) hxa hxb with ⟨h₁, h₂⟩ | hboth
    · exact h b hb a ha hne.symm ⟨h₂, h₁⟩
    · exact h a ha b hb hne hboth

end Registry

/-! ### The types of a module -/

namespace Code

variable {models : List Model}

/-- The types declared in the module at a path, given what is declared for each model. -/
def moduleTypes (models : List Model) (declared : Model → List Declaration) (path : List String) :
    List String :=
  typeNames (((ModuleTree.ofModels models).modelsAt path).flatMap declared)

theorem mem_of_mem_modelsAt {path : List String} {m : Model}
    (h : m ∈ (ModuleTree.ofModels models).modelsAt path) : m ∈ models :=
  (ModuleTree.mem_modelsAt.1 h).1

end Code

namespace Command.Conversion

variable {reg : Registry} {models : List Model}

theorem built_of_orderedModels (hreg : reg.WellFormed) {space : Option String}
    (h : (orderedModels reg (targets reg space)).result = .ok models) :
    (models.map (·.name)).Nodup ∧ ∀ m ∈ models, (reg.build m.name).result = .ok m := by
  obtain ⟨built, -, hplaces, hsort⟩ := exists_built_of_orderedModels h
  have hnd : (placesOf built).Nodup :=
    hplaces ▸ (map_place_targets_sublist reg space).nodup hreg.topLevel
  refine ⟨?_, fun m hm => ?_⟩
  · have hnames : (built.map (·.name)).Nodup := by
      refine List.Nodup.of_map TypeName.place ?_
      rwa [List.map_map]
    exact (((perm_of_sortModels hnd hsort).map _).nodup_iff).2 hnames
  · obtain ⟨name, -, hbuild⟩ := (mem_orderedModels hreg h).1 hm
    rwa [Registry.name_of_build hbuild]

/-- **Types of modules.**  In each module of a file, the types that are declared differ exactly if no
model of the module declares its own type while another one declares it too.  The types declared for
one model differ, and go by its name with indices and perhaps the ending of call boundaries. -/
theorem nodup_moduleTypes_iff {file text : String}
    (htext : (Registry.ofText file text).result = .ok reg) {space : Option String}
    (hmodels : (orderedModels reg (targets reg space)).result = .ok models) {code : String}
    (hcode : (Code.fileText reg models).result = .ok code) :
    ∃ declared : Model → List Code.Declaration,
      (∀ m ∈ models, (m.declarations reg).result = .ok (declared m)) ∧
      ∀ path,
        ((Code.moduleTypes models declared path).Nodup ↔
          ∀ a ∈ (Code.ModuleTree.ofModels models).modelsAt path,
          ∀ b ∈ (Code.ModuleTree.ofModels models).modelsAt path, a ≠ b →
            ¬ (b.name.name ∈ Code.typeNames (declared a) ∧
              b.name.name ∈ Code.typeNames (declared b))) ∧
        ∀ m ∈ (Code.ModuleTree.ofModels models).modelsAt path,
          (Code.typeNames (declared m)).Nodup ∧
          ∀ x ∈ Code.typeNames (declared m), ∃ ks, ∃ ending ∈ ["", abiEnding],
            x.toList = m.name.name.toList ++ indexSuffix ks ++ ending.toList := by
  have hreg := Registry.wellFormed_of_ofText htext
  obtain ⟨hnames, hbuilt⟩ := built_of_orderedModels hreg hmodels
  choose! declared hdeclared using Code.exists_fileText_iff.1 ⟨code, hcode⟩
  refine ⟨declared, hdeclared, fun path => ?_⟩
  have hat (m) (hm : m ∈ (Code.ModuleTree.ofModels models).modelsAt path) :
      (reg.build m.name).result = .ok m := hbuilt m (Code.mem_of_mem_modelsAt hm)
  have htypes (m) (hm : m ∈ (Code.ModuleTree.ofModels models).modelsAt path) :
      Code.typeNames (declared m) = m.typeNames :=
    hreg.typeNames_declarations (hat m hm) (hdeclared m (Code.mem_of_mem_modelsAt hm))
  have hnd : ((Code.ModuleTree.ofModels models).modelsAt path).Nodup := by
    rw [(Code.ModuleTree.isTreeOf_ofModels models).modelsAt]
    exact hnames.of_map.filter _
  refine ⟨?_, fun m hm => ?_⟩
  · rw [Code.moduleTypes, Code.typeNames_flatMap, List.flatMap_congr htypes,
      hreg.nodup_flatMap_typeNames hnd hat]
    refine forall₂_congr fun a ha => forall₂_congr fun b hb => ?_
    rw [htypes a ha, htypes b hb]
  · rw [htypes m hm]
    refine ⟨hreg.nodup_typeNames (hat m hm), fun x hx => ?_⟩
    obtain ⟨ks, y, hy, rfl | rfl⟩ := hreg.exists_typeAt (hat m hm) hx
    · exact ⟨ks, "", by simp, by simp [hy.1]⟩
    · exact ⟨ks, abiEnding, by simp, by rw [String.toList_append, hy.1]⟩

end Command.Conversion

/-! ### Samples -/

namespace TypeNamesSample

open Command.Conversion Sample DerivedSample

/-- Two namespaces that are one module in code, with a nested struct in one of them. -/
def foldedText : String :=
  "namespace N { struct A { u: _U; struct _U { y: u8; } } } namespace n { struct A_1 { x: u8; } }"

def foldedRegistry : Registry :=
  ⟨[⟨"N", ⟨"A", .struct, [⟨"u", .stored (.named "_U"), some 1⟩], [], false, false, [], none, [],
      some "m", some 1, [part "_U" "y" false]⟩⟩,
    ⟨"n", ⟨"A_1", .struct, [⟨"x", .stored (.named "u8"), some 1⟩], [], false, false, [], none, [],
      some "m", some 1, []⟩⟩]⟩

def foldedOuter : Model :=
  { simple "A" .full [("u", .ofBase (.named (partName "_U" "A_0")))] with
    nested := [⟨partName "_U" "A_0", false, [], [("y", .ofPrimitive .u8)], [], none, false, .absent,
      [], .full⟩] }

def foldedOther : Model :=
  { simple "A_1" .full [("x", .ofPrimitive .u8)] with
    name := ⟨⟨"n", "A_1", []⟩, .struct, false, "n", "A_1"⟩ }

/-- All types of the module are declared once: the second struct is named as a second nested one would
be, but there is none. -/
theorem nodup_foldedTypes : ∃ declared : Model → List Code.Declaration,
    (∀ m ∈ [foldedOuter, foldedOther], (m.declarations foldedRegistry).result = .ok (declared m)) ∧
    (Code.moduleTypes [foldedOuter, foldedOther] declared ["n"]).Nodup := by
  have htext : (Registry.ofText "m" foldedText).result = .ok foldedRegistry := by cbv
  have hmodels : (orderedModels foldedRegistry (targets foldedRegistry none)).result =
      .ok [foldedOuter, foldedOther] := by cbv
  have hreg := Registry.wellFormed_of_ofText htext
  obtain ⟨code, hcode⟩ : ∃ code, (Code.fileText foldedRegistry [foldedOuter, foldedOther]).result =
      .ok code := by
    refine Code.exists_fileText_iff.2 (List.forall_mem_cons.2 ⟨?_, List.forall_mem_singleton.2 ?_⟩)
    · exact exists_declarations _ _ (by cbv)
    · exact exists_declarations _ _ (by cbv)
  obtain ⟨declared, hdeclared, hmodule⟩ := nodup_moduleTypes_iff htext hmodels hcode
  refine ⟨declared, hdeclared, (hmodule ["n"]).1.2 fun a ha b hb hne => ?_⟩
  have ha := Code.mem_of_mem_modelsAt ha
  have hb := Code.mem_of_mem_modelsAt hb
  rw [hreg.typeNames_declarations ((built_of_orderedModels hreg hmodels).2 a ha) (hdeclared a ha)]
  rintro ⟨hclash, -⟩
  have houter : "A_1" ∉ ["A", "A_abi", "A_0", "A_0_abi"] := by decide
  have hother : "A" ∉ ["A_1", "A_1_abi"] := by decide
  simp only [List.mem_cons, List.not_mem_nil, or_false] at ha hb
  rcases ha with rfl | rfl
  · rcases hb with rfl | rfl
    · exact hne rfl
    · exact houter hclash
  · rcases hb with rfl | rfl
    · exact hother hclash
    · exact hne rfl

/-- Two structs, of which one is named like the shadow type of the other. -/
def clashText : String := "namespace N { struct A { x: u8; } struct A_abi { x: u8; } }"

def clashRegistry : Registry :=
  ⟨[entry "A" false [("x", .named "u8")], entry "A_abi" false [("x", .named "u8")]]⟩

def clashModels : List Model :=
  [simple "A" .full [("x", .ofPrimitive .u8)], simple "A_abi" .full [("x", .ofPrimitive .u8)]]

/-- **Types can be declared twice.**  The text can be loaded, built and written, and one of the types of
its module is declared for both structs. -/
theorem types_clash : (Registry.ofText "m" clashText).result = .ok clashRegistry ∧
    (orderedModels clashRegistry (targets clashRegistry none)).result = .ok clashModels ∧
    (∃ code, (Code.fileText clashRegistry clashModels).result = .ok code) ∧
    ∃ declared : Model → List Code.Declaration,
      (∀ m ∈ clashModels, (m.declarations clashRegistry).result = .ok (declared m)) ∧
      ¬ (Code.moduleTypes clashModels declared ["n"]).Nodup := by
  have htext : (Registry.ofText "m" clashText).result = .ok clashRegistry := by cbv
  have hmodels : (orderedModels clashRegistry (targets clashRegistry none)).result =
      .ok clashModels := by cbv
  have hdeclared : ∀ m ∈ clashModels, ∃ ds, (m.declarations clashRegistry).result = .ok ds := by
    refine List.forall_mem_cons.2 ⟨?_, List.forall_mem_singleton.2 ?_⟩
    · exact exists_declarations _ _ (by cbv)
    · exact exists_declarations _ _ (by cbv)
  refine ⟨htext, hmodels, Code.exists_fileText_iff.2 hdeclared, ?_⟩
  choose! declared hdeclared using hdeclared
  refine ⟨declared, hdeclared, ?_⟩
  have hreg := Registry.wellFormed_of_ofText htext
  have htypes (m) (hm : m ∈ clashModels) : Code.typeNames (declared m) = m.typeNames :=
    hreg.typeNames_declarations ((built_of_orderedModels hreg hmodels).2 m hm) (hdeclared m hm)
  have hmodule : (Code.ModuleTree.ofModels clashModels).modelsAt ["n"] = clashModels := by cbv
  rw [Code.moduleTypes, Code.typeNames_flatMap, hmodule, List.flatMap_congr htypes]
  have hclash : ¬ (["A", "A_abi"] ++ ["A_abi", "A_abi_abi"]).Nodup := by decide
  exact hclash

end TypeNamesSample

end Bindery
