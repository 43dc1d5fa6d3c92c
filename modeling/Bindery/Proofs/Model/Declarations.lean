import Bindery.Model.Declarations
import Bindery.Proofs.FieldType.Blittable
import Bindery.Proofs.Model.Building
/-!
# The declarations that models get

The declarations of a built model are its own and those of the models nested in it, which go under
longer names.  So what is declared for a model is told by its own declarations: the derived
operations for the full ones (`declares_derived`), and a copy for those whose fields are all
blittable (`declares_copy`).
-/

namespace Bindery

open Code (Declaration DeclarationKind)

/-- Some of the declarations is of a kind, for the type of a name. -/
def Code.Declares (ds : List Declaration) (kind : DeclarationKind) (name : String) : Prop :=
  ∃ d ∈ ds, d.kind = kind ∧ d.typeName = name

def Code.derivedKinds : List DeclarationKind :=
  [.defaultImpl, .debugImpl, .partialEqImpl, .eqImpl]

open Code (Declares derivedKinds)

namespace Model

variable {reg : Registry} {m : Model} {ds own : List Declaration}

/-! ### Own declarations -/

theorem exists_items_of_mem (h : m.constantsDeclaration = .ok ds) {d : Declaration} (hd : d ∈ ds) :
    ∃ items, m.constantCodes = .ok items ∧ d = .constants m.head items := by
  unfold constantsDeclaration at h
  split at h
  · cases h
    cases hd
  · obtain ⟨items, hitems, h⟩ := bind_eq_ok.1 h
    cases h
    exact ⟨items, hitems, List.mem_singleton.1 hd⟩

theorem constantsDeclaration_ok (h : m.constantsDeclaration = .ok ds) {d : Declaration}
    (hd : d ∈ ds) : d.kind = .constants ∧ d.typeName = m.name.name := by
  obtain ⟨items, -, rfl⟩ := exists_items_of_mem h hd
  exact ⟨rfl, rfl⟩

theorem map_fst_constantCodes {items : List (String × String)} (h : m.constantCodes = .ok items) :
    items.map (·.1) = m.constants.map fun c => Code.identifier c.1 := by
  refine (map_eq_of_forall₂ ((mapM_eq_ok.1 h).imp fun c item hitem => ?_)).symm
  obtain ⟨code, -, heq⟩ := bind_eq_ok.1 hitem
  cases heq
  rfl

theorem of_mem_ownDeclarations (hshape : m.shape ≠ .full) (h : m.ownDeclarations reg = .ok own)
    {d : Declaration} (hd : d ∈ own) :
    d.kind ∈ [.guidConstant, .union, .struct, .constants] ∧ d.typeName = m.name.name := by
  unfold ownDeclarations at h
  split at h
  · cases h
    rw [List.mem_singleton.1 hd]
    exact ⟨by simp [Declaration.kind], rfl⟩
  · cases h
    rw [List.mem_singleton.1 hd]
    exact ⟨by simp [Declaration.kind], rfl⟩
  · obtain ⟨constants, hconstants, h⟩ := bind_eq_ok.1 h
    cases h
    rcases List.mem_cons.1 hd with rfl | hd
    · exact ⟨by simp [structDeclaration, Declaration.kind], rfl⟩
    · obtain ⟨hkind, hname⟩ := constantsDeclaration_ok hconstants hd
      exact ⟨by simp [hkind], hname⟩
  · rename_i hfull
    exact absurd hfull hshape

/-- The own declarations of a full model, in order, and what they are made of. -/
theorem ownDeclarations_full (hfull : m.shape = .full) (h : m.ownDeclarations reg = .ok own) :
    ∃ abi constants defaults copy, m.abiEntries reg = .ok abi ∧
      m.constantsDeclaration = .ok constants ∧ m.defaults reg = .ok defaults ∧
      m.allBlittable reg = .ok copy ∧
      own = [m.structDeclaration, .abiStruct m.head abi] ++ constants ++
        [.abiImpl m.head, .defaultImpl m.head m.isTypedef defaults,
          .debugImpl m.head m.debugEntries, .partialEqImpl m.head m.comparisons, .eqImpl m.head] ++
        (if copy then [.copyImpl m.head] else []) ++
        m.signature.toList.map (.runtimeTypeImpl m.head) := by
  unfold ownDeclarations at h
  rw [hfull] at h
  simp only [bind_eq_ok] at h
  obtain ⟨abi, habi, constants, hconstants, defaults, hdefaults, copy, hcopy, h⟩ := h
  exact ⟨abi, constants, defaults, copy, habi, hconstants, hdefaults, hcopy,
    (Except.ok.inj h).symm⟩

theorem of_mem_ownDeclarations_full (hfull : m.shape = .full)
    (h : m.ownDeclarations reg = .ok own) {d : Declaration} (hd : d ∈ own) :
    d.typeName = m.name.name ∧ (d.kind = .copyImpl → m.allBlittable reg = .ok true) := by
  obtain ⟨abi, constants, defaults, copy, -, hconstants, -, hcopy, rfl⟩ := ownDeclarations_full hfull h
  simp only [List.mem_append, List.mem_cons, List.not_mem_nil, or_false, List.mem_map] at hd
  rcases hd with (((hd | hd) | hd) | hd) | ⟨s, -, rfl⟩
  · rcases hd with rfl | rfl <;> exact ⟨rfl, nofun⟩
  · obtain ⟨hkind, hname⟩ := constantsDeclaration_ok hconstants hd
    exact ⟨hname, by simp [hkind]⟩
  · rcases hd with rfl | rfl | rfl | rfl | rfl <;> exact ⟨rfl, nofun⟩
  · cases copy with
    | true =>
      rw [List.mem_singleton.1 hd]
      exact ⟨rfl, fun _ => hcopy⟩
    | false => cases hd
  · exact ⟨rfl, nofun⟩

theorem typeName_of_mem_ownDeclarations (h : m.ownDeclarations reg = .ok own) {d : Declaration}
    (hd : d ∈ own) : d.typeName = m.name.name := by
  by_cases hfull : m.shape = .full
  · exact (of_mem_ownDeclarations_full hfull h hd).1
  · exact (of_mem_ownDeclarations hfull h hd).2

theorem exists_items_of_mem_ownDeclarations (h : m.ownDeclarations reg = .ok own) {d : Declaration}
    (hd : d ∈ own) (hkind : d.kind = .constants) :
    ∃ items, m.constantCodes = .ok items ∧ d = .constants m.head items := by
  cases hshape : m.shape with
  | constantOnly | union =>
    simp only [ownDeclarations, hshape, Except.ok.injEq] at h
    subst h
    rw [List.mem_singleton.1 hd] at hkind
    cases hkind
  | plain =>
    simp only [ownDeclarations, hshape, bind_eq_ok] at h
    obtain ⟨constants, hconstants, h⟩ := h
    cases h
    rcases List.mem_cons.1 hd with rfl | hd
    · cases hkind
    · exact exists_items_of_mem hconstants hd
  | full =>
    obtain ⟨abi, constants, defaults, copy, -, hconstants, -, -, rfl⟩ := ownDeclarations_full hshape h
    simp only [List.mem_append, List.mem_cons, List.not_mem_nil, or_false, List.mem_map] at hd
    rcases hd with (((hd | hd) | hd) | hd) | ⟨s, -, rfl⟩
    · rcases hd with rfl | rfl <;> cases hkind
    · exact exists_items_of_mem hconstants hd
    · rcases hd with rfl | rfl | rfl | rfl | rfl <;> cases hkind
    · cases copy with
      | true =>
        rw [List.mem_singleton.1 hd] at hkind
        cases hkind
      | false => cases hd
    · cases hkind

/-! ### Nested declarations -/

theorem result_declarationsAll (reg : Registry) (ms : List Model) :
    (declarationsAll reg ms).result =
      (ms.mapM fun c : Model => (c.declarations reg).result).map List.flatten := by
  induction ms with
  | nil => rfl
  | cons c ms ih =>
    rw [declarationsAll, List.mapM_cons]
    simp only [Traced.result_bind, Traced.result_pure, ih]
    cases (c.declarations reg).result with
    | error e => rfl
    | ok ds =>
      cases ms.mapM fun c => (c.declarations reg).result with
      | error e => rfl
      | ok rest => rfl

/-- The declarations of a model are its own, then those of the nested models unless it only stands
for an identity. -/
theorem result_declarations (reg : Registry) (m : Model) :
    (m.declarations reg).result = (do
      let own ← m.ownDeclarations reg
      if m.shape = .constantOnly then return own
      else
        let inner ← m.nested.mapM fun c => (c.declarations reg).result
        return own ++ inner.flatten) := by
  obtain ⟨name, layout, generics, fields, constants, signature, isTypedef, guid, nested, shape⟩ := m
  rw [declarations]
  simp only [Traced.result_bind, Traced.result_lift, Traced.result_tell]
  refine congrArg (Except.bind (ownDeclarations reg _)) (funext fun own => ?_)
  split
  · rfl
  · rw [Traced.result_bind, result_declarationsAll]
    cases nested.mapM fun c => (c.declarations reg).result <;> rfl

theorem declarations_ok (h : (m.declarations reg).result = .ok ds) :
    ∃ own, m.ownDeclarations reg = .ok own ∧
      ((m.shape = .constantOnly ∧ ds = own) ∨ (m.shape ≠ .constantOnly ∧ ∃ inner,
        List.Forall₂ (fun c ds => (c.declarations reg).result = .ok ds) m.nested inner ∧
          ds = own ++ inner.flatten)) := by
  rw [result_declarations, bind_eq_ok] at h
  obtain ⟨own, hown, h⟩ := h
  refine ⟨own, hown, ?_⟩
  split at h
  · rename_i hshape
    exact .inl ⟨hshape, (Except.ok.inj h).symm⟩
  · rename_i hshape
    obtain ⟨inner, hinner, h⟩ := bind_eq_ok.1 h
    exact .inr ⟨hshape, inner, mapM_eq_ok.1 hinner, (Except.ok.inj h).symm⟩

theorem ownDeclarations_subset (h : (m.declarations reg).result = .ok ds)
    (hown : m.ownDeclarations reg = .ok own) : own ⊆ ds := by
  obtain ⟨own', hown', h⟩ := declarations_ok h
  obtain rfl : own = own' := Except.ok.inj (hown.symm.trans hown')
  rcases h with ⟨-, rfl⟩ | ⟨-, inner, -, rfl⟩
  · exact List.Subset.refl _
  · exact List.subset_append_left _ _

/-- Every declaration is an own one of a model in the walk, of which everything is declared. -/
theorem exists_declared_of_mem_declarations (h : (m.declarations reg).result = .ok ds)
    {d : Declaration} (hd : d ∈ ds) :
    ∃ n ∈ m.walk, ∃ own ns, n.ownDeclarations reg = .ok own ∧ d ∈ own ∧
      (n.declarations reg).result = .ok ns ∧ ns ⊆ ds := by
  induction m using nested_induction generalizing ds with
  | step m ih =>
    obtain ⟨own, hown, ⟨-, rfl⟩ | ⟨-, inner, hinner, rfl⟩⟩ := declarations_ok h
    · exact ⟨m, m.self_mem_walk, _, _, hown, hd, h, List.Subset.refl _⟩
    · rcases List.mem_append.1 hd with hd | hd
      · exact ⟨m, m.self_mem_walk, own, _, hown, hd, h, List.Subset.refl _⟩
      · obtain ⟨cs, hcs, hd⟩ := List.mem_flatten.1 hd
        obtain ⟨c, hc, hdeclared⟩ := exists_of_mem_right hinner hcs
        obtain ⟨n, hn, nown, ns, hnown, hmem, hns, hsubset⟩ := ih c hc hdeclared hd
        refine ⟨n, mem_walk.2 (.inr ⟨c, hc, hn⟩), nown, ns, hnown, hmem, hns, fun x hx => ?_⟩
        exact List.mem_append_right _ (List.mem_flatten.2 ⟨cs, hcs, hsubset hx⟩)

theorem exists_subset_of_mem_nested (h : (m.declarations reg).result = .ok ds)
    (hshape : m.shape ≠ .constantOnly) {c : Model} (hc : c ∈ m.nested) :
    ∃ cs, (c.declarations reg).result = .ok cs ∧ cs ⊆ ds := by
  obtain ⟨own, -, ⟨hconstant, -⟩ | ⟨-, inner, hinner, rfl⟩⟩ := declarations_ok h
  · exact absurd hconstant hshape
  · obtain ⟨cs, hcs, hdeclared⟩ := exists_of_mem_left hinner hc
    refine ⟨cs, hdeclared, fun x hx => ?_⟩
    exact List.mem_append_right _ (List.mem_flatten.2 ⟨cs, hcs, hx⟩)

theorem exists_declarations_of_mem_nested (h : (m.declarations reg).result = .ok ds)
    (hshape : m.shape ≠ .constantOnly) {c : Model} (hc : c ∈ m.nested) :
    ∃ cs, (c.declarations reg).result = .ok cs := by
  obtain ⟨cs, hdeclared, -⟩ := exists_subset_of_mem_nested h hshape hc
  exact ⟨cs, hdeclared⟩

end Model

/-! ### What is declared for a built model -/

namespace Registry

open Model

variable {reg : Registry} {name : TypeName} {m : Model} {ds : List Declaration}

/-- For a built model only its own declarations count. -/
theorem WellFormed.declares_iff (hreg : reg.WellFormed) (hbuild : (reg.build name).result = .ok m)
    (h : (m.declarations reg).result = .ok ds) {kind : DeclarationKind} :
    Declares ds kind m.name.name ↔
      ∃ own, m.ownDeclarations reg = .ok own ∧ ∃ d ∈ own, d.kind = kind := by
  constructor
  · rintro ⟨d, hd, hkind, hname⟩
    obtain ⟨n, hn, own, -, hown, hd, -⟩ := exists_declared_of_mem_declarations h hd
    -- a declaration of a nested model would be for a longer name
    rcases hreg.eq_or_length_lt_of_mem_walk hbuild hn with rfl | hlt
    · exact ⟨own, hown, d, hd, hkind⟩
    · rw [← hname, typeName_of_mem_ownDeclarations hown hd] at hlt
      exact absurd hlt (Nat.lt_irrefl _)
  · rintro ⟨own, hown, d, hd, hkind⟩
    exact ⟨d, ownDeclarations_subset h hown hd, hkind, typeName_of_mem_ownDeclarations hown hd⟩

/-- **Derived operations.**  A built model has them if it is full, and only then. -/
theorem WellFormed.declares_derived (hreg : reg.WellFormed)
    (hbuild : (reg.build name).result = .ok m) (h : (m.declarations reg).result = .ok ds)
    {kind : DeclarationKind} (hkind : kind ∈ derivedKinds) :
    Declares ds kind m.name.name ↔ m.shape = .full := by
  rw [hreg.declares_iff hbuild h]
  constructor
  · rintro ⟨own, hown, d, hd, rfl⟩
    by_contra hshape
    have hother := (of_mem_ownDeclarations hshape hown hd).1
    simp only [derivedKinds, List.mem_cons, List.not_mem_nil, or_false] at hkind hother
    rcases hkind with hk | hk | hk | hk <;> simp [hk] at hother
  · intro hfull
    obtain ⟨own, hown, -⟩ := declarations_ok h
    refine ⟨own, hown, ?_⟩
    obtain ⟨abi, constants, defaults, copy, -, -, -, -, rfl⟩ := ownDeclarations_full hfull hown
    simp only [derivedKinds, List.mem_cons, List.not_mem_nil, or_false] at hkind
    rcases hkind with rfl | rfl | rfl | rfl
    · exact ⟨.defaultImpl m.head m.isTypedef defaults, by simp, rfl⟩
    · exact ⟨.debugImpl m.head m.debugEntries, by simp, rfl⟩
    · exact ⟨.partialEqImpl m.head m.comparisons, by simp, rfl⟩
    · exact ⟨.eqImpl m.head, by simp, rfl⟩

/-- **Copies.**  A built model is copied if it is full and all its fields are blittable, and only
then. -/
theorem WellFormed.declares_copy (hreg : reg.WellFormed)
    (hbuild : (reg.build name).result = .ok m) (h : (m.declarations reg).result = .ok ds) :
    Declares ds .copyImpl m.name.name ↔ m.shape = .full ∧ m.allBlittable reg = .ok true := by
  rw [hreg.declares_iff hbuild h]
  constructor
  · rintro ⟨own, hown, d, hd, hkind⟩
    by_cases hfull : m.shape = .full
    · exact ⟨hfull, (of_mem_ownDeclarations_full hfull hown hd).2 hkind⟩
    · have hother := (of_mem_ownDeclarations hfull hown hd).1
      simp [hkind] at hother
  · rintro ⟨hfull, hblittable⟩
    obtain ⟨own, hown, -⟩ := declarations_ok h
    refine ⟨own, hown, .copyImpl m.head, ?_, rfl⟩
    obtain ⟨abi, constants, defaults, copy, -, -, -, hcopy, rfl⟩ := ownDeclarations_full hfull hown
    obtain rfl : copy = true := Except.ok.inj (hcopy.symm.trans hblittable)
    simp

end Registry

end Bindery
