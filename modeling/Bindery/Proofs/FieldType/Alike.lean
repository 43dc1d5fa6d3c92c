import Bindery.FieldType.Code
import Bindery.Proofs.FieldType.Blittable
import Bindery.Proofs.FieldType.Signature
import Bindery.Proofs.Metadata.Alike
/-!
# Field types in registries with the same names

In registries with the same names a declared type resolves to the same
(`SameNames.resolveStored_inStep`).  If the stored fields have the same types but for what is kept of
them (`Alike`), the same types are blittable in both, and every type has the same code.
-/

namespace Bindery

/-! ### Constness without pointers -/

namespace FieldType

/-- The type without a constness that says nothing, since there are no pointers. -/
def dropIdleConst (t : FieldType) : FieldType :=
  if t.pointers = 0 then { t with isConst := false } else t

variable (t : FieldType)

@[simp] theorem dropIdleConst_base : t.dropIdleConst.base = t.base := by
  unfold dropIdleConst
  split <;> rfl

@[simp] theorem dropIdleConst_pointers : t.dropIdleConst.pointers = t.pointers := by
  unfold dropIdleConst
  split <;> rfl

@[simp] theorem dropIdleConst_array : t.dropIdleConst.array = t.array := by
  unfold dropIdleConst
  split <;> rfl

theorem dropIdleConst_isConst (h : 0 < t.pointers) : t.dropIdleConst.isConst = t.isConst := by
  unfold dropIdleConst
  rw [if_neg (by omega)]

@[simp] theorem dropIdleConst_target? : t.dropIdleConst.target? = t.target? := by
  simp [target?]

@[simp] theorem dropIdleConst_isCallback : t.dropIdleConst.isCallback = t.isCallback := by
  simp [isCallback, isDelegate, isWinrtDelegate, category?]

end FieldType

namespace Registry

variable {reg reg' : Registry} {kept : FieldType → FieldType}

/-! ### Resolution -/

namespace SameNames

theorem resolveName_inStep (h : reg.SameNames reg') (scope : Scope) (use : TypeUse) (name : String) :
    InStep Eq (reg.resolveName scope use name) (reg'.resolveName scope use name) := by
  unfold resolveName
  split
  · exact .ok rfl
  · split
    · rw [h.lookupName?_eq]
      exact .refl _
    · rw [h.isGeneric_eq, h.nestedName?_eq, h.lookupName?_eq]
      split
      · exact .ok rfl
      · split
        · exact .ok rfl
        · exact (h.onlyNamed_inStep use name).map fun n n' hn => congrArg BaseType.named hn

theorem resolveExpr_inStep (h : reg.SameNames reg') (scope : Scope) (use : TypeUse)
    (type : TypeExpr) :
    InStep Eq (reg.resolveExpr scope use type) (reg'.resolveExpr scope use type) := by
  induction type with
  | named name =>
    rw [resolveExpr, resolveExpr]
    exact (h.resolveName_inStep scope use name).map fun b b' hb => congrArg FieldType.ofBase hb
  | pointer isConst element ih =>
    rw [resolveExpr, resolveExpr]
    exact ih.bind_eq fun t => .refl _
  | array element length ih =>
    rw [resolveExpr, resolveExpr]
    exact ih.bind_eq fun t => .refl _

/-- **The same types.**  A stored field has the same type in both registries, or none in either. -/
theorem resolveStored_inStep (h : reg.SameNames reg') (scope : Scope) (f : Field)
    (type : TypeExpr) :
    InStep Eq (reg.resolveStored scope f type) (reg'.resolveStored scope f type) := by
  unfold resolveStored
  exact (h.resolveExpr_inStep scope _ type).bind_eq fun t => .refl _

end SameNames

/-! ### Registries alike -/

/-- The scopes in which the fields of the definition at a place are resolved: the plain one, and
those with the names in code of the nested definitions. -/
def ScopeAt (reg : Registry) (p : Place) (scope : Scope) : Prop :=
  scope.owner = p ∧ (scope = .of p [] none ∨ scope.Faithful reg)

/-- Registries with the same names in which what is `kept` of the types of stored fields is the same.
Nothing but an idle constness may be lost. -/
structure Alike (kept : FieldType → FieldType) (reg reg' : Registry) : Prop
    extends SameNames reg reg' where
  keeps : ∀ t t', kept t = kept t' → t.dropIdleConst = t'.dropIdleConst
  stored : ∀ {p d d' scope}, reg.find? p = some d → reg'.find? p = some d' → reg.ScopeAt p scope →
    List.Forall₂ (fun f f' => f.1.name = f'.1.name ∧
      InStep (fun t t' => kept t.fixDelegate = kept t'.fixDelegate)
        (reg.resolveStored scope f.1 f.2) (reg'.resolveStored scope f'.1 f'.2))
      d.stored d'.stored

theorem scopeAt_plain (reg : Registry) (p : Place) : reg.ScopeAt p (.of p [] none) :=
  ⟨rfl, .inl rfl⟩

end Registry

/-! ### Blittable types -/

namespace FieldType

variable {reg reg' : Registry} {struct struct' : Place → Except Error Bool} {t t' : FieldType}

theorem simpleBlittable_congr (h : t.base = t'.base) : t.simpleBlittable = t'.simpleBlittable := by
  rw [simpleBlittable, simpleBlittable, h]

theorem blittableWith_inStep (ht : t.dropIdleConst = t'.dropIdleConst)
    (hstruct : ∀ p, InStep Eq (struct p) (struct' p)) :
    InStep Eq (t.blittableWith struct) (t'.blittableWith struct') := by
  have hbase : t.base = t'.base := by simpa using congrArg FieldType.base ht
  have hpointers : t.pointers = t'.pointers := by simpa using congrArg FieldType.pointers ht
  unfold blittableWith
  rw [hpointers, hbase, simpleBlittable_congr hbase]
  split
  · exact .ok rfl
  · split
    · split
      · exact hstruct _
      · exact .ok rfl
    · exact .ok rfl

end FieldType

namespace Registry

variable {reg reg' : Registry} {kept : FieldType → FieldType}

/-- **Blittable in both.**  The same definitions are blittable in registries alike, and the test of
them fails for the same ones. -/
theorem Alike.blittableWithin_inStep (h : Alike kept reg reg') {u u' : List Place} (hu : u.Perm u')
    (p : Place) : InStep Eq (reg.blittableWithin u p) (reg'.blittableWithin u' p) := by
  -- on how many definitions are left: both searches enter the same struct
  induction hlen : u.length using Nat.strongRecOn generalizing u u' p with
  | ind n ih =>
    subst hlen
    cases hd : reg.find? p with
    | none =>
      rw [blittableWithin, blittableWithin, hd, h.find?_eq_none.1 hd]
      exact .error _ _
    | some d =>
      obtain ⟨d', hd', hagree⟩ := h.exists_find? hd
      have hsimple : d.simpleBlittable = d'.simpleBlittable := by
        rw [Definition.simpleBlittable, Definition.simpleBlittable, hagree.category, hagree.winrt]
      rw [blittableWithin_eq hd, blittableWithin_eq hd', hagree.category, hsimple]
      split
      · exact .ok rfl
      · by_cases hp : p ∈ u
        · rw [if_pos hp, if_pos (hu.mem_iff.1 hp)]
          refine InStep.allM (h.stored hd hd' (reg.scopeAt_plain p)) fun f f' hf => ?_
          refine hf.2.bind fun t t' ht => ?_
          refine FieldType.blittableWith_inStep (h.keeps _ _ ht) fun q => ?_
          exact ih _ (length_erase_lt hp) (hu.erase p) q rfl
        · rw [if_neg hp, if_neg (mt hu.mem_iff.2 hp)]
          exact .error _ _

theorem Alike.isBlittable_inStep (h : Alike kept reg reg') (t : FieldType) :
    InStep Eq (t.isBlittable reg) (t.isBlittable reg') := by
  rw [FieldType.isBlittable_eq, FieldType.isBlittable_eq]
  exact FieldType.blittableWith_inStep rfl fun p => h.blittableWithin_inStep h.places p

end Registry

/-! ### Signatures -/

namespace Registry

variable {reg reg' : Registry}

theorem signatureOfName_inStep {d d' : Definition} (hagree : d.Agree d') (shown shown' : String)
    (n : TypeName) : InStep Eq (signatureOfName shown n d) (signatureOfName shown' n d') := by
  have hunderlying : d.underlyingPrimitive = d'.underlyingPrimitive := by
    rw [Definition.underlyingPrimitive, Definition.underlyingPrimitive, hagree.underlying]
  unfold signatureOfName
  rw [hunderlying, hagree.guid_eq]
  cases n.category with
  | enum | interface | delegate => exact .refl _
  | struct | runtimeClass => exact .error _ _

/-- Types that are the same but for an idle constness have the same signature. -/
theorem SameNames.signatureWith_inStep (h : reg.SameNames reg')
    {struct struct' : TypeName → Except Error String} {t t' : FieldType}
    (ht : t.dropIdleConst = t'.dropIdleConst)
    (hstruct : ∀ n, t.base = .named n → n.category = .struct → ¬ 0 < t.pointers →
      InStep Eq (struct n) (struct' n)) :
    InStep Eq (reg.signatureWith struct t) (reg'.signatureWith struct' t') := by
  have hbase : t.base = t'.base := by simpa using congrArg FieldType.base ht
  have hpointers : t.pointers = t'.pointers := by simpa using congrArg FieldType.pointers ht
  have harray : t.array = t'.array := by simpa using congrArg FieldType.array ht
  unfold signatureWith
  rw [← hpointers, ← harray, ← hbase]
  split
  · exact .error _ _
  · rename_i hplain
    cases hnamed : t.base with
    | primitive p =>
      dsimp only
      cases p.signature? with
      | some s => exact .ok rfl
      | none => exact .error _ _
    | generic name => exact .error _ _
    | named n =>
      dsimp only
      split
      · rename_i hcategory
        exact hstruct n hnamed hcategory fun hpointers => hplain (.inl hpointers)
      · cases hd : reg.find? n.place with
        | none =>
          rw [h.find?_eq_none.1 hd]
          exact .error _ _
        | some d =>
          obtain ⟨d', hd', hagree⟩ := h.exists_find? hd
          rw [hd']
          exact signatureOfName_inStep hagree _ _ n

/-- **The same signatures.**  Structs have the same signatures in registries with the same names, if
the types of stored fields are the same, but for an idle constness, in all structs that are held. -/
theorem SameNames.structSignatureWithin_inStep (h : reg.SameNames reg') {S : Place → Prop}
    (hstored : ∀ p d d', S p → reg.find? p = some d → reg'.find? p = some d' →
      List.Forall₂ (fun f f' => InStep (fun t t' => t.dropIdleConst = t'.dropIdleConst)
        (reg.resolveStored (.of p [] none) f.1 f.2) (reg'.resolveStored (.of p [] none) f'.1 f'.2))
        d.stored d'.stored)
    (hheld : ∀ p n, S p → reg.HoldsByValue p n → S n.place)
    {u u' : List Place} (hu : u.Perm u') {n : TypeName} (hn : S n.place) :
    InStep Eq (reg.structSignatureWithin u n) (reg'.structSignatureWithin u' n) := by
  -- on how many definitions are left: both searches enter the same struct
  induction hlen : u.length using Nat.strongRecOn generalizing u u' n with
  | ind k ih =>
    subst hlen
    cases hd : reg.find? n.place with
    | none =>
      rw [structSignatureWithin, structSignatureWithin, hd, h.find?_eq_none.1 hd]
      exact .error _ _
    | some d =>
      obtain ⟨d', hd', -⟩ := h.exists_find? hd
      by_cases hmem : n.place ∈ u
      · rw [structSignatureWithin_of_mem hd hmem,
          structSignatureWithin_of_mem hd' (hu.mem_iff.1 hmem)]
        refine InStep.map (R := List.Forall₂ Eq) (InStep.mapM
          (forall₂_mem (hstored _ d d' hn hd hd')) ?_) fun parts parts' hparts => ?_
        · rintro ⟨f, type⟩ ⟨f', type'⟩ ⟨hf, hmemf, -⟩
          refine (hf.and_of_ok (fun _ ht => ht) fun _ _ => trivial).bind ?_
          rintro t t' ⟨htt, ht, -⟩
          refine h.signatureWith_inStep htt fun e hbase hcategory hpointers => ?_
          obtain ⟨hfield, hkind⟩ := Definition.mem_stored.1 hmemf
          have hnonneg := pointers_nonneg_of_resolveExpr (resolveStored_eq_ok.1 ht).1
          have hholds : reg.HoldsByValue n.place e :=
            ⟨d, f, type, t, hd, hfield, hkind, ht, hbase, hcategory, by omega⟩
          exact ih _ (length_erase_lt hmem) (hu.erase n.place) (hheld _ _ hn hholds) rfl
        · rw [List.forall₂_eq_eq_eq] at hparts
          rw [hparts]
      · rw [structSignatureWithin_of_not_mem hd hmem,
          structSignatureWithin_of_not_mem hd' (mt hu.mem_iff.2 hmem)]
        exact .error _ _

end Registry

/-! ### Code -/

namespace FieldType

variable {reg reg' : Registry} {kept : FieldType → FieldType}

theorem baseCode_congr {t t' : FieldType} (h : t.base = t'.base) (source : String) :
    t.baseCode source = t'.baseCode source := by
  rw [baseCode, baseCode, h]

theorem wrap_dropIdleConst (t : FieldType) (base : String) : t.dropIdleConst.wrap base = t.wrap base := by
  unfold wrap
  rw [dropIdleConst_array, dropIdleConst_pointers]
  by_cases h : 0 < t.pointers
  · rw [dropIdleConst_isConst t h]
  · rw [Int.toNat_of_nonpos (by omega)]
    rfl

theorem fieldCode_dropIdleConst (t : FieldType) (source : String) :
    t.dropIdleConst.fieldCode source = t.fieldCode source := by
  rw [fieldCode, fieldCode, wrap_dropIdleConst, baseCode_congr (dropIdleConst_base t)]

theorem elementDefault_dropIdleConst (t : FieldType) :
    t.dropIdleConst.elementDefault = t.elementDefault := by
  unfold elementDefault
  rw [dropIdleConst_pointers, dropIdleConst_base]
  split
  · rename_i hpointers
    rw [dropIdleConst_isConst t hpointers]
  · rfl

theorem isBlittable_dropIdleConst (reg : Registry) (t : FieldType) :
    t.dropIdleConst.isBlittable reg = t.isBlittable reg := by
  unfold isBlittable
  rw [dropIdleConst_pointers, dropIdleConst_base, simpleBlittable_congr (dropIdleConst_base t)]

theorem defaultCode_dropIdleConst (reg : Registry) (t : FieldType) :
    t.dropIdleConst.defaultCode reg = t.defaultCode reg := by
  unfold defaultCode
  rw [dropIdleConst_array, elementDefault_dropIdleConst, isBlittable_dropIdleConst]

theorem abiCode_dropIdleConst (reg : Registry) (t : FieldType) (source : String) :
    t.dropIdleConst.abiCode reg source = t.abiCode reg source := by
  have hbase : t.dropIdleConst.baseAbi reg source = t.baseAbi reg source := by
    unfold baseAbi
    rw [dropIdleConst_base, baseCode_congr (dropIdleConst_base t)]
  unfold abiCode
  rw [dropIdleConst_pointers, fieldCode_dropIdleConst, hbase]
  simp only [wrap_dropIdleConst]

theorem defaultCode_inStep (h : Registry.Alike kept reg reg') (t : FieldType) :
    InStep Eq (t.defaultCode reg) (t.defaultCode reg') := by
  unfold defaultCode
  split
  · exact .ok rfl
  · exact (h.isBlittable_inStep t).bind_eq fun b => .refl _

theorem abiCode_inStep (h : Registry.Alike kept reg reg') (t : FieldType) (source : String) :
    InStep Eq (t.abiCode reg source) (t.abiCode reg' source) := by
  have hbase : InStep Eq (t.baseAbi reg source) (t.baseAbi reg' source) := by
    unfold baseAbi
    cases t.base with
    | primitive p => cases p <;> exact .ok rfl
    | generic name => exact .ok rfl
    | named n =>
      dsimp only
      cases n.category with
      | struct => exact (h.blittableWithin_inStep h.places n.place).bind_eq fun b => .refl _
      | enum | delegate | interface | runtimeClass => exact .ok rfl
  unfold abiCode
  split
  · exact .ok rfl
  · exact hbase.bind_eq fun b => .refl _

end FieldType

end Bindery
