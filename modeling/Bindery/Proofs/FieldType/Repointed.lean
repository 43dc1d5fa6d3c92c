import Bindery.Proofs.FieldType.Alike
/-!
# Pointers recorded for delegates

Metadata records pointers for delegates that are none.  Two registries are `Repointed` if one is the
other with such pointers added or taken away.  They have the same names, and the types of their
stored fields are the same once the pointers of delegates are dropped (`Repointed.alike`).
-/

namespace Bindery

/-! ### Types with other pointers -/

/-- Types that differ at most in what is recorded about the pointers of a delegate. -/
inductive FieldType.Repointed : FieldType → FieldType → Prop
  | refl (t : FieldType) : Repointed t t
  | delegate {t : FieldType} (h : t.isDelegate = true) (pointers : Int) (isConst : Bool) :
    Repointed t { t with pointers, isConst }

namespace FieldType.Repointed

variable {t t' : FieldType}

theorem array_eq (h : t.Repointed t') : t.array = t'.array := by cases h <;> rfl

theorem pointer (h : t.Repointed t') (isConst : Bool) :
    FieldType.Repointed { t with pointers := t.pointers + 1, isConst := t.isConst || isConst }
      { t' with pointers := t'.pointers + 1, isConst := t'.isConst || isConst } := by
  cases h with
  | refl => exact .refl _
  | delegate hdelegate pointers isConst' =>
    exact .delegate (t := { t with pointers := t.pointers + 1, isConst := t.isConst || isConst })
      hdelegate (pointers + 1) (isConst' || isConst)

theorem withArray (h : t.Repointed t') (array : Option Value) :
    FieldType.Repointed { t with array } { t' with array } := by
  cases h with
  | refl => exact .refl _
  | delegate hdelegate pointers isConst =>
    exact .delegate (t := { t with array }) hdelegate pointers isConst

theorem isVoid_iff (h : t.Repointed t') :
    (t.base = .primitive .void ∧ t.pointers = 0) ↔
      (t'.base = .primitive .void ∧ t'.pointers = 0) := by
  cases h with
  | refl => rfl
  | delegate hdelegate pointers isConst =>
    have hbase : t.base ≠ .primitive .void := by
      intro hbase
      simp [isDelegate, category?, target?, hbase] at hdelegate
    exact iff_of_false (fun h => hbase h.1) fun h => hbase h.1

/-- Without the pointers of delegates only an idle constness may differ. -/
theorem dropIdleConst_fixDelegate (h : t.Repointed t') :
    t.fixDelegate.dropIdleConst = t'.fixDelegate.dropIdleConst := by
  cases h with
  | refl => rfl
  | delegate hdelegate pointers isConst =>
    rw [fixDelegate, if_pos hdelegate, fixDelegate,
      if_pos (show { t with pointers, isConst : FieldType }.isDelegate = true from hdelegate)]
    rfl

theorem dropIdleConst_eq (h : t.Repointed t') (hbare : t.isDelegate = true → t.pointers = 0)
    (hbare' : t'.isDelegate = true → t'.pointers = 0) : t.dropIdleConst = t'.dropIdleConst := by
  cases h with
  | refl => rfl
  | delegate hdelegate pointers isConst =>
    have hpointers := hbare hdelegate
    have hpointers' : pointers = 0 := hbare' hdelegate
    rw [dropIdleConst, if_pos hpointers, dropIdleConst, if_pos hpointers', hpointers, hpointers']

end FieldType.Repointed

/-! ### Declared types with other pointers -/

/-- A declared type behind pointers, the outermost first. -/
def TypeExpr.behind (marks : List Bool) (type : TypeExpr) : TypeExpr := marks.foldr .pointer type

/-- Declared types that differ in the pointers around the names of delegates. -/
inductive TypeExpr.Repointed (delegate : String → Prop) : TypeExpr → TypeExpr → Prop
  | leaf {name : String} (h : delegate name) (marks marks' : List Bool) :
    Repointed delegate ((TypeExpr.named name).behind marks) ((TypeExpr.named name).behind marks')
  | refl (type : TypeExpr) : Repointed delegate type type
  | pointer {type type' : TypeExpr} (isConst : Bool) (h : Repointed delegate type type') :
    Repointed delegate (.pointer isConst type) (.pointer isConst type')
  | array {type type' : TypeExpr} (length : Value) (h : Repointed delegate type type') :
    Repointed delegate (.array type length) (.array type' length)

namespace Registry

variable {reg reg' : Registry} {scope : Scope}

/-- A name that stands for a delegate in a scope. -/
def NamesDelegate (reg : Registry) (scope : Scope) (name : String) : Prop :=
  ∀ use, ∃ n, reg.resolveName scope use name = .ok (.named n) ∧ n.category = .delegate

theorem NamesDelegate.of_scopeAt {p : Place} {name : String} (hscope : reg.ScopeAt p scope)
    (h : reg.NamesDelegate (.of p [] none) name) : reg.NamesDelegate scope name := by
  intro use
  obtain ⟨n, hn, hcategory⟩ := h use
  obtain ⟨hp, heq | hfaithful⟩ := hscope
  · exact ⟨n, heq ▸ hn, hcategory⟩
  · -- with names in code it stands for the same delegate
    rw [← hp, resolveName_own hfaithful] at hn
    cases hbase : reg.resolveName scope use name with
    | error e => simp [hbase, Except.map] at hn
    | ok base =>
      simp only [hbase, Except.map, Except.ok.injEq] at hn
      obtain ⟨n', rfl, rfl⟩ := BaseType.own_eq_named.1 hn
      exact ⟨n', rfl, hcategory⟩

/-- A name behind pointers is resolved to that many of them, all constant if one is declared so. -/
theorem resolveExpr_behind {use : TypeUse} {name : String} {base : BaseType}
    (h : reg.resolveName scope use name = .ok base) (marks : List Bool) :
    reg.resolveExpr scope use ((TypeExpr.named name).behind marks) =
      .ok ⟨base, marks.length, none, marks.any id, none⟩ := by
  induction marks with
  | nil =>
    rw [TypeExpr.behind, List.foldr_nil, resolveExpr, h]
    rfl
  | cons mark marks ih =>
    rw [TypeExpr.behind, List.foldr_cons, ← TypeExpr.behind, resolveExpr, ih, List.any_cons,
      Bool.or_comm, List.length_cons, Int.natCast_succ]
    rfl

theorem around_inStep {e : Error} {g : FieldType → FieldType} {t t' : FieldType}
    (ht : t.Repointed t') (hg : (g t).Repointed (g t')) :
    InStep FieldType.Repointed (around e g t) (around e g t') := by
  unfold around
  rw [ht.array_eq]
  split
  · exact .error _ _
  · exact .ok hg

/-- Types that differ in the pointers of delegates are resolved to such types. -/
theorem SameNames.resolveExpr_repointed (h : reg.SameNames reg') {delegate : String → Prop}
    (hdelegate : ∀ name, delegate name → reg.NamesDelegate scope name) (use : TypeUse)
    {type type' : TypeExpr} (htype : type.Repointed delegate type') :
    InStep FieldType.Repointed (reg.resolveExpr scope use type)
      (reg'.resolveExpr scope use type') := by
  induction htype with
  | @leaf name hname marks marks' =>
    obtain ⟨n, hn, hcategory⟩ := hdelegate name hname use
    have hn' := ((h.resolveName_inStep scope use name).ok_iff _).1 hn
    have hdelegate (pointers : Int) (isConst : Bool) :
        FieldType.isDelegate ⟨.named n, pointers, none, isConst, none⟩ = true := by
      simp [FieldType.isDelegate, FieldType.category?, FieldType.target?, hcategory]
    rw [resolveExpr_behind hn marks, resolveExpr_behind hn' marks']
    exact .ok (.delegate (hdelegate _ _) _ _)
  | refl type =>
    exact (h.resolveExpr_inStep scope use type).mono fun t t' ht => ht ▸ .refl t
  | pointer isConst _ ih =>
    rw [resolveExpr_pointer, resolveExpr_pointer]
    exact ih.bind fun t t' ht => around_inStep ht (ht.pointer isConst)
  | array length _ ih =>
    rw [resolveExpr_array, resolveExpr_array]
    exact ih.bind fun t t' ht => around_inStep ht (ht.withArray length.present?)

theorem SameNames.resolveStored_repointed (h : reg.SameNames reg') {delegate : String → Prop}
    (hdelegate : ∀ name, delegate name → reg.NamesDelegate scope name) {f f' : Field}
    (hname : f.name = f'.name) {type type' : TypeExpr} (htype : type.Repointed delegate type') :
    InStep FieldType.Repointed (reg.resolveStored scope f type)
      (reg'.resolveStored scope f' type') := by
  unfold resolveStored
  rw [show useOf scope.owner f = useOf scope.owner f' by rw [useOf, useOf, hname]]
  refine (h.resolveExpr_repointed hdelegate _ htype).bind fun t t' ht => ?_
  by_cases hvoid : t.base = .primitive .void ∧ t.pointers = 0
  · rw [if_pos hvoid, if_pos (ht.isVoid_iff.1 hvoid)]
    exact .error _ _
  · rw [if_neg hvoid, if_neg (mt ht.isVoid_iff.2 hvoid)]
    exact .ok ht

end Registry

/-! ### Registries with other pointers -/

/-- What a field is, with other pointers around the names of delegates. -/
inductive FieldKind.Repointed (delegate : String → Prop) : FieldKind → FieldKind → Prop
  | stored {type type' : TypeExpr} (h : type.Repointed delegate type') :
    Repointed delegate (.stored type) (.stored type')
  | literal (constant : Option Constant) : Repointed delegate (.literal constant) (.literal constant)

/-- A definition with other pointers around the names of delegates in its fields. -/
structure Definition.Repointed (delegate : String → Prop) (d d' : Definition) : Prop where
  name : d.name = d'.name
  category : d.category = d'.category
  attributes : d.attributes = d'.attributes
  explicitLayout : d.explicitLayout = d'.explicitLayout
  winrt : d.winrt = d'.winrt
  generics : d.generics = d'.generics
  underlying : d.underlying = d'.underlying
  nested : d.nested.map (·.name) = d'.nested.map (·.name)
  fields : List.Forall₂ (fun f f' => f.name = f'.name ∧ f.kind.Repointed delegate f'.kind)
    d.fields d'.fields

namespace Definition.Repointed

variable {delegate : String → Prop} {d d' : Definition}

theorem stored (h : d.Repointed delegate d') :
    List.Forall₂ (fun f f' => f.1.name = f'.1.name ∧ f.2.Repointed delegate f'.2)
      d.stored d'.stored := by
  refine List.rel_filterMap (fun f f' hf => ?_) h.fields
  obtain ⟨hname, hkind⟩ := hf
  generalize f.kind = kind, f'.kind = kind' at hkind ⊢
  cases hkind with
  | stored htype => exact .some ⟨hname, htype⟩
  | literal _ => exact .none

theorem constants_eq (h : d.Repointed delegate d') : d.constants = d'.constants := by
  have hconstants : List.Forall₂ Eq d.constants d'.constants := by
    refine List.rel_filterMap (fun f f' hf => ?_) h.fields
    obtain ⟨hname, hkind⟩ := hf
    rw [hname]
    generalize f.kind = kind, f'.kind = kind' at hkind ⊢
    cases hkind with
    | stored _ => exact .none
    | literal constant =>
      cases constant with
      | none => exact .none
      | some c => exact .some rfl
  rwa [List.forall₂_eq_eq_eq] at hconstants

theorem agree (h : d.Repointed delegate d') : d.Agree d' :=
  ⟨h.name, h.category, h.attributes, h.explicitLayout, h.winrt, h.generics, h.underlying,
    h.constants_eq, h.nested⟩

end Definition.Repointed

namespace Registry

variable {reg reg' : Registry}

/-- A registry with other pointers around the names of delegates: the same definitions stand at the
same places but for these pointers. -/
structure Repointed (reg reg' : Registry) : Prop where
  topLevel : reg.topLevel = reg'.topLevel
  places : reg.places = reg'.places
  repointed : ∀ p ∈ reg.places, ∃ d d', reg.find? p = some d ∧ reg'.find? p = some d' ∧
    d.Repointed (reg.NamesDelegate (.of p [] none)) d'

namespace Repointed

theorem repointed_of_find? (h : reg.Repointed reg') {p : Place} {d d' : Definition}
    (hd : reg.find? p = some d) (hd' : reg'.find? p = some d') :
    d.Repointed (reg.NamesDelegate (.of p [] none)) d' := by
  obtain ⟨e, e', he, he', hrepointed⟩ := h.repointed p (mem_places_of_find? hd)
  rwa [Option.some.inj (hd.symm.trans he), Option.some.inj (hd'.symm.trans he')]

theorem sameNames (h : reg.Repointed reg') : reg.SameNames reg' := by
  refine ⟨fun p => ?_, h.topLevel ▸ .refl _, h.places ▸ .refl _⟩
  by_cases hp : p ∈ reg.places
  · obtain ⟨d, d', hd, hd', hrepointed⟩ := h.repointed p hp
    rw [hd, hd']
    exact .some hrepointed.agree
  · rw [find?_eq_none_of_not_mem hp, find?_eq_none_of_not_mem (h.places ▸ hp)]
    exact .none

theorem resolveStored_inStep (h : reg.Repointed reg') {p : Place} {d d' : Definition} {scope : Scope}
    (hd : reg.find? p = some d) (hd' : reg'.find? p = some d') (hscope : reg.ScopeAt p scope) :
    List.Forall₂ (fun f f' => f.1.name = f'.1.name ∧
      InStep FieldType.Repointed (reg.resolveStored scope f.1 f.2) (reg'.resolveStored scope f'.1 f'.2))
      d.stored d'.stored := by
  refine (h.repointed_of_find? hd hd').stored.imp fun f f' hf => ⟨hf.1, ?_⟩
  exact h.sameNames.resolveStored_repointed (fun name hname => hname.of_scopeAt hscope) hf.1 hf.2

/-- **Dropped pointers.**  Without the pointers of delegates the types of stored fields are the
same. -/
theorem alike (h : reg.Repointed reg') : Alike FieldType.dropIdleConst reg reg' where
  toSameNames := h.sameNames
  keeps _ _ ht := ht
  stored hd hd' hscope := (h.resolveStored_inStep hd hd' hscope).imp fun _ _ hf =>
    ⟨hf.1, hf.2.mono fun _ _ ht => ht.dropIdleConst_fixDelegate⟩

end Repointed

end Registry

end Bindery
