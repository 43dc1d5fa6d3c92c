import Mathlib.Data.List.Perm.Basic
import Mathlib.Data.Option.Basic
import Bindery.FieldType.Resolution
import Bindery.Guid
import Bindery.Model.Building
import Bindery.Proofs.Metadata.Registry
/-!
# Registries with the same names

Two registries have the same names if the same places lead to definitions in both, and these
definitions agree in all but the types of their stored fields (`SameNames`).  The order of the
top-level definitions may differ.  Every way in which a name is looked up finds the same in both.
-/

namespace Bindery

/-- Definitions that agree in all but their stored fields, where they were declared, and what else
is declared in the definitions nested in them. -/
structure Definition.Agree (d d' : Definition) : Prop where
  name : d.name = d'.name
  category : d.category = d'.category
  attributes : d.attributes = d'.attributes
  explicitLayout : d.explicitLayout = d'.explicitLayout
  winrt : d.winrt = d'.winrt
  generics : d.generics = d'.generics
  underlying : d.underlying = d'.underlying
  constants : d.constants = d'.constants
  nested : d.nested.map (·.name) = d'.nested.map (·.name)

theorem Definition.Agree.refl (d : Definition) : d.Agree d :=
  ⟨rfl, rfl, rfl, rfl, rfl, rfl, rfl, rfl, rfl⟩

theorem Definition.Agree.ofDefinition_eq {d d' : Definition} (h : d.Agree d') (p : Place) :
    TypeName.ofDefinition p d = .ofDefinition p d' := by
  rw [TypeName.ofDefinition, TypeName.ofDefinition, h.name, h.category, h.winrt]

theorem Definition.Agree.guid_eq {d d' : Definition} (h : d.Agree d') :
    Guid.ofDefinition d = Guid.ofDefinition d' := by
  rw [Guid.ofDefinition, Guid.ofDefinition, Definition.attribute?, Definition.attribute?,
    h.attributes]

namespace Registry

variable {reg reg' : Registry} {p : Place} {d d' : Definition}

/-! ### The same names -/

/-- Registries in which every place leads to definitions that agree. -/
structure SameNames (reg reg' : Registry) : Prop where
  agree : ∀ p, Option.Rel Definition.Agree (reg.find? p) (reg'.find? p)
  topLevel : reg.topLevel.Perm reg'.topLevel
  places : reg.places.Perm reg'.places

namespace SameNames

theorem exists_find? (h : reg.SameNames reg') (hd : reg.find? p = some d) :
    ∃ d', reg'.find? p = some d' ∧ d.Agree d' := by
  have hp := h.agree p
  rw [hd] at hp
  cases hfound : reg'.find? p with
  | none => simp [hfound] at hp
  | some d' =>
    rw [hfound] at hp
    exact ⟨d', rfl, by simpa using hp⟩

theorem find?_eq_none (h : reg.SameNames reg') : reg.find? p = none ↔ reg'.find? p = none := by
  have hp := h.agree p
  cases hd : reg.find? p <;> cases hd' : reg'.find? p <;> simp [hd, hd'] at hp ⊢

/-- What does not depend on the stored fields is the same for both. -/
theorem map_find? {β : Type} (h : reg.SameNames reg') {f : Definition → β}
    (hf : ∀ d d' : Definition, d.Agree d' → f d = f d') (p : Place) :
    (reg.find? p).map f = (reg'.find? p).map f := by
  cases hd : reg.find? p with
  | none => rw [h.find?_eq_none.1 hd]
  | some d =>
    obtain ⟨d', hd', hagree⟩ := h.exists_find? hd
    rw [hd', Option.map_some, Option.map_some, hf d d' hagree]

theorem lookupName?_eq (h : reg.SameNames reg') (space name : String) :
    reg.lookupName? space name = reg'.lookupName? space name := by
  rw [lookupName?, lookupName?, ← find?_top, ← find?_top]
  exact h.map_find? (fun d d' hagree => hagree.ofDefinition_eq _) _

theorem nestedName?_eq (h : reg.SameNames reg') (p : Place) (name : String) :
    reg.nestedName? p name = reg'.nestedName? p name := by
  rw [nestedName?, nestedName?, ← find?_child, ← find?_child]
  exact h.map_find? (fun d d' hagree => hagree.ofDefinition_eq _) _

theorem isGeneric_eq (h : reg.SameNames reg') (p : Place) (name : String) :
    reg.isGeneric p name = reg'.isGeneric p name := by
  have hgenerics : (reg.enclosing p).map (·.generics) = (reg'.enclosing p).map (·.generics) := by
    rw [enclosing, enclosing, List.map_filterMap, List.map_filterMap]
    exact List.filterMap_congr fun k _ => h.map_find? (fun d d' hagree => hagree.generics) _
  have hany := congrArg (List.any · fun gs => decide (name ∈ gs)) hgenerics
  rwa [List.any_map, List.any_map] at hany

theorem named_perm (h : reg.SameNames reg') (name : String) :
    (reg.named name).Perm (reg'.named name) := by
  have hnamed (r : Registry) : r.named name = (Registry.topLevel r).filter (·.root = name) := by
    rw [named, Registry.topLevel, List.filter_map]
    rfl
  rw [hnamed, hnamed]
  exact h.topLevel.filter _

theorem onlyNamed_inStep (h : reg.SameNames reg') (use : TypeUse) (name : String) :
    InStep Eq (reg.onlyNamed use name) (reg'.onlyNamed use name) := by
  unfold onlyNamed
  have hperm := h.named_perm name
  generalize reg.named name = ps at hperm ⊢
  generalize reg'.named name = ps' at hperm ⊢
  match ps with
  | [] =>
    rw [← hperm.nil_eq]
    exact .error _ _
  | [p] =>
    rw [← List.singleton_perm.1 hperm]
    dsimp only
    cases hd : reg.find? p with
    | none =>
      rw [h.find?_eq_none.1 hd]
      exact .error _ _
    | some d =>
      obtain ⟨d', hd', hagree⟩ := h.exists_find? hd
      rw [hd']
      exact .ok (hagree.ofDefinition_eq p)
  | p :: q :: ps =>
    -- two candidates on one side are two on the other
    match ps' with
    | [] | [p'] => exact absurd hperm.length_eq (by simp)
    | p' :: q' :: ps' => exact .error _ _

end SameNames

end Registry

end Bindery
