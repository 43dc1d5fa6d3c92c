import Mathlib
import Bindery.FieldType.Code
import Bindery.Proofs.FieldType.Repointed
/-!
# Declared types that are resolved

A declared type can be nested in any way.  Those that are resolved are names behind pointers, and
arrays of these (`TypeExpr.flat`), if the name stands for something and is not `void` itself.  The
resolved type keeps the number of pointers and the length, all pointers are constant if one is, and
so they are in code.  A name is never guessed: what it finds at the top level is in the namespace in
question, or is the only definition of that name (`resolve_iff_flat`).
-/

namespace Bindery

/-! ### Shapes -/

namespace TypeExpr

/-- A declared type in which every array has a length. -/
def Measured : TypeExpr → Prop
  | named _ => True
  | pointer _ element => element.Measured
  | array element length => element.Measured ∧ length ≠ .none

/-- A name behind pointers, the outermost first; if there is a length, an array of these. -/
def flat (marks : List Bool) (name : String) : Option Value → TypeExpr
  | none => (named name).behind marks
  | some length => array ((named name).behind marks) length

end TypeExpr

theorem Value.present?_eq_some {v : Value} (h : v ≠ .none) : v.present? = some v := by
  cases v with
  | none => exact absurd rfl h
  | _ => rfl

namespace FieldType

/-- The code of a base type behind pointers that are all constant or all not; if there is a length,
in an array. -/
def codeAround (marks : List Bool) (length : Option Value) (base : String) : String :=
  let pointers := String.join (marks.map fun _ => if true ∈ marks then "*const " else "*mut ")
  match length with
  | none => pointers ++ base
  | some n => "[" ++ (pointers ++ base) ++ "; " ++ n.plain ++ "]"

theorem fieldCode_eq (base : BaseType) (marks : List Bool) (length : Option Value)
    (source : String) :
    (⟨base, marks.length, length, marks.any id, none⟩ : FieldType).fieldCode source =
      codeAround marks length ((ofBase base).baseCode source) := by
  have hmarks : List.replicate marks.length (if marks.any id then "*const " else "*mut ") =
      marks.map fun _ => if true ∈ marks then "*const " else "*mut " := by
    rw [List.map_const']
    simp
  cases length <;> simp only [fieldCode, wrap, codeAround, Int.toNat_natCast, hmarks] <;> rfl

end FieldType

namespace Registry

variable {reg : Registry} {scope : Scope} {use : TypeUse} {e : TypeExpr} {t : FieldType}

theorem resolveExpr_flat {marks : List Bool} {name : String} {length : Option Value}
    {base : BaseType} (hmeasured : (TypeExpr.flat marks name length).Measured)
    (h : reg.resolveName scope use name = .ok base) :
    reg.resolveExpr scope use (.flat marks name length) =
      .ok ⟨base, marks.length, length, marks.any id, none⟩ := by
  cases length with
  | none => exact resolveExpr_behind h marks
  | some length =>
    rw [TypeExpr.flat, resolveExpr, resolveExpr_behind h marks,
      Value.present?_eq_some hmeasured.2]
    rfl

theorem exists_flat_of_resolveExpr (hmeasured : e.Measured)
    (h : reg.resolveExpr scope use e = .ok t) :
    ∃ marks name, e = .flat marks name t.array ∧ ∃ base, reg.resolveName scope use name = .ok base := by
  induction e generalizing t with
  | named name =>
    obtain ⟨base, hbase, rfl⟩ := resolveExpr_named_eq_ok.1 h
    exact ⟨[], name, rfl, base, hbase⟩
  | pointer isConst element ih =>
    obtain ⟨u, hu, hplain, rfl⟩ := resolveExpr_pointer_eq_ok.1 h
    obtain ⟨marks, name, rfl, hname⟩ := ih hmeasured hu
    rw [hplain]
    exact ⟨isConst :: marks, name, rfl, hname⟩
  | array element length ih =>
    obtain ⟨u, hu, hplain, rfl⟩ := resolveExpr_array_eq_ok.1 h
    obtain ⟨marks, name, rfl, hname⟩ := ih hmeasured.1 hu
    rw [hplain, Value.present?_eq_some hmeasured.2]
    exact ⟨marks, name, rfl, hname⟩

/-- A declared type resolves exactly if it is of the supported shape and its name resolves. -/
theorem resolveExpr_eq_ok_iff (hmeasured : e.Measured) :
    reg.resolveExpr scope use e = .ok t ↔
      ∃ marks name length base, e = .flat marks name length ∧
        reg.resolveName scope use name = .ok base ∧
        t = ⟨base, marks.length, length, marks.any id, none⟩ := by
  constructor
  · intro h
    obtain ⟨marks, name, rfl, base, hbase⟩ := exists_flat_of_resolveExpr hmeasured h
    exact ⟨marks, name, t.array, base, rfl, hbase,
      Except.ok.inj (h.symm.trans (resolveExpr_flat hmeasured hbase))⟩
  · rintro ⟨marks, name, length, base, rfl, hbase, rfl⟩
    exact resolveExpr_flat hmeasured hbase

theorem resolveStored_eq_ok_iff {f : Field} (hmeasured : e.Measured) :
    reg.resolveStored scope f e = .ok t ↔
      ∃ marks name length base, e = .flat marks name length ∧
        reg.resolveName scope (useOf scope.owner f) name = .ok base ∧
        ¬ (base = .primitive .void ∧ marks = []) ∧
        t = ⟨base, marks.length, length, marks.any id, none⟩ := by
  have hvoid (base : BaseType) (marks : List Bool) :
      (base = .primitive .void ∧ (marks.length : Int) = 0) ↔
        (base = .primitive .void ∧ marks = []) := by
    rw [Int.natCast_eq_zero, List.length_eq_zero_iff]
  rw [resolveStored_eq_ok, resolveExpr_eq_ok_iff hmeasured]
  constructor
  · rintro ⟨⟨marks, name, length, base, he, hbase, rfl⟩, hplain⟩
    exact ⟨marks, name, length, base, he, hbase, mt (hvoid base marks).2 hplain, rfl⟩
  · rintro ⟨marks, name, length, base, he, hbase, hplain, rfl⟩
    exact ⟨⟨marks, name, length, base, he, hbase, rfl⟩, mt (hvoid base marks).1 hplain⟩

/-! ### Names without dots -/

/-- A name without dots that finds a top-level definition finds that of the namespace that is looked
at, or else the only one of the name. -/
theorem top_of_resolveName (hscope : ∀ k ∈ scope.nested, k.2.place.isNested = true) {name : String}
    (hname : '.' ∉ name.toList) {n : TypeName} (h : reg.resolveName scope use name = .ok (.named n))
    (htop : n.place.isNested = false) :
    reg.Has n ∧ (n.place = ⟨scope.space, name, []⟩ ∨
      reg.lookup? scope.space name = none ∧ reg.named name = [n.place]) := by
  cases standsFor_of_resolveName h with
  | qualified hdot => exact absurd hdot hname
  | inCode hn =>
    -- the names in code are those of nested definitions
    obtain ⟨before, behind, hsplit, -⟩ := List.lookup_eq_some_iff.1 hn
    have hnested := hscope (name, n) (by simp [hsplit])
    rw [htop] at hnested
    cases hnested
  | nested _ hn =>
    obtain ⟨d, -, rfl⟩ := Option.map_eq_some_iff.1 hn
    simp [TypeName.ofDefinition, Place.child, Place.isNested] at htop
  | near hn =>
    obtain ⟨d, -, hplace⟩ := Option.map_eq_some_iff.1 hn
    exact ⟨(has_of_lookupName? hn).1, .inl (by rw [← hplace]; rfl)⟩
  | only hnear honly =>
    exact ⟨(has_of_onlyNamed honly).1,
      .inr ⟨Option.map_eq_none_iff.1 hnear, (named_of_onlyNamed honly).1⟩⟩

/-! ### The main result -/

/-- **Supported shapes.**  A stored field resolves exactly if its type is a name behind pointers or
an array of such, the name resolves, and it is not `void` by value; what does not resolve is a fault
of the metadata.  All pointers are constant if one is, also in code.  A name without dots that finds
a top-level definition finds one in the namespace that is looked at, or the only one of its name. -/
theorem resolve_iff_flat (reg : Registry) (scope : Scope) (f : Field) (e : TypeExpr)
    (hkind : f.kind = .stored e) (hmeasured : e.Measured) :
    (∀ t, reg.resolve scope f = .ok t ↔
      ∃ marks name length base, e = .flat marks name length ∧
        reg.resolveName scope (useOf scope.owner f) name = .ok base ∧
        ¬ (base = .primitive .void ∧ marks = []) ∧
        t = ⟨base, marks.length, length, marks.any id, none⟩) ∧
    (∀ error, reg.resolve scope f = .error error → error.kind = .metadata) ∧
    (∀ base marks length source,
      (⟨base, marks.length, length, marks.any id, none⟩ : FieldType).fieldCode source =
        FieldType.codeAround marks length ((FieldType.ofBase base).baseCode source)) ∧
    ((∀ k ∈ scope.nested, k.2.place.isNested = true) →
      ∀ name n, '.' ∉ name.toList →
        reg.resolveName scope (useOf scope.owner f) name = .ok (.named n) →
        n.place.isNested = false →
        reg.Has n ∧ (n.place = ⟨scope.space, name, []⟩ ∨
          reg.lookup? scope.space name = none ∧ reg.named name = [n.place])) := by
  have hresolve : reg.resolve scope f = reg.resolveStored scope f e := by rw [resolve, hkind]
  rw [hresolve]
  exact ⟨fun t => resolveStored_eq_ok_iff hmeasured, fun error => kind_of_resolveStored,
    FieldType.fieldCode_eq, fun hscope name n hname h htop =>
      top_of_resolveName hscope hname h htop⟩

end Registry

/-! ### A sample -/

namespace SupportedSample

open Sample (entry)

/-- The type of a field: three pointers to pointers to something of another namespace. -/
def type : TypeExpr := .flat [true, false] "T" (some (.int 3))

def registry : Registry :=
  ⟨[entry "A" false [("f", type)], { entry "T" false [("x", .named "u8")] with space := "M" }]⟩

def target : TypeName := ⟨⟨"M", "T", []⟩, .struct, false, "M", "T"⟩

def scope : Scope := .of ⟨"N", "A", []⟩ [] none

/-- The field is resolved to an array of constant pointers to the only definition of the name. -/
theorem resolve_sample :
    registry.resolve scope ⟨"f", .stored type, some 1⟩ =
      .ok ⟨.named target, 2, some (.int 3), true, none⟩ ∧
    (⟨.named target, 2, some (.int 3), true, none⟩ : FieldType).fieldCode "N" =
      "[*const *const super::m::T; 3]" ∧
    registry.lookup? "N" "T" = none ∧ registry.named "T" = [target.place] := by
  have hname : registry.resolveName scope (.field "f" "N.A") "T" = .ok (.named target) := by cbv
  obtain ⟨hresolve, -, hcode, hunique⟩ := registry.resolve_iff_flat scope ⟨"f", .stored type, some 1⟩
    type rfl ⟨trivial, by decide⟩
  obtain ⟨-, hplace | hfound⟩ := hunique (by simp [scope, Scope.of]) "T" target (by decide) hname rfl
  · exact absurd hplace (by decide)
  · refine ⟨(hresolve _).2 ⟨[true, false], "T", some (.int 3), .named target, rfl, hname,
      by simp, rfl⟩, ?_, hfound⟩
    exact (hcode (.named target) [true, false] (some (.int 3)) "N").trans (by cbv)

end SupportedSample

end Bindery
