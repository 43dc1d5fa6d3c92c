import Bindery.FieldType.Resolution
import Bindery.Proofs.Metadata.Registry
/-!
# What names stand for

A name that stands for a definition leads to a place where the registry has it
(`has_of_resolveStored`).  The names in code of nested definitions do not change where a name
leads: in a scope that has them (`Faithful`), a type resolves as it does in the plain scope of its
definition, up to these names (`resolveStored_own`).
-/

namespace Bindery

/-! ### Stored fields -/

/-- The stored fields of a definition with their declared types. -/
def Definition.stored (d : Definition) : List (Field × TypeExpr) :=
  d.fields.filterMap fun f =>
    match f.kind with
    | .stored type => some (f, type)
    | .literal _ => none

theorem Definition.mem_stored {d : Definition} {f : Field} {type : TypeExpr} :
    (f, type) ∈ d.stored ↔ f ∈ d.fields ∧ f.kind = .stored type := by
  unfold stored
  rw [List.mem_filterMap]
  constructor
  · rintro ⟨g, hg, h⟩
    split at h
    · cases h
      exact ⟨hg, by assumption⟩
    · cases h
  · rintro ⟨hf, hkind⟩
    exact ⟨f, hf, by rw [hkind]⟩

theorem Definition.filterMapM_stored {α : Type} (d : Definition)
    (g : Field → TypeExpr → Except Error α) :
    (d.fields.filterMapM fun f =>
      match f.kind with
      | .literal _ => .ok none
      | .stored type => some <$> g f type) = d.stored.mapM fun f => g f.1 f.2 := by
  unfold stored
  induction d.fields with
  | nil => rfl
  | cons f fields ih =>
    rw [List.filterMapM_cons, List.filterMap_cons]
    cases f.kind with
    | literal _ => exact ih
    | stored type =>
      dsimp only
      rw [List.mapM_cons, ← ih]
      cases g f type <;> rfl

theorem Definition.allM_stored (d : Definition) (g : Field → TypeExpr → Except Error Bool) :
    (d.fields.allM fun f =>
      match f.kind with
      | .literal _ => .ok true
      | .stored type => g f type) = d.stored.allM fun f => g f.1 f.2 := by
  unfold stored
  induction d.fields with
  | nil => rfl
  | cons f fields ih =>
    rw [List.allM, List.filterMap_cons]
    cases f.kind with
    | literal _ => exact ih
    | stored type =>
      dsimp only
      rw [List.allM, ← ih]

/-! ### Own names -/

/-- The definition under its own name, in its own namespace. -/
def TypeName.own (n : TypeName) : TypeName :=
  { n with space := n.place.space, name := n.place.name }

def BaseType.own : BaseType → BaseType
  | .named n => .named n.own
  | base => base

def FieldType.own (t : FieldType) : FieldType := { t with base := t.base.own }

@[simp] theorem BaseType.own_named (n : TypeName) : (BaseType.named n).own = .named n.own := rfl

@[simp] theorem BaseType.own_eq_primitive {base : BaseType} {p : Primitive} :
    base.own = .primitive p ↔ base = .primitive p := by
  cases base <;> simp [own]

theorem BaseType.own_eq_named {base : BaseType} {n : TypeName} :
    base.own = .named n ↔ ∃ n', base = .named n' ∧ n'.own = n := by
  cases base <;> simp [own]

@[simp] theorem FieldType.own_base (t : FieldType) : t.own.base = t.base.own := rfl

@[simp] theorem FieldType.own_pointers (t : FieldType) : t.own.pointers = t.pointers := rfl

namespace Registry

variable {reg : Registry}

theorem own_ofDefinition {p : Place} {d : Definition} (h : reg.find? p = some d) :
    (TypeName.ofDefinition p d).own = .ofDefinition p d := by
  simp [TypeName.own, TypeName.ofDefinition, name_of_find? h]

/-! ### Where a name leads -/

def Has (reg : Registry) (n : TypeName) : Prop :=
  ∃ d, reg.find? n.place = some d ∧ n = .ofDefinition n.place d

theorem has_ofDefinition {p : Place} {d : Definition} (h : reg.find? p = some d) :
    reg.Has (.ofDefinition p d) :=
  ⟨d, h, rfl⟩

theorem Has.own {n : TypeName} (h : reg.Has n) : n.own = n := by
  obtain ⟨d, hd, hn⟩ := h
  rw [hn]
  exact own_ofDefinition hd

theorem Has.space_eq {n : TypeName} (h : reg.Has n) : n.space = n.place.space := by
  obtain ⟨d, -, hn⟩ := h
  exact congrArg TypeName.space hn

theorem has_of_lookupName? {space name : String} {n : TypeName}
    (h : reg.lookupName? space name = some n) : reg.Has n ∧ n.place.isNested = false := by
  obtain ⟨d, hd, rfl⟩ := Option.map_eq_some_iff.1 h
  exact ⟨has_ofDefinition (by rwa [find?_top]), rfl⟩

theorem has_of_nestedName? {p : Place} {name : String} {n : TypeName}
    (h : reg.nestedName? p name = some n) : reg.Has n := by
  obtain ⟨d, hd, rfl⟩ := Option.map_eq_some_iff.1 h
  exact has_ofDefinition (by rwa [find?_child])

theorem named_of_onlyNamed {use : TypeUse} {name : String} {n : TypeName}
    (h : reg.onlyNamed use name = .ok n) : reg.named name = [n.place] ∧ reg.Has n := by
  unfold onlyNamed at h
  split at h
  · cases h
  · split at h
    · cases h
      exact ⟨by assumption, has_ofDefinition (by assumption)⟩
    · cases h
  · cases h

theorem has_of_onlyNamed {use : TypeUse} {name : String} {n : TypeName}
    (h : reg.onlyNamed use name = .ok n) : reg.Has n ∧ n.place.isNested = false := by
  obtain ⟨hnamed, hhas⟩ := named_of_onlyNamed h
  have hmem : n.place ∈ reg.named name := by simp [hnamed]
  obtain ⟨e, -, heq⟩ := List.mem_map.1 hmem
  exact ⟨hhas, by rw [← heq]; rfl⟩

end Registry

/-! ### Scopes with names in code -/

/-- A scope in which the nested definitions of its owner, and no others, have names in code. -/
structure Scope.Faithful (reg : Registry) (scope : Scope) : Prop where
  /-- The namespace looked at is that of the owner. -/
  space : scope.space = scope.owner.space
  /-- A name in code is one of the nested definition. -/
  nested : ∀ name, (scope.nested.lookup name).map TypeName.own = reg.nestedName? scope.owner name

namespace Registry

variable {reg : Registry} {scope : Scope}

/-- A name stands for the same in a scope with names in code as in the plain scope, up to these. -/
theorem resolveName_own (h : scope.Faithful reg) (use : TypeUse) (name : String) :
    reg.resolveName (.of scope.owner [] none) use name =
      (reg.resolveName scope use name).map BaseType.own := by
  unfold resolveName
  split
  · rfl
  · split
    · split
      · rename_i hn
        simp [Except.map, (has_of_lookupName? hn).1.own]
      · rfl
    · simp only [Scope.of, h.space, List.lookup_nil, Option.none_or, ← h.nested]
      split
      · rfl
      · cases hlookup : scope.nested.lookup name with
        | some n => simp [Except.map]
        | none =>
          simp only [Option.map_none, Option.none_or]
          split
          · rename_i hn
            simp [Except.map, (has_of_lookupName? hn).1.own]
          · cases honly : reg.onlyNamed use name with
            | error e => rfl
            | ok n => simp [Except.map, (has_of_onlyNamed honly).1.own]

/-- The type around one that is found for its elements, which cannot be arrays. -/
def around (e : Error) (g : FieldType → FieldType) (t : FieldType) : Except Error FieldType := do
  if t.array.isSome then throw e
  return g t

theorem resolveExpr_pointer (scope : Scope) (use : TypeUse) (isConst : Bool) (element : TypeExpr) :
    reg.resolveExpr scope use (.pointer isConst element) =
      reg.resolveExpr scope use element >>= around (.pointerToArray use) fun t =>
        { t with pointers := t.pointers + 1, isConst := t.isConst || isConst } := by
  rw [resolveExpr]
  rfl

theorem resolveExpr_array (scope : Scope) (use : TypeUse) (element : TypeExpr) (length : Value) :
    reg.resolveExpr scope use (.array element length) =
      reg.resolveExpr scope use element >>= around (.nestedArray use) fun t =>
        { t with array := length.present? } := by
  rw [resolveExpr]
  rfl

theorem around_eq_ok {e : Error} {g : FieldType → FieldType} {t u : FieldType} :
    around e g t = .ok u ↔ t.array = none ∧ u = g t := by
  unfold around
  cases t.array with
  | none => simp [pure, Except.pure, eq_comm]
  | some n => exact iff_of_false (by rintro ⟨⟩) (by rintro ⟨⟨⟩, -⟩)

theorem bind_around_own {e : Error} {g : FieldType → FieldType}
    (hg : ∀ t : FieldType, g t.own = (g t).own) (r : Except Error FieldType) :
    r.map FieldType.own >>= around e g = (r >>= around e g).map FieldType.own := by
  cases r with
  | error e => rfl
  | ok t =>
    show around e g t.own = (around e g t).map FieldType.own
    unfold around
    rw [show t.own.array = t.array from rfl]
    split
    · rfl
    · exact congrArg Except.ok (hg t)

theorem resolveExpr_own (h : scope.Faithful reg) (use : TypeUse) (type : TypeExpr) :
    reg.resolveExpr (.of scope.owner [] none) use type =
      (reg.resolveExpr scope use type).map FieldType.own := by
  induction type with
  | named name =>
    rw [resolveExpr, resolveExpr, resolveName_own h]
    cases reg.resolveName scope use name <;> rfl
  | pointer isConst element ih =>
    rw [resolveExpr_pointer, resolveExpr_pointer, ih, bind_around_own]
    exact fun _ => rfl
  | array element length ih =>
    rw [resolveExpr_array, resolveExpr_array, ih, bind_around_own]
    exact fun _ => rfl

/-- **Names in code do not matter.**  A stored field has the same type in both scopes, or in both
the same error. -/
theorem resolveStored_own (h : scope.Faithful reg) (f : Field) (type : TypeExpr) :
    reg.resolveStored (.of scope.owner [] none) f type =
      (reg.resolveStored scope f type).map FieldType.own := by
  unfold resolveStored
  dsimp only
  rw [show (Scope.of scope.owner [] none).owner = scope.owner from rfl, resolveExpr_own h]
  cases reg.resolveExpr scope (useOf scope.owner f) type with
  | error e => rfl
  | ok t =>
    have hown : (t.own.base = .primitive .void ∧ t.own.pointers = 0) ↔
        (t.base = .primitive .void ∧ t.pointers = 0) := by simp
    simp only [Except.map, bind, Except.bind]
    by_cases hvoid : t.base = .primitive .void ∧ t.pointers = 0
    · rw [if_pos (hown.2 hvoid), if_pos hvoid]
      rfl
    · rw [if_neg (mt hown.1 hvoid), if_neg hvoid]
      rfl

/-! ### Resolved types -/

theorem mem_of_splitLast? {name : String} {parts : String × String}
    (h : splitLast? name = some parts) : '.' ∈ name.toList := by
  by_contra hdot
  rw [show splitLast? name = none from if_neg hdot] at h
  cases h

/-- What a name can stand for, in the order in which it is looked for. -/
inductive StandsFor (reg : Registry) (scope : Scope) (use : TypeUse) (name : String) : BaseType → Prop
  | primitive {p : Primitive} (h : Primitive.ofName? name = some p) :
    StandsFor reg scope use name (.primitive p)
  | qualified {space last : String} {n : TypeName} (hdot : '.' ∈ name.toList)
    (h : reg.lookupName? space last = some n) : StandsFor reg scope use name (.named n)
  | generic (h : reg.isGeneric scope.owner name = true) : StandsFor reg scope use name (.generic name)
  | inCode {n : TypeName} (h : scope.nested.lookup name = some n) :
    StandsFor reg scope use name (.named n)
  | nested {n : TypeName} (hcode : scope.nested.lookup name = none)
    (h : reg.nestedName? scope.owner name = some n) : StandsFor reg scope use name (.named n)
  | near {n : TypeName} (h : reg.lookupName? scope.space name = some n) :
    StandsFor reg scope use name (.named n)
  | only {n : TypeName} (hnear : reg.lookupName? scope.space name = none)
    (h : reg.onlyNamed use name = .ok n) : StandsFor reg scope use name (.named n)

theorem standsFor_of_resolveName {use : TypeUse} {name : String} {base : BaseType}
    (h : reg.resolveName scope use name = .ok base) : reg.StandsFor scope use name base := by
  unfold resolveName at h
  split at h
  · cases h
    exact .primitive (by assumption)
  · split at h
    · rename_i hsplit
      split at h
      · cases h
        exact .qualified (mem_of_splitLast? hsplit) (by assumption)
      · cases h
    · split at h
      · cases h
        exact .generic (by assumption)
      · split at h
        · rename_i hn
          cases h
          simp only [Option.or_eq_some_iff] at hn
          rcases hn with hn | ⟨hcode, hn | ⟨-, hn⟩⟩
          · exact .inCode hn
          · exact .nested hcode hn
          · exact .near hn
        · rename_i hnone
          simp only [Option.or_eq_none_iff] at hnone
          obtain ⟨n, honly, rfl⟩ := map_eq_ok.1 h
          exact .only hnone.2.2 honly

/-- A name that stands for a definition has a name in code, or leads to one that the registry has. -/
theorem lookup_or_has_of_resolveName {use : TypeUse} {name : String} {n : TypeName}
    (h : reg.resolveName scope use name = .ok (.named n)) :
    scope.nested.lookup name = some n ∨ reg.Has n := by
  cases standsFor_of_resolveName h with
  | inCode hn => exact .inl hn
  | nested _ hn => exact .inr (has_of_nestedName? hn)
  | qualified _ hn | near hn => exact .inr (has_of_lookupName? hn).1
  | only _ honly => exact .inr (has_of_onlyNamed honly).1

theorem has_of_resolveName {p : Place} {use : TypeUse} {name : String} {n : TypeName}
    (h : reg.resolveName (.of p [] none) use name = .ok (.named n)) : reg.Has n :=
  (lookup_or_has_of_resolveName h).resolve_left (by simp [Scope.of])

/-- A name that stands for a nested definition has a name in code, or is one of a definition nested
in the owner of the scope. -/
theorem nested_of_resolveName {use : TypeUse} {name : String} {n : TypeName}
    (h : reg.resolveName scope use name = .ok (.named n)) (hnested : n.place.isNested = true) :
    scope.nested.lookup name = some n ∨
      (scope.nested.lookup name = none ∧ reg.nestedName? scope.owner name = some n) := by
  cases standsFor_of_resolveName h with
  | inCode hn => exact .inl hn
  | nested hcode hn => exact .inr ⟨hcode, hn⟩
  | qualified _ hn | near hn =>
    rw [(has_of_lookupName? hn).2] at hnested
    cases hnested
  | only _ honly =>
    rw [(has_of_onlyNamed honly).2] at hnested
    cases hnested

section Declared

variable {use : TypeUse} {name : String} {type element : TypeExpr} {t : FieldType}

theorem resolveExpr_named_eq_ok : reg.resolveExpr scope use (.named name) = .ok t ↔
    ∃ base, reg.resolveName scope use name = .ok base ∧ t = .ofBase base := by
  refine map_eq_ok.trans ?_
  exact exists_congr fun _ => and_congr_right fun _ => eq_comm

theorem resolveExpr_pointer_eq_ok {isConst : Bool} :
    reg.resolveExpr scope use (.pointer isConst element) = .ok t ↔
      ∃ u, reg.resolveExpr scope use element = .ok u ∧ u.array = none ∧
        t = { u with pointers := u.pointers + 1, isConst := u.isConst || isConst } := by
  rw [resolveExpr_pointer, bind_eq_ok]
  exact exists_congr fun u => and_congr_right fun _ => around_eq_ok

theorem resolveExpr_array_eq_ok {length : Value} :
    reg.resolveExpr scope use (.array element length) = .ok t ↔
      ∃ u, reg.resolveExpr scope use element = .ok u ∧ u.array = none ∧
        t = { u with array := length.present? } := by
  rw [resolveExpr_array, bind_eq_ok]
  exact exists_congr fun u => and_congr_right fun _ => around_eq_ok

theorem resolveStored_eq_ok {f : Field} : reg.resolveStored scope f type = .ok t ↔
    reg.resolveExpr scope (useOf scope.owner f) type = .ok t ∧
      ¬ (t.base = .primitive .void ∧ t.pointers = 0) := by
  unfold resolveStored
  dsimp only
  rw [bind_eq_ok]
  constructor
  · rintro ⟨u, hu, h⟩
    split at h
    · cases h
    · cases h
      exact ⟨hu, by assumption⟩
  · rintro ⟨ht, hvoid⟩
    exact ⟨t, ht, if_neg hvoid⟩

/-- What is true of the base types of names, and does not depend on pointers and arrays, is true of
all resolved types. -/
theorem base_of_resolveExpr (h : reg.resolveExpr scope use type = .ok t) :
    ∃ name, reg.resolveName scope use name = .ok t.base := by
  induction type generalizing t with
  | named name =>
    obtain ⟨base, hbase, rfl⟩ := resolveExpr_named_eq_ok.1 h
    exact ⟨name, hbase⟩
  | pointer isConst element ih =>
    obtain ⟨u, hu, -, rfl⟩ := resolveExpr_pointer_eq_ok.1 h
    exact ih (t := u) hu
  | array element length ih =>
    obtain ⟨u, hu, -, rfl⟩ := resolveExpr_array_eq_ok.1 h
    exact ih (t := u) hu

theorem pointers_nonneg_of_resolveExpr (h : reg.resolveExpr scope use type = .ok t) :
    0 ≤ t.pointers := by
  induction type generalizing t with
  | named name =>
    obtain ⟨base, -, rfl⟩ := resolveExpr_named_eq_ok.1 h
    exact Int.le_refl 0
  | pointer isConst element ih =>
    obtain ⟨u, hu, -, rfl⟩ := resolveExpr_pointer_eq_ok.1 h
    exact Int.add_nonneg (ih hu) (by decide)
  | array element length ih =>
    obtain ⟨u, hu, -, rfl⟩ := resolveExpr_array_eq_ok.1 h
    exact ih (t := u) hu

end Declared

/-- **Resolved references.**  A field that refers to a definition refers to one that is found. -/
theorem has_of_resolveStored {p : Place} {f : Field} {type : TypeExpr} {t : FieldType}
    {n : TypeName} (h : reg.resolveStored (.of p [] none) f type = .ok t)
    (hn : t.base = .named n) : reg.Has n := by
  obtain ⟨name, hname⟩ := base_of_resolveExpr (resolveStored_eq_ok.1 h).1
  rw [hn] at hname
  exact has_of_resolveName hname

/-! ### Types that are not resolved -/

theorem kind_of_onlyNamed {use : TypeUse} {name : String} {e : Error}
    (h : reg.onlyNamed use name = .error e) : e.kind = .metadata := by
  unfold onlyNamed at h
  split at h
  · cases h
    rfl
  · split at h
    · cases h
    · cases h
      rfl
  · cases h
    rfl

theorem kind_of_resolveName {use : TypeUse} {name : String} {e : Error}
    (h : reg.resolveName scope use name = .error e) : e.kind = .metadata := by
  unfold resolveName at h
  split at h
  · cases h
  · split at h
    · split at h
      · cases h
      · cases h
        rfl
    · split at h
      · cases h
      · split at h
        · cases h
        · exact kind_of_onlyNamed (map_eq_error.1 h)

theorem kind_of_resolveExpr {use : TypeUse} {type : TypeExpr} {e : Error}
    (h : reg.resolveExpr scope use type = .error e) : e.kind = .metadata := by
  induction type with
  | named name =>
    rw [resolveExpr] at h
    exact kind_of_resolveName (map_eq_error.1 h)
  | pointer isConst element ih | array element length ih =>
    rw [resolveExpr, bind_eq_error] at h
    rcases h with h | ⟨t, -, h⟩
    · exact ih h
    · split at h
      · cases h
        rfl
      · cases h

/-- A field whose type is not found is a fault of the metadata. -/
theorem kind_of_resolveStored {f : Field} {type : TypeExpr} {e : Error}
    (h : reg.resolveStored scope f type = .error e) : e.kind = .metadata := by
  unfold resolveStored at h
  rw [bind_eq_error] at h
  rcases h with h | ⟨t, -, h⟩
  · exact kind_of_resolveExpr h
  · split at h
    · cases h
      rfl
    · cases h

/-! ### Fields by value -/

/-- A stored field of the definition at a place has a struct or union by value, as its type or as the
type of the elements of its array. -/
def HoldsByValue (reg : Registry) (p : Place) (n : TypeName) : Prop :=
  ∃ d f type t, reg.find? p = some d ∧ f ∈ d.fields ∧ f.kind = .stored type ∧
    reg.resolveStored (.of p [] none) f type = .ok t ∧
    t.base = .named n ∧ n.category = .struct ∧ t.pointers = 0

/-- The definition at a place holds the struct or union at another by value. -/
def Holds (reg : Registry) (p q : Place) : Prop := ∃ n, reg.HoldsByValue p n ∧ n.place = q

end Registry

end Bindery
