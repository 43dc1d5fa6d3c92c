import Mathlib.Data.List.Perm.Subperm
import Bindery.FieldType.Blittable
import Bindery.Proofs.FieldType.Resolution
/-!
# The search for blittable structs

A struct is blittable if all its stored fields are (`blittableWithin_struct`).  The search for it
looks at the structs it holds with fewer definitions left than a search of their own would have;
what it finds is found with more of them as well (`blittableWithin_mono`).
-/

namespace Bindery

/-! ### The test of one type -/

namespace FieldType

/-- Whether a field type is blittable, given a test for the structs it can be of. -/
def blittableWith (struct : Place → Except Error Bool) (t : FieldType) : Except Error Bool :=
  if 0 < t.pointers then .ok true
  else
    match t.base with
    | .named n => if n.category = .struct then struct n.place else .ok t.simpleBlittable
    | _ => .ok t.simpleBlittable

theorem isBlittable_eq (reg : Registry) (t : FieldType) :
    t.isBlittable reg = t.blittableWith reg.isBlittable := rfl

@[simp] theorem isDelegate_own (t : FieldType) : t.own.isDelegate = t.isDelegate := by
  obtain ⟨base, pointers, array, isConst, parameter⟩ := t
  cases base <;> rfl

@[simp] theorem fixDelegate_own (t : FieldType) : t.own.fixDelegate = t.fixDelegate.own := by
  unfold fixDelegate
  rw [isDelegate_own]
  split <;> rfl

@[simp] theorem base_fixDelegate (t : FieldType) : t.fixDelegate.base = t.base := by
  unfold fixDelegate
  split <;> rfl

theorem isDelegate_fixDelegate (t : FieldType) : t.fixDelegate.isDelegate = t.isDelegate := by
  simp [isDelegate, category?, target?]

theorem pointers_fixDelegate {t : FieldType} (h : t.fixDelegate.isDelegate = true) :
    t.fixDelegate.pointers = 0 := by
  rw [isDelegate_fixDelegate] at h
  rw [fixDelegate, if_pos h]
  rfl

@[simp] theorem array_fixDelegate (t : FieldType) : t.fixDelegate.array = t.array := by
  unfold fixDelegate
  split <;> rfl

/-- No pointers are dropped from what they make a type. -/
theorem fixDelegate_not_void {t : FieldType} (h : ¬ (t.base = .primitive .void ∧ t.pointers = 0)) :
    ¬ (t.fixDelegate.base = .primitive .void ∧ t.fixDelegate.pointers = 0) := by
  rintro ⟨hvoid, hpointers⟩
  rw [base_fixDelegate] at hvoid
  have hplain : ¬ t.isDelegate = true := by simp [isDelegate, category?, target?, hvoid]
  rw [fixDelegate, if_neg hplain] at hpointers
  exact h ⟨hvoid, hpointers⟩

theorem fixDelegate_of_struct {t : FieldType} {n : TypeName} (hn : t.base = .named n)
    (hcategory : n.category = .struct) : t.fixDelegate = t := by
  simp [fixDelegate, isDelegate, category?, target?, hn, hcategory]

@[simp] theorem blittableWith_own (struct : Place → Except Error Bool) (t : FieldType) :
    t.own.blittableWith struct = t.blittableWith struct := by
  obtain ⟨base, pointers, array, isConst, parameter⟩ := t
  cases base <;> rfl

theorem blittableWith_imp {struct struct' : Place → Except Error Bool} {t : FieldType} {b : Bool}
    (hstruct : ∀ n, t.base = .named n → n.category = .struct → ¬ 0 < t.pointers →
      struct n.place = .ok b → struct' n.place = .ok b)
    (h : t.blittableWith struct = .ok b) : t.blittableWith struct' = .ok b := by
  unfold blittableWith at h ⊢
  split at h
  · rename_i hpointers
    rw [if_pos hpointers]
    exact h
  · rename_i hpointers
    rw [if_neg hpointers]
    split at h
    · rename_i n hn
      split at h
      · rename_i hcategory
        rw [if_pos hcategory]
        exact hstruct n hn hcategory hpointers h
      · rename_i hcategory
        rw [if_neg hcategory]
        exact h
    · exact h

end FieldType

namespace Registry

variable {reg : Registry} {u u' : List Place} {p : Place} {d : Definition}

theorem pointers_fixDelegate_nonneg {scope : Scope} {f : Field} {type : TypeExpr} {t : FieldType}
    (h : reg.resolveStored scope f type = .ok t) : 0 ≤ t.fixDelegate.pointers := by
  have hnonneg := pointers_nonneg_of_resolveExpr (resolveStored_eq_ok.1 h).1
  unfold FieldType.fixDelegate
  split
  · exact Int.le_refl 0
  · exact hnonneg

/-! ### The test of a struct -/

theorem blittableWithin_eq (hd : reg.find? p = some d) :
    reg.blittableWithin u p =
      if d.category ≠ .struct then .ok d.simpleBlittable
      else if p ∈ u then d.stored.allM fun f => do
        let t ← reg.resolveStored (.of p [] none) f.1 f.2
        t.fixDelegate.blittableWith (reg.blittableWithin (u.erase p))
      else .error (.containsItself p.qualifiedName) := by
  rw [blittableWithin, hd, ← d.allM_stored fun f type => do
    let t ← reg.resolveStored (.of p [] none) f type
    t.fixDelegate.blittableWith (reg.blittableWithin (u.erase p))]
  rfl

/-- A struct is found blittable if it is not being looked at already and all its stored fields
are. -/
theorem blittableWithin_struct (hd : reg.find? p = some d) (hstruct : d.category = .struct) :
    reg.blittableWithin u p = .ok true ↔ p ∈ u ∧ ∀ f ∈ d.fields, ∀ type, f.kind = .stored type →
      ∃ t, reg.resolveStored (.of p [] none) f type = .ok t ∧
        t.fixDelegate.blittableWith (reg.blittableWithin (u.erase p)) = .ok true := by
  rw [blittableWithin_eq hd, if_neg (by simpa using hstruct)]
  by_cases hp : p ∈ u
  · rw [if_pos hp, allM_eq_ok_true]
    simp only [hp, true_and, bind_eq_ok, Prod.forall, Definition.mem_stored]
    exact ⟨fun h f hf type hkind => h f type ⟨hf, hkind⟩, fun h f type hf => h f hf.1 type hf.2⟩
  · simp [hp]

/-- What a search finds, another one finds too if it can enter the struct, and finds what the first
one found for the structs inside. -/
theorem blittableWithin_imp {b : Bool} (henter : p ∈ u → p ∈ u' ∧ ∀ q c,
      reg.blittableWithin (u.erase p) q = .ok c → reg.blittableWithin (u'.erase p) q = .ok c)
    (h : reg.blittableWithin u p = .ok b) : reg.blittableWithin u' p = .ok b := by
  cases hd : reg.find? p with
  | none =>
    rw [blittableWithin, hd] at h
    cases h
  | some d =>
    rw [blittableWithin_eq hd] at h ⊢
    by_cases hstruct : d.category ≠ .struct
    · rw [if_pos hstruct] at h ⊢
      exact h
    · rw [if_neg hstruct] at h ⊢
      by_cases hp : p ∈ u
      · obtain ⟨hp', hinside⟩ := henter hp
        rw [if_pos hp] at h
        rw [if_pos hp']
        refine allM_imp (fun pre f post _ _ c hf => ?_) h
        obtain ⟨t, ht, hf⟩ := bind_eq_ok.1 hf
        refine bind_eq_ok.2 ⟨t, ht, FieldType.blittableWith_imp ?_ hf⟩
        exact fun n _ _ _ hn => hinside n.place c hn
      · rw [if_neg hp] at h
        cases h

/-- **More definitions left.**  What is found of a struct is found with more definitions that have not
been looked at. -/
theorem blittableWithin_mono {b : Bool} (hu : u.Subperm u') (h : reg.blittableWithin u p = .ok b) :
    reg.blittableWithin u' p = .ok b := by
  -- on how many definitions are left: a struct that is entered is left out on both sides
  induction hn : u.length using Nat.strongRecOn generalizing u u' p b with
  | ind n ih =>
    subst hn
    refine blittableWithin_imp (fun hp => ⟨hu.subset hp, fun q c hq => ?_⟩) h
    exact ih _ (length_erase_lt hp) (hu.erase p) hq rfl

end Registry

end Bindery
