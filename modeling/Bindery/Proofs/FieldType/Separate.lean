import Bindery.Proofs.FieldType.Blittable
/-!
# One search for each field

The search for a blittable struct goes through its fields with that struct left out.  Searches of
their own for the fields would not leave it out, and yet they come to the same result, yes or no,
whenever there is one (`WellFormed.isBlittable_eq_ok_iff`).  For take a field that has been come to,
so that the ones before it are blittable.  A search for the struct of this field that has a result
does not enter the struct at hand: there it would come to the same field, and so to what it is looking
at already (`blittableWithin_ne_ok`).  What is never entered can be left out (`blittableWithin_erase`).
-/

namespace Bindery.Registry

variable {reg : Registry} {u v : List Place} {p q : Place} {d : Definition} {b : Bool}

/-- The test of one stored field of the definition at a place, given a test for structs. -/
def testField (reg : Registry) (p : Place) (struct : Place → Except Error Bool)
    (f : Field × TypeExpr) : Except Error Bool := do
  let t ← reg.resolveStored (.of p [] none) f.1 f.2
  t.fixDelegate.blittableWith struct

theorem blittableWithin_of_mem (hd : reg.find? p = some d) (hstruct : d.category = .struct)
    (hp : p ∈ u) : reg.blittableWithin u p =
      d.stored.allM (reg.testField p (reg.blittableWithin (u.erase p))) := by
  rw [blittableWithin_eq hd, if_neg (by simpa using hstruct), if_pos hp]
  rfl

theorem blittableWithin_ne_ok_of_not_mem {f : Field × TypeExpr} {t : FieldType} {n : TypeName}
    (ht : reg.resolveStored (.of p [] none) f.1 f.2 = .ok t) (hn : t.base = .named n)
    (hcategory : n.category = .struct) (hnot : n.place ∉ u) :
    reg.blittableWithin u n.place ≠ .ok b := by
  obtain ⟨e, he, hname⟩ := has_of_resolveStored ht hn
  have hstruct : e.category = .struct := by rw [← hcategory, hname]; rfl
  rw [blittableWithin_eq he, if_neg (by simpa using hstruct), if_neg hnot]
  simp

/-- A search that never enters a struct, whatever is left of the definitions, can do without it. -/
theorem blittableWithin_erase (hnever : ∀ v b, v.Subperm u → reg.blittableWithin v p ≠ .ok b)
    (h : reg.blittableWithin u q = .ok b) : reg.blittableWithin (u.erase p) q = .ok b := by
  -- on how many definitions are left: every struct that is entered is another one
  induction hlen : u.length using Nat.strongRecOn generalizing u q b with
  | ind k ih =>
    subst hlen
    have hqp : q ≠ p := by
      rintro rfl
      exact hnever u b (List.Subperm.refl u) h
    refine blittableWithin_imp (fun hq => ⟨(List.mem_erase_of_ne hqp).2 hq, fun r c hr => ?_⟩) h
    have hrest : ∀ v b, v.Subperm (u.erase q) → reg.blittableWithin v p ≠ .ok b := by
      intro v b hv
      exact hnever v b (hv.trans (List.erase_subperm q u))
    rw [List.erase_comm]
    exact ih _ (length_erase_lt hq) hrest hr rfl

section field

variable {pre post : List (Field × TypeExpr)} {f : Field × TypeExpr} {t : FieldType} {n : TypeName}

/-- When the struct of a field is being looked at, and the fields before it are blittable, the struct
that has the field has no result. -/
theorem blittableWithin_ne_ok (hd : reg.find? p = some d) (hstruct : d.category = .struct)
    (hsplit : d.stored = pre ++ f :: post)
    (hpre : ∀ x ∈ pre, reg.testField p (reg.blittableWithin u) x = .ok true)
    (ht : reg.resolveStored (.of p [] none) f.1 f.2 = .ok t) (hn : t.base = .named n)
    (hcategory : n.category = .struct) (hpointers : ¬ 0 < t.pointers) (hv : v.Subperm u)
    (hnot : n.place ∉ v.erase p) : reg.blittableWithin v p ≠ .ok b := by
  intro h
  by_cases hp : p ∈ v
  · rw [blittableWithin_of_mem hd hstruct hp, hsplit] at h
    rcases of_allM_append h with ⟨x, hx, hfalse⟩ | ⟨c, hc⟩
    · -- with all definitions left, the field before was blittable
      obtain ⟨s, hs, htest⟩ := bind_eq_ok.1 hfalse
      have hagain : s.fixDelegate.blittableWith (reg.blittableWithin u) = .ok false :=
        FieldType.blittableWith_imp (fun n _ _ _ hn =>
          blittableWithin_mono ((List.erase_subperm p v).trans hv) hn) htest
      have htrue : s.fixDelegate.blittableWith (reg.blittableWithin u) = .ok true := by
        have hbefore := hpre x hx
        rw [testField, hs] at hbefore
        exact hbefore
      rw [htrue] at hagain
      cases hagain
    · rw [testField, ht] at hc
      have htest : t.fixDelegate.blittableWith (reg.blittableWithin (v.erase p)) = .ok c := hc
      rw [FieldType.fixDelegate_of_struct hn hcategory, FieldType.blittableWith, if_neg hpointers,
        hn] at htest
      dsimp only at htest
      rw [if_pos hcategory] at htest
      exact blittableWithin_ne_ok_of_not_mem ht hn hcategory hnot htest
  · rw [blittableWithin_eq hd, if_neg (by simpa using hstruct), if_neg hp] at h
    cases h

/-- A field behind blittable ones is found to be what it is found to be with its struct left out. -/
theorem testField_erase (hu : u.Nodup) (hd : reg.find? p = some d) (hstruct : d.category = .struct)
    (hsplit : d.stored = pre ++ f :: post)
    (hpre : ∀ x ∈ pre, reg.testField p (reg.blittableWithin u) x = .ok true)
    (h : reg.testField p (reg.blittableWithin u) f = .ok b) :
    reg.testField p (reg.blittableWithin (u.erase p)) f = .ok b := by
  obtain ⟨t, ht, htest⟩ := bind_eq_ok.1 h
  refine bind_eq_ok.2 ⟨t, ht, FieldType.blittableWith_imp ?_ htest⟩
  intro n hn hcategory hpointers hfound
  rw [FieldType.base_fixDelegate] at hn
  rw [FieldType.fixDelegate_of_struct hn hcategory] at hpointers
  have hnever : ∀ v b, v.Subperm u → n.place ∉ v.erase p → reg.blittableWithin v p ≠ .ok b := by
    intro v b hv hnot
    exact blittableWithin_ne_ok hd hstruct hsplit hpre ht hn hcategory hpointers hv hnot
  have hne : n.place ≠ p := by
    intro heq
    rw [heq] at hfound hnever
    exact hnever u b (List.Subperm.refl u) hu.not_mem_erase hfound
  refine blittableWithin_imp (fun hmem => ⟨(List.mem_erase_of_ne hne).2 hmem, fun r c hr => ?_⟩) hfound
  rw [List.erase_comm]
  refine blittableWithin_erase (fun v b hv => ?_) hr
  have hnot : n.place ∉ v := fun hmem => hu.not_mem_erase (hv.subset hmem)
  exact hnever v b (hv.trans (List.erase_subperm _ u)) fun hmem => hnot (List.mem_of_mem_erase hmem)

end field

/-- **Field by field.**  The search for a struct says what separate searches for its fields, one
after the other, say. -/
theorem WellFormed.isBlittable_eq_ok_iff (hreg : reg.WellFormed) (hd : reg.find? p = some d)
    (hstruct : d.category = .struct) :
    reg.isBlittable p = .ok b ↔ d.stored.allM (reg.testField p reg.isBlittable) = .ok b := by
  have hwithin := blittableWithin_of_mem hd hstruct (mem_places_of_find? hd)
  rw [isBlittable, hwithin]
  constructor
  · refine allM_imp fun pre f post _ _ c hf => ?_
    obtain ⟨t, ht, htest⟩ := bind_eq_ok.1 hf
    refine bind_eq_ok.2 ⟨t, ht, FieldType.blittableWith_imp (fun n _ _ _ hn => ?_) htest⟩
    exact blittableWithin_mono (List.erase_subperm p _) hn
  · refine allM_imp fun pre f post hsplit hpre c hf => ?_
    exact testField_erase hreg.nodup_places hd hstruct hsplit hpre hf

end Bindery.Registry
