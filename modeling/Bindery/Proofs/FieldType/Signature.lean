import Mathlib.Data.List.Perm.Subperm
import Bindery.FieldType.Signature
import Bindery.Proofs.FieldType.Resolution
/-!
# What the signature of a struct is made of

The signature of a struct is its name in code before the fragments of its stored fields
(`structSignatureWithin_of_mem`).  The fragments come from the definition alone, so they are the same
under every name in code.  The search for a struct looks at the structs it holds with fewer
definitions left than a search of their own would have; a signature that it finds stays the same with
more of them (`structSignatureWithin_mono`).
-/

namespace Bindery

namespace Registry

/-! ### The text of a signature -/

/-- The signature of a struct of a name in code with the fragments of its fields. -/
def structText (name : String) (fragments : List String) : String :=
  "struct(" ++ name ++ ";" ++ ";".intercalate fragments ++ ")"

theorem structText_inj {name name' : String} {fragments : List String} :
    structText name fragments = structText name' fragments ↔ name = name' := by
  simp [structText, String.append_assoc]

end Registry

/-! ### One field -/

/-- A type is a struct itself, not behind a pointer and not in an array. -/
def FieldType.IsPlainStruct (t : FieldType) (n : TypeName) : Prop :=
  ¬ (0 < t.pointers ∨ t.array.isSome) ∧ t.base = .named n ∧ n.category = .struct

namespace Registry

variable {reg : Registry} {u u' : List Place} {n : TypeName} {d : Definition} {s : String}
  {struct struct' : TypeName → Except Error String} {t : FieldType} {p : Place}
  {f : Field × TypeExpr}

theorem plain_of_signatureWith (h : reg.signatureWith struct t = .ok s) :
    ¬ (0 < t.pointers ∨ t.array.isSome) := by
  intro hshape
  rw [signatureWith, if_pos hshape] at h
  cases h

theorem signatureWith_of_plain (h : t.IsPlainStruct n) : reg.signatureWith struct t = struct n := by
  obtain ⟨hshape, hn, hstruct⟩ := h
  rw [signatureWith, if_neg hshape, hn]
  exact if_pos hstruct

theorem signatureWith_of_struct (h : reg.signatureWith struct t = .ok s) (hn : t.base = .named n)
    (hstruct : n.category = .struct) : struct n = .ok s := by
  rwa [signatureWith_of_plain ⟨plain_of_signatureWith h, hn, hstruct⟩] at h

/-- A type is a struct itself, or the signatures of structs do not matter. -/
theorem signatureWith_cases (reg : Registry) (t : FieldType) : (∃ n, t.IsPlainStruct n) ∨
    ∀ struct struct', reg.signatureWith struct t = reg.signatureWith struct' t := by
  by_cases hshape : 0 < t.pointers ∨ t.array.isSome
  · right
    intro struct struct'
    rw [signatureWith, signatureWith, if_pos hshape, if_pos hshape]
  · cases hbase : t.base with
    | primitive p =>
      right
      intro struct struct'
      simp only [signatureWith, hbase]
    | generic name =>
      right
      intro struct struct'
      simp only [signatureWith, hbase]
    | named n =>
      by_cases hstruct : n.category = .struct
      · exact .inl ⟨n, hshape, hbase, hstruct⟩
      · right
        intro struct struct'
        simp only [signatureWith, hbase, if_neg hstruct]

/-- The fragment of a stored field of the definition at `p`, given the signatures of structs. -/
def fragmentWith (reg : Registry) (struct : TypeName → Except Error String) (p : Place)
    (f : Field × TypeExpr) : Except Error String := do
  let t ← reg.resolveStored (.of p [] none) f.1 f.2
  reg.signatureWith struct t

theorem fragmentWith_imp {Q : Except Error String → String → Prop}
    (hstruct : ∀ n s, struct n = .ok s → Q (struct' n) s) (hok : ∀ s, Q (.ok s) s)
    (h : reg.fragmentWith struct p f = .ok s) : Q (reg.fragmentWith struct' p f) s := by
  obtain ⟨t, ht, h⟩ := bind_eq_ok.1 h
  have hfragment : reg.fragmentWith struct' p f = reg.signatureWith struct' t := by
    rw [fragmentWith, ht]
    rfl
  rw [hfragment]
  rcases reg.signatureWith_cases t with ⟨n, hn⟩ | hsame
  · rw [signatureWith_of_plain hn] at h ⊢
    exact hstruct n s h
  · rw [hsame struct' struct, h]
    exact hok s

/-! ### The signature of a struct -/

theorem structSignatureWithin_of_mem (hd : reg.find? n.place = some d) (hn : n.place ∈ u) :
    reg.structSignatureWithin u n = (structText n.qualifiedName) <$>
      d.stored.mapM (reg.fragmentWith (reg.structSignatureWithin (u.erase n.place)) n.place) := by
  have hfields := d.filterMapM_stored fun f type =>
    reg.fragmentWith (reg.structSignatureWithin (u.erase n.place)) n.place (f, type)
  simp only [fragmentWith, map_bind] at hfields
  rw [show d.stored.mapM (reg.fragmentWith (reg.structSignatureWithin (u.erase n.place)) n.place) = _
    from hfields.symm]
  rw [structSignatureWithin, hd]
  dsimp only
  rw [dif_pos hn]
  rfl

theorem structSignatureWithin_of_not_mem (hd : reg.find? n.place = some d) (hn : n.place ∉ u) :
    reg.structSignatureWithin u n = .error .endlessSignature := by
  rw [structSignatureWithin, hd]
  exact dif_neg hn

/-- A struct has a signature if it is not being looked at already and all its stored fields have
one. -/
theorem structSignatureWithin_eq_ok : reg.structSignatureWithin u n = .ok s ↔
    n.place ∈ u ∧ ∃ d fragments, reg.find? n.place = some d ∧
      List.Forall₂ (fun f part =>
        reg.fragmentWith (reg.structSignatureWithin (u.erase n.place)) n.place f = .ok part)
        d.stored fragments ∧
      s = structText n.qualifiedName fragments := by
  cases hd : reg.find? n.place with
  | none => simp [structSignatureWithin, hd]
  | some d =>
    by_cases hn : n.place ∈ u
    · simp only [structSignatureWithin_of_mem hd hn, map_eq_ok, mapM_eq_ok, Option.some.injEq]
      constructor
      · rintro ⟨fragments, hfragments, rfl⟩
        exact ⟨hn, d, fragments, rfl, hfragments, rfl⟩
      · rintro ⟨-, _, fragments, rfl, hfragments, rfl⟩
        exact ⟨fragments, hfragments, rfl⟩
    · simp [structSignatureWithin_of_not_mem hd hn, hn]

/-- **More definitions left.**  The signature that is found stays the same with more definitions that
have not been looked at. -/
theorem structSignatureWithin_mono (hu : u.Subperm u') (h : reg.structSignatureWithin u n = .ok s) :
    reg.structSignatureWithin u' n = .ok s := by
  -- on how many definitions are left: a struct that is entered is left out on both sides
  induction hlen : u.length using Nat.strongRecOn generalizing u u' n s with
  | ind k ih =>
    subst hlen
    rw [structSignatureWithin_eq_ok] at h ⊢
    obtain ⟨hn, d, fragments, hd, hfragments, hs⟩ := h
    refine ⟨hu.subset hn, d, fragments, hd, hfragments.imp fun f part hpart => ?_, hs⟩
    refine fragmentWith_imp (Q := fun r s => r = .ok s) (fun n' s' h' => ?_) (fun _ => rfl) hpart
    exact ih _ (length_erase_lt hn) (hu.erase n.place) h' rfl

/-- **The signature of a struct** is its name in code with the signatures of its stored fields, each
of these computed on its own. -/
theorem fragments_of_structSignature (h : reg.structSignature n = .ok s) :
    ∃ d fragments, reg.find? n.place = some d ∧
      List.Forall₂ (fun f part => ∃ t, reg.resolveStored (.of n.place [] none) f.1 f.2 = .ok t ∧
        t.signature reg = .ok part) d.stored fragments ∧
      s = structText n.qualifiedName fragments := by
  obtain ⟨-, d, fragments, hd, hfragments, hs⟩ := structSignatureWithin_eq_ok.1 h
  refine ⟨d, fragments, hd, hfragments.imp fun f part hpart => bind_eq_ok.1 ?_, hs⟩
  refine fragmentWith_imp (Q := fun r s => r = .ok s) (fun n' s' h' => ?_) (fun _ => rfl) hpart
  exact structSignatureWithin_mono (List.erase_subperm _ _) h'

/-- Under another name in code a struct has the same fragments. -/
theorem structSignature_rename {n' : TypeName} (hplace : n'.place = n.place)
    (h : reg.structSignature n = .ok s) : ∃ fragments,
      s = structText n.qualifiedName fragments ∧
      reg.structSignature n' = .ok (structText n'.qualifiedName fragments) := by
  obtain ⟨hn, d, fragments, hd, hfragments, hs⟩ := structSignatureWithin_eq_ok.1 h
  refine ⟨fragments, hs, structSignatureWithin_eq_ok.2 ⟨?_, d, fragments, ?_, ?_, rfl⟩⟩
  · rwa [hplace]
  · rwa [hplace]
  · rwa [hplace]

end Registry

end Bindery
