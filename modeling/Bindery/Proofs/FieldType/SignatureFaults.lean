import Mathlib.Logic.Relation
import Bindery.Proofs.Guid
import Bindery.Proofs.FieldType.Signature
/-!
# What goes wrong with signatures

A type without a signature is a fault of the metadata.  Two things are not looked for in definitions
(`Definition.Unforeseen`): an identity with a negative component, and an enumeration held in a
primitive type that has no signature.  And nothing is looked for on the way from struct to struct: a
search for the signature of a struct goes on without end if and only if it comes to one that it is
at work on (`structSignature_endless_iff`).
-/

namespace Bindery

open Relation

/-! ### Kinds of error -/

/-- Errors that are reported as faults of the metadata. -/
def Error.Reported (e : Error) : Prop :=
  e.kind = .metadata ∨ e.kind = .anonymousName ∨ e.kind = .cycle

/-- Errors that come from a definition without being looked for. -/
inductive Definition.Unforeseen (d : Definition) : Error → Prop
  /-- The identity is given by eleven whole numbers, of which one is negative. -/
  | negativeComponent {a : Attribute} {ns : List Int} (v : Value)
    (hattribute : d.attribute? Guid.attributeName = some a)
    (hnumbers : a.args.mapM Value.int? = some ns) (hlength : ns.length = 11)
    (hnegative : ∃ n ∈ ns, n < 0) : Unforeseen d (.guidRange v)
  /-- The enumeration is held in a primitive type without a signature. -/
  | underlying (hcategory : d.category = .enum)
    (hprimitive : d.underlyingPrimitive ∈ [.void, .isize, .usize]) :
    Unforeseen d (.noUnderlyingSignature d.underlyingPrimitive)

namespace Registry

variable {reg : Registry} {e : Error} {u : List Place} {n : TypeName} {d : Definition} {s : String}
  {p q : Place}

/-- An error that is reported, or that comes unforeseen from a definition of the registry. -/
def Accounted (reg : Registry) (e : Error) : Prop :=
  e.Reported ∨ ∃ p d, reg.find? p = some d ∧ d.Unforeseen e

theorem Accounted.of_kind (h : e.kind = .metadata) : reg.Accounted e := .inl (.inl h)

theorem Accounted.ne_endlessSignature (h : reg.Accounted e) : e ≠ .endlessSignature := by
  rintro rfl
  rcases h with (h | h | h) | ⟨p, d, -, h⟩ <;> cases h

/-! ### Types that refer to definitions -/

theorem accounted_of_guid (hd : reg.find? p = some d) (h : Guid.ofDefinition d = .error e) :
    reg.Accounted e := by
  unfold Guid.ofDefinition at h
  split at h
  · cases h
  · rename_i a hattribute
    rcases Guid.error_of_ofArgs h with hkind | ⟨⟨v, rfl⟩, ns, hnumbers, hlength, hnegative⟩
    · exact .of_kind hkind
    · exact .inr ⟨p, d, hd, .negativeComponent v hattribute hnumbers hlength hnegative⟩

theorem mem_of_signature?_eq_none {p : Primitive} (h : p.signature? = none) :
    p ∈ [Primitive.void, .isize, .usize] := by
  cases p <;> simp [Primitive.signature?] at h ⊢

theorem accounted_of_signatureOfName (hn : reg.Has n) (hd : reg.find? n.place = some d)
    {shown : String} (h : signatureOfName shown n d = .error e) : reg.Accounted e := by
  obtain ⟨d', hd', hown⟩ := hn
  obtain rfl := Option.some.inj (hd.symm.trans hd')
  have hcategory : n.category = d.category := congrArg TypeName.category hown
  unfold signatureOfName at h
  split at h
  · rename_i henum
    split at h
    · cases h
    · rename_i hnone
      cases h
      exact .inr ⟨n.place, d, hd,
        .underlying (hcategory.symm.trans henum) (mem_of_signature?_eq_none hnone)⟩
  · rcases bind_eq_error.1 h with h | ⟨g, -, h⟩
    · exact accounted_of_guid hd h
    · cases h
  · rcases bind_eq_error.1 h with h | ⟨g, -, h⟩
    · exact accounted_of_guid hd h
    · cases h
  · cases h
    exact .of_kind rfl
  · cases h
    exact .of_kind rfl

/-! ### One field -/

/-- A type has no signature because a struct has none, or for a reason of its own. -/
theorem of_signatureWith_error {struct : TypeName → Except Error String} {t : FieldType}
    (ht : ∀ n, t.base = .named n → reg.Has n) (h : reg.signatureWith struct t = .error e) :
    (∃ n, t.IsPlainStruct n ∧ struct n = .error e) ∨ reg.Accounted e := by
  unfold signatureWith at h
  split at h
  · cases h
    exact .inr (.of_kind rfl)
  · rename_i hshape
    split at h
    · split at h
      · cases h
      · cases h
        exact .inr (.of_kind rfl)
    · cases h
      exact .inr (.of_kind rfl)
    · rename_i n hn
      split at h
      · rename_i hstruct
        exact .inl ⟨n, ⟨hshape, hn, hstruct⟩, h⟩
      · split at h
        · rename_i d hd
          exact .inr (accounted_of_signatureOfName (ht n hn) hd h)
        · cases h
          exact .inr (.of_kind rfl)

theorem of_fragmentWith_error {struct : TypeName → Except Error String} {f : Field × TypeExpr}
    (h : reg.fragmentWith struct p f = .error e) :
    (∃ t n, reg.resolveStored (.of p [] none) f.1 f.2 = .ok t ∧ t.IsPlainStruct n ∧
      struct n = .error e) ∨ reg.Accounted e := by
  rcases bind_eq_error.1 h with h | ⟨t, ht, h⟩
  · exact .inr (.of_kind (kind_of_resolveStored h))
  · rcases of_signatureWith_error (fun n hn => has_of_resolveStored ht hn) h with ⟨n, hn, h⟩ | h
    · exact .inl ⟨t, n, ht, hn, h⟩
    · exact .inr h

/-! ### From struct to struct -/

/-- The signature of the struct at `p` takes that of the struct at `q`: this is the type of a stored
field, itself and not a pointer to it or an array, and all fields before have a signature. -/
def SignatureNeeds (reg : Registry) (p q : Place) : Prop :=
  ∃ d before f after t n, reg.find? p = some d ∧ d.stored = before ++ f :: after ∧
    (∀ g ∈ before, ∃ s, reg.fragmentWith reg.structSignature p g = .ok s) ∧
    reg.resolveStored (.of p [] none) f.1 f.2 = .ok t ∧ t.IsPlainStruct n ∧ n.place = q

/-- The way to the signature of the struct at a place leads into a circle. -/
def EndlessSignature (reg : Registry) (p : Place) : Prop :=
  ∃ q, ReflTransGen reg.SignatureNeeds p q ∧ TransGen reg.SignatureNeeds q q

theorem EndlessSignature.exists_needs (h : reg.EndlessSignature p) :
    ∃ q, reg.SignatureNeeds p q ∧ reg.EndlessSignature q := by
  obtain ⟨q, hpq, hqq⟩ := h
  rcases ReflTransGen.cases_head hpq with rfl | ⟨r, hpr, hrq⟩
  · obtain ⟨r, hpr, hrp⟩ := TransGen.head'_iff.1 hqq
    exact ⟨r, hpr, p, hrp, hqq⟩
  · exact ⟨r, hpr, q, hrq, hqq⟩

/-- The structs that the search is at work on take the signature of the one it has come to. -/
def AtWork (reg : Registry) (u : List Place) (p : Place) : Prop :=
  ∀ q ∈ reg.places, q ∉ u → TransGen reg.SignatureNeeds q p

theorem AtWork.step (h : reg.AtWork u p) (hpq : reg.SignatureNeeds p q) :
    reg.AtWork (u.erase p) q := by
  intro r hr hnot
  by_cases hrp : r = p
  · exact hrp ▸ .single hpq
  · exact (h r hr (mt (List.mem_erase_of_ne hrp).2 hnot)).tail hpq

theorem of_structSignatureWithin_error (hu : u.Subperm reg.places)
    (hd : reg.find? n.place = some d) (hn : n.place ∈ u)
    (h : reg.structSignatureWithin u n = .error e) :
    (∃ m, reg.SignatureNeeds n.place m.place ∧
      reg.structSignatureWithin (u.erase n.place) m = .error e) ∨ reg.Accounted e := by
  rw [structSignatureWithin_of_mem hd hn, map_eq_error, mapM_eq_error] at h
  obtain ⟨before, f, after, hstored, hbefore, h⟩ := h
  refine (of_fragmentWith_error h).imp_left ?_
  rintro ⟨t, m, ht, hm, h⟩
  refine ⟨m, ⟨d, before, f, after, t, m, hd, hstored, fun g hg => ?_, ht, hm, rfl⟩, h⟩
  -- what has a signature on the way, has it in a search of its own
  obtain ⟨s, hs⟩ := hbefore g hg
  refine ⟨s, fragmentWith_imp (Q := fun r s => r = .ok s) (fun m s hs => ?_) (fun _ => rfl) hs⟩
  exact structSignatureWithin_mono ((List.erase_subperm _ _).trans hu) hs

theorem AtWork.of_error (hwork : reg.AtWork u n.place) (hu : u.Subperm reg.places)
    (h : reg.structSignatureWithin u n = .error e) :
    (e = .endlessSignature ∧ reg.EndlessSignature n.place) ∨ reg.Accounted e := by
  -- on how many definitions are left: a struct that is entered is left out
  induction hlen : u.length using Nat.strongRecOn generalizing u n with
  | ind k ih =>
    subst hlen
    cases hd : reg.find? n.place with
    | none =>
      rw [structSignatureWithin, hd] at h
      cases h
      exact .inr (.of_kind rfl)
    | some d =>
      by_cases hn : n.place ∈ u
      · rcases of_structSignatureWithin_error hu hd hn h with ⟨m, hneeds, h⟩ | h
        · have hrest : (u.erase n.place).Subperm reg.places := (List.erase_subperm _ _).trans hu
          rcases ih _ (length_erase_lt hn) (hwork.step hneeds) hrest h rfl with ⟨he, q, hq, hqq⟩ | h
          · exact .inl ⟨he, q, .head hneeds hq, hqq⟩
          · exact .inr h
        · exact .inr h
      · rw [structSignatureWithin_of_not_mem hd hn] at h
        cases h
        exact .inl ⟨rfl, n.place, .refl, hwork n.place (mem_places_of_find? hd) hn⟩

/-- With fewer definitions left, the search finds the same or never ends. -/
theorem structSignatureWithin_of_subperm {u' : List Place} (hu : u'.Subperm u)
    (h : reg.structSignatureWithin u n = .ok s) :
    reg.structSignatureWithin u' n = .ok s ∨
      reg.structSignatureWithin u' n = .error .endlessSignature := by
  -- on how many definitions are left, as above
  induction hlen : u.length using Nat.strongRecOn generalizing u u' n s with
  | ind k ih =>
    subst hlen
    obtain ⟨hn, d, fragments, hd, hfragments, rfl⟩ := structSignatureWithin_eq_ok.1 h
    by_cases hn' : n.place ∈ u'
    · rw [structSignatureWithin_of_mem hd hn']
      have hrest := mapM_eq_ok_or_error (hfragments.imp fun f part hpart =>
        fragmentWith_imp (Q := fun r s => r = .ok s ∨ r = .error .endlessSignature)
          (fun m s hs => ih _ (length_erase_lt hn) (hu.erase n.place) hs rfl)
          (fun _ => .inl rfl) hpart)
      exact hrest.imp (fun hok => map_eq_ok.2 ⟨_, hok, rfl⟩) map_eq_error.2
    · exact .inr (structSignatureWithin_of_not_mem hd hn')

theorem EndlessSignature.structSignatureWithin_eq (h : reg.EndlessSignature n.place)
    (hu : u.Subperm reg.places) : reg.structSignatureWithin u n = .error .endlessSignature := by
  -- on how many definitions are left: there is always a struct to go on with
  induction hlen : u.length using Nat.strongRecOn generalizing u n with
  | ind k ih =>
    subst hlen
    obtain ⟨q, hneeds, hq⟩ := h.exists_needs
    obtain ⟨d, before, f, after, t, m, hd, hstored, hbefore, ht, hm, rfl⟩ := hneeds
    by_cases hn : n.place ∈ u
    · have hrest : (u.erase n.place).Subperm reg.places := (List.erase_subperm _ _).trans hu
      have hfragment : reg.fragmentWith (reg.structSignatureWithin (u.erase n.place)) n.place f =
          .error .endlessSignature :=
        bind_eq_error.2 (.inr ⟨t, ht, by
          rw [signatureWith_of_plain hm, ih _ (length_erase_lt hn) hq hrest rfl]⟩)
      have hsigned (g) (hg : g ∈ before) :
          (∃ s, reg.fragmentWith (reg.structSignatureWithin (u.erase n.place)) n.place g = .ok s) ∨
            reg.fragmentWith (reg.structSignatureWithin (u.erase n.place)) n.place g =
              .error .endlessSignature := by
        obtain ⟨s, hs⟩ := hbefore g hg
        exact (fragmentWith_imp (Q := fun r s => r = .ok s ∨ r = .error .endlessSignature)
          (fun m s hs => structSignatureWithin_of_subperm hrest hs) (fun _ => .inl rfl) hs).imp_left
          fun hs => ⟨s, hs⟩
      rw [structSignatureWithin_of_mem hd hn, map_eq_error, hstored]
      exact mapM_append_eq_error hsigned hfragment
    · exact structSignatureWithin_of_not_mem hd hn

theorem of_structSignature_error (h : reg.structSignature n = .error e) :
    (e = .endlessSignature ∧ reg.EndlessSignature n.place) ∨ reg.Accounted e := by
  have hwork : reg.AtWork reg.places n.place := fun _ hq hnot => absurd hq hnot
  exact hwork.of_error (List.Subperm.refl _) h

/-- **Signatures without end.**  The search for the signature of a struct never ends if and only if
the structs whose signatures it takes, one after the other, lead to one that takes its own. -/
theorem structSignature_endless_iff :
    reg.structSignature n = .error .endlessSignature ↔ reg.EndlessSignature n.place := by
  constructor
  · intro h
    rcases of_structSignature_error h with ⟨-, h⟩ | h
    · exact h
    · exact absurd rfl h.ne_endlessSignature
  · exact fun h => h.structSignatureWithin_eq (List.Subperm.refl _)

end Registry

end Bindery
