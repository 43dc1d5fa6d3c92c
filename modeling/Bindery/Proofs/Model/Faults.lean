import Bindery.Command.Conversion
import Bindery.Proofs.FieldType.SignatureFaults
import Bindery.Proofs.Model.Building
/-!
# What goes wrong while models are built

Whatever a registry holds, an error that stops the building or the ordering of models is reported as
a fault of the metadata, or it comes from one of three things that are not looked for
(`reported_or_unforeseen_of_orderedModels`): an identity with a negative component, an enumeration
held in a primitive type that has no signature, and a WinRT struct whose signature never ends.
-/

namespace Bindery

namespace Registry

variable {reg : Registry} {e : Error}

/-- Errors that come from a registry without being looked for. -/
inductive Unforeseen (reg : Registry) : Error → Prop
  | definition {p : Place} {d : Definition} {e : Error} (found : reg.find? p = some d)
    (unforeseen : d.Unforeseen e) : Unforeseen reg e
  /-- The signature of a WinRT definition is worked out without end. -/
  | endless {p : Place} {d : Definition} (found : reg.find? p = some d) (winrt : d.winrt = true)
    (endless : reg.EndlessSignature p) : Unforeseen reg .endlessSignature

theorem Accounted.reported_or_unforeseen (h : reg.Accounted e) : e.Reported ∨ reg.Unforeseen e := by
  refine h.imp_right ?_
  rintro ⟨p, d, hd, hunforeseen⟩
  exact .definition hd hunforeseen

theorem reported_or_unforeseen_of_signatureFor {name : TypeName} {d : Definition}
    (hd : reg.find? name.place = some d) (hwinrt : name.winrt = d.winrt)
    (h : reg.signatureFor name = .error e) : e.Reported ∨ reg.Unforeseen e := by
  unfold signatureFor at h
  split at h
  · rename_i hname
    rcases of_structSignature_error (map_eq_error.1 h) with ⟨rfl, hendless⟩ | h
    · exact .inr (.endless hd (hwinrt.symm.trans hname) hendless)
    · exact h.reported_or_unforeseen
  · cases h

/-! ### Building and ordering -/

theorem reported_of_checkNested {outer d : Definition} {p : Place}
    (h : checkNested outer p d = .error e) : e.Reported := by
  unfold checkNested at h
  split at h
  · cases h
    exact .inl rfl
  · split at h
    · cases h
      exact .inr (.inl rfl)
    · cases h

theorem WellFormed.reported_or_unforeseen_of_build (hreg : reg.WellFormed) {name : TypeName}
    (hwinrt : ∀ d, reg.find? name.place = some d → name.winrt = d.winrt)
    (h : (reg.build name).result = .error e) : e.Reported ∨ reg.Unforeseen e := by
  cases hd : reg.find? name.place with
  | none =>
    rw [build, hd] at h
    cases h
    exact .inl (.inl rfl)
  | some d =>
    -- on how the definitions are nested
    have hdistinct := hreg.distinct_of_find? hd
    induction hdistinct generalizing name with
    | @intro d _ _ ih =>
      rw [hreg.result_build hd] at h
      split at h
      · rcases bind_eq_error.1 h with h | ⟨signature, -, h⟩
        · exact reported_or_unforeseen_of_signatureFor hd (hwinrt d hd) h
        rcases bind_eq_error.1 h with h | ⟨children, -, h⟩
        · obtain ⟨⟨n, k⟩, hn, h⟩ := exists_of_mapM_error h
          have hmem := List.fst_mem_of_mem_zipIdx hn
          rcases bind_eq_error.1 h with h | ⟨_, -, h⟩
          · exact .inl (reported_of_checkNested h)
          · have hinner := hreg.find?_nested hd hmem
            refine ih n hmem (fun d' hd' => ?_) h hinner
            rw [Option.some.inj (hd'.symm.trans hinner)]
            rfl
        rcases bind_eq_error.1 h with h | ⟨stored, -, h⟩
        · obtain ⟨f, -, h⟩ := exists_of_mapM_error h
          exact .inl (.inl (kind_of_resolveStored (map_eq_error.1 h)))
        rcases bind_eq_error.1 h with h | ⟨guid, -, h⟩
        · exact (accounted_of_guid hd h).reported_or_unforeseen
        · cases h
      · cases h
        exact .inl (.inl rfl)

theorem kind_of_visit {items : List Item} {free : List Place} {path : List String} {i : Item}
    {s : Emitted} (h : visit items free path i s = .error e) : e.kind = .cycle := by
  -- on how many definitions are not being looked at
  induction hlen : free.length using Nat.strongRecOn generalizing free path i s with
  | ind k ih =>
    subst hlen
    rw [visit] at h
    split at h
    · cases h
    · dsimp only at h
      split at h
      · rename_i hfree
        rcases bind_eq_error.1 h with h | ⟨t, -, h⟩
        · obtain ⟨j, -, t, h⟩ := exists_of_foldlM_error h
          exact ih _ (length_without_lt hfree) h rfl
        · cases h
      · cases h
        rfl

theorem kind_of_sortModels {models : List Model} (h : sortModels models = .error e) :
    e.kind = .cycle := by
  unfold sortModels sortItems at h
  rcases bind_eq_error.1 h with h | ⟨s, -, h⟩
  · obtain ⟨i, -, s, h⟩ := exists_of_foldlM_error h
    exact kind_of_visit h
  · cases h

/-- **What stops building and ordering** under names that tell whether their definitions are WinRT is
reported, or comes unforeseen from the registry. -/
theorem WellFormed.reported_or_unforeseen_of_orderedModels (hreg : reg.WellFormed)
    {names : List TypeName}
    (hwinrt : ∀ n ∈ names, ∀ d, reg.find? n.place = some d → n.winrt = d.winrt)
    (h : (Command.Conversion.orderedModels reg names).result = .error e) :
    e.Reported ∨ reg.Unforeseen e := by
  unfold Command.Conversion.orderedModels at h
  simp only [Traced.result_bind, Traced.result_lift, Traced.result_mapM] at h
  rcases bind_eq_error.1 h with h | ⟨models, -, h⟩
  · obtain ⟨name, hname, h⟩ := exists_of_mapM_error h
    exact hreg.reported_or_unforeseen_of_build (hwinrt name hname) h
  · exact .inl (.inr (.inr (kind_of_sortModels h)))

end Registry

end Bindery
