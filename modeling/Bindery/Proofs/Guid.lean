import Bindery.Proofs.Guid.Components
/-!
# Identities from attributes

The arguments of an attribute give an identity, or there is something wrong with the metadata: a text
that is none, arguments of the wrong number or kind, a component that is too large.  Only negative
components are not looked for; they show when the components are put together
(`error_of_ofArgs`).
-/

namespace Bindery.Guid

theorem error_of_ofInt {n : Int} {e : Error} (h : ofInt n = .error e) : e = .guidRange (.int n) := by
  unfold ofInt at h
  split at h
  · cases h
  · cases h
    rfl

/-- **Arguments that give no identity** are reported as a fault of the metadata, but for eleven
numbers of which one is negative. -/
theorem error_of_ofArgs {args : List Value} {e : Error} (h : ofArgs args = .error e) :
    e.kind = .metadata ∨ (∃ v, e = .guidRange v) ∧
      ∃ ns, args.mapM Value.int? = some ns ∧ ns.length = 11 ∧ ∃ n ∈ ns, n < 0 := by
  by_cases hnumbers : ∃ ns, args.mapM Value.int? = some ns ∧ ns.length = 11
  · obtain ⟨ns, hns, hlength⟩ := hnumbers
    rcases ofArgs_numbers_cases hns hlength with ⟨hsmall, heq⟩ | ⟨-, heq⟩
    · refine .inr ⟨⟨_, error_of_ofInt (heq.symm.trans h)⟩, ns, hns, hlength, ?_⟩
      by_contra hnegative
      have hnonneg : ∀ n ∈ ns, 0 ≤ n := fun n hn => Int.not_lt.1 fun hlt => hnegative ⟨n, hn, hlt⟩
      obtain ⟨g, hg⟩ := (exists_ofArgs_iff hns hlength).2 ⟨hsmall, hnonneg⟩
      rw [hg] at h
      cases h
    · rw [heq] at h
      cases h
      exact .inl rfl
  · left
    unfold ofArgs at h
    split at h
    · split at h
      · cases h
      · cases h
        rfl
    · split at h
      · rename_i hns
        split at h
        · rename_i height
          exact absurd ⟨_, hns, by simp [height]⟩ hnumbers
        · cases h
          rfl
      · cases h
        rfl

end Bindery.Guid
