import Bindery.Proofs.Model.Alike
import Bindery.Proofs.Model.FieldNames
/-!
# The passes in any order

Making names distinct has nothing to do with types, dropping the pointers of delegates nothing with
names, and padding asks only whether there are fields.  So any two passes can change places
(`apply_comm`), and the order of all three does not matter.  What comes out is settled: no pass has
anything to do on it (`run_of_perm`).
-/

namespace Bindery.FieldList

open Code (MarkedOnce bare)

variable {guid : Guid} {fields : FieldList} {p q : Pass} {passes : List Pass}

/-! ### Two passes -/

theorem unique_fixDelegates (fields : FieldList) :
    unique (fixDelegates fields) = fixDelegates (unique fields) :=
  (mapTypes_uniqueAfter (f := FieldType.fixDelegate) [] fields).symm

theorem not_isDelegate_u8 : (FieldType.ofPrimitive .u8).isDelegate = false := rfl

theorem unique_pad (guid : Guid) (fields : FieldList) :
    unique (pad guid fields) = pad guid (unique fields) := by
  cases fields with
  | nil => cases hguid : guid.isAbsent <;> simp [pad, hguid, unique, uniqueAfter, freshName]
  | cons f fields => rfl

theorem fixDelegates_pad (guid : Guid) (fields : FieldList) :
    fixDelegates (pad guid fields) = pad guid (fixDelegates fields) := by
  cases fields with
  | nil => cases hguid : guid.isAbsent <;> simp [pad, hguid, fixDelegates, not_isDelegate_u8]
  | cons f fields => rfl

theorem apply_comm (hp : p ∈ standardPasses guid) (hq : q ∈ standardPasses guid)
    (fields : FieldList) : p.apply (q.apply fields) = q.apply (p.apply fields) := by
  simp only [standardPasses, List.mem_cons, List.not_mem_nil, or_false] at hp hq
  rcases hp with rfl | rfl | rfl
  · rcases hq with rfl | rfl | rfl
    · rfl
    · exact unique_fixDelegates fields
    · exact unique_pad guid fields
  · rcases hq with rfl | rfl | rfl
    · exact (unique_fixDelegates fields).symm
    · rfl
    · exact fixDelegates_pad guid fields
  · rcases hq with rfl | rfl | rfl
    · exact (unique_pad guid fields).symm
    · exact (fixDelegates_pad guid fields).symm
    · rfl

theorem run_eq_of_perm (h : passes.Perm (standardPasses guid)) (fields : FieldList) :
    run passes fields = run (standardPasses guid) fields :=
  h.foldl_eq' (fun _ hp _ hq fields => apply_comm (h.subset hq) (h.subset hp) fields) fields

/-! ### Lists in final form -/

/-- A list on which no pass has anything to do. -/
structure Settled (guid : Guid) (fields : FieldList) : Prop where
  /-- No two fields stand for the same word. -/
  distinct : (words fields).Nodup
  /-- No delegate has pointers. -/
  delegates : ∀ f ∈ fields, f.2.isDelegate → f.2.pointers = 0
  /-- There are fields, or there is an identity. -/
  padded : fields = [] → guid.isAbsent = false

namespace Settled

theorem apply_eq (h : Settled guid fields) (hp : p ∈ standardPasses guid) :
    p.apply fields = fields := by
  simp only [standardPasses, List.mem_cons, List.not_mem_nil, or_false] at hp
  rcases hp with rfl | rfl | rfl
  · exact (unique_renamed fields).2.2 h.distinct
  · refine (List.map_congr_left fun f hf => ?_).trans (List.map_id fields)
    dsimp only
    split
    · rename_i hdelegate
      rw [FieldType.withPointers, ← h.delegates f hf hdelegate]
      rfl
    · rfl
  · cases fields with
    | nil => simp [Pass.apply, pad, h.padded rfl]
    | cons f fields => rfl

theorem run_eq (h : Settled guid fields) (hpasses : ∀ p ∈ passes, p ∈ standardPasses guid) :
    run passes fields = fields := by
  induction passes with
  | nil => rfl
  | cons p passes ih =>
    rw [List.forall_mem_cons] at hpasses
    rw [run, List.foldl_cons, h.apply_eq hpasses.1]
    exact ih hpasses.2

end Settled

theorem settled_run (guid : Guid) (h : ∀ f ∈ fields, MarkedOnce f.1) :
    Settled guid (run (standardPasses guid) fields) := by
  rw [run_standardPasses]
  split
  · split
    · rename_i habsent
      exact ⟨by simp [words], by simp [not_isDelegate_u8], nofun⟩
    · rename_i hidentity
      exact ⟨List.nodup_nil, List.forall_mem_nil _, fun _ => by simpa using hidentity⟩
  · rename_i hne
    refine ⟨?_, fun f hf => ?_, fun hnil => ?_⟩
    · obtain ⟨-, hnodup⟩ := @distinct_uniqueAfter [] fields h
      rw [bare_eq_word] at hnodup
      rwa [words, List.map_map]
    · obtain ⟨g, -, rfl⟩ := List.mem_map.1 hf
      exact FieldType.pointers_fixDelegate
    · cases fields with
      | nil => exact absurd rfl hne
      | cons f fields => simp [unique, uniqueAfter] at hnil

/-- **The order of the passes.**  The three passes give the same in every order, and run again, in
whatever order, they leave it as it is. -/
theorem run_of_perm (guid : Guid) (h : ∀ f ∈ fields, MarkedOnce f.1)
    (hpasses : passes.Perm (standardPasses guid)) :
    run passes fields = run (standardPasses guid) fields ∧
      ∀ again : List Pass, again.Perm (standardPasses guid) →
        run again (run passes fields) = run passes fields := by
  have hrun := run_eq_of_perm hpasses fields
  refine ⟨hrun, fun again hagain => ?_⟩
  rw [hrun]
  exact (settled_run guid h).run_eq hagain.subset

/-! ### A sample -/

/-- Two fields for the same word, one of them raw, and one for the word that the second will get; the
first two are delegates with recorded pointers. -/
def recorded : FieldList :=
  [("r#type", ⟨.named ⟨⟨"N", "D", []⟩, .delegate, false, "N", "D"⟩, 1, none, false, none⟩),
    ("type", ⟨.named ⟨⟨"N", "D", []⟩, .delegate, false, "N", "D"⟩, 2, none, true, none⟩),
    ("type2", .ofPrimitive .u8)]

/-- The passes for a struct without an identity, from the last to the first. -/
def backwards : List Pass := [.pad .absent, .fixDelegates, .unique]

example : (run backwards recorded).map (fun f => (f.1, f.2.pointers)) =
    [("r#type", 0), ("type2", 0), ("type22", 0)] := by cbv

theorem run_recorded : (∀ f ∈ recorded, MarkedOnce f.1) ∧
    backwards.Perm (standardPasses .absent) ∧
    run backwards recorded = run (standardPasses .absent) recorded ∧
    run (standardPasses .absent) (run backwards recorded) = run backwards recorded := by
  have hmarked : ∀ f ∈ recorded, MarkedOnce f.1 := by simp [recorded, MarkedOnce]
  have hperm : backwards.Perm (standardPasses .absent) := by decide
  obtain ⟨hsame, hagain⟩ := run_of_perm .absent hmarked hperm
  exact ⟨hmarked, hperm, hsame, hagain _ (List.Perm.refl _)⟩

end Bindery.FieldList
