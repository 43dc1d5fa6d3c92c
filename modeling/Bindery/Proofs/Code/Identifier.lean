import Mathlib.Data.List.Nodup
import Bindery.Code.Path
/-!
# Identifiers

Snake case adds nothing but underscores and small letters, so a mark that is in no name is in no
identifier.  What is fitted to the rules of the generated code can stand as an identifier
(`isIdentifier_identifier`): it is no reserved word, and raw only where it has to be.  A word that
cannot be raw shares its identifier with the name that has an underscore more
(`bare_identifier_eq_iff`).
-/

namespace Bindery

/-! ### Characters of identifiers -/

namespace Text

theorem eq_of_toLower {x c : Char} (h : x.toLower = c) (hc : c.isLower = false) : x = c := by
  unfold Char.toLower at h
  split at h
  · rename_i hupper
    have hlower : c.isLower = true := by
      subst h
      unfold Char.isLower
      simp only [ge_iff_le, Bool.and_eq_true, decide_eq_true_eq, UInt32.le_iff_toNat_le,
        UInt32.toNat_add] at hupper ⊢
      have hfirst : 'A'.val.toNat = 65 := rfl
      have hlast : 'Z'.val.toNat = 90 := rfl
      have hsmall : 'a'.val.toNat = 97 := rfl
      have hend : 'z'.val.toNat = 122 := rfl
      have hshift : ('a'.val - 'A'.val).toNat = 32 := rfl
      omega
    rw [hlower] at hc
    cases hc
  · exact h

theorem mem_snakeFrom {c : Char} {before : Option Char} {cs : List Char}
    (h : c ∈ snakeFrom before cs) : c = '_' ∨ ∃ x ∈ cs, x.toLower = c := by
  induction cs generalizing before with
  | nil => simp [snakeFrom] at h
  | cons x cs ih =>
    have hrest (h : c ∈ x.toLower :: snakeFrom (some x) cs) :
        c = '_' ∨ ∃ y ∈ x :: cs, y.toLower = c := by
      rcases List.mem_cons.1 h with rfl | h
      · exact .inr ⟨x, List.mem_cons_self, rfl⟩
      · exact (ih h).imp_right fun ⟨y, hy, hyc⟩ => ⟨y, List.mem_cons_of_mem _ hy, hyc⟩
    rw [snakeFrom] at h
    split at h
    · rcases List.mem_cons.1 h with rfl | h
      · exact .inl rfl
      · exact hrest h
    · exact hrest h

theorem not_mem_snakeCase {c : Char} {name : String} (hc : c.isLower = false) (hmark : c ≠ '_')
    (h : c ∉ name.toList) : c ∉ (snakeCase name).toList := by
  rw [snakeCase, String.toList_ofList]
  intro hmem
  rcases mem_snakeFrom hmem with rfl | ⟨x, hx, hxc⟩
  · exact hmark rfl
  · exact h (eq_of_toLower hxc hc ▸ hx)

end Text

namespace Code

/-! ### Raw and reserved words -/

theorem not_mem_reservedWord {w : String} (h : w ∈ reservedWords) : '#' ∉ w.toList := by
  revert w
  decide

theorem underscore_not_reserved {w : String} (h : w ∈ neverRaw) : w ++ "_" ∉ reservedWords := by
  revert w
  decide

/-- A name that can stand as it is, and in the form of a raw identifier only if it is a reserved word
that can be raw. -/
def IsIdentifier (x : String) : Prop :=
  (∃ w ∈ reservedWords, w ∉ neverRaw ∧ x = "r#" ++ w) ∨ (x ∉ reservedWords ∧ '#' ∉ x.toList)

theorem bare_raw (w : String) : bare ("r#" ++ w) = w := by
  rw [bare, String.toList_append]
  simp

theorem bare_of_not_mem {x : String} (h : '#' ∉ x.toList) : bare x = x := by
  unfold bare
  split
  · rename_i rest heq
    rw [heq] at h
    simp at h
  · rfl

theorem bare_eq_self_iff {x : String} : bare x = x ↔ ¬ "r#".toList <+: x.toList := by
  unfold bare
  split
  · rename_i rest heq
    have hshorter : String.ofList rest ≠ x := by
      rintro rfl
      have hlength := congrArg List.length heq
      rw [String.toList_ofList, List.length_cons, List.length_cons] at hlength
      omega
    simp [heq, hshorter]
  · rename_i hother
    refine iff_of_true rfl ?_
    rintro ⟨rest, heq⟩
    exact hother rest heq.symm

/-- A name with the mark of a raw identifier at most once. -/
def MarkedOnce (name : String) : Prop := ¬ "r#r#".toList <+: name.toList

theorem MarkedOnce.bare_bare {name : String} (h : MarkedOnce name) :
    bare (bare name) = bare name := by
  rw [bare_eq_self_iff]
  unfold bare
  split
  · rename_i rest heq
    rintro ⟨more, hmore⟩
    rw [String.toList_ofList (l := rest)] at hmore
    exact h ⟨more, by rw [heq, ← hmore]; rfl⟩
  · rename_i hother
    rintro ⟨rest, heq⟩
    exact hother rest heq.symm

theorem IsIdentifier.not_mem_bare {x : String} (h : IsIdentifier x) : '#' ∉ (bare x).toList := by
  rcases h with ⟨w, hw, -, rfl⟩ | ⟨-, hx⟩
  · rw [bare_raw]
    exact not_mem_reservedWord hw
  · rwa [bare_of_not_mem hx]

theorem IsIdentifier.markedOnce {x : String} (h : IsIdentifier x) : MarkedOnce x := by
  rintro ⟨rest, heq⟩
  have hraw : x.toList = 'r' :: '#' :: 'r' :: '#' :: rest := heq.symm
  refine h.not_mem_bare ?_
  rw [bare, hraw]
  simp

theorem isIdentifier_identifier {name : String} (h : '#' ∉ name.toList) :
    IsIdentifier (identifier name) := by
  unfold identifier
  split
  · rename_i hraw
    exact .inr ⟨underscore_not_reserved hraw, by simpa using h⟩
  · rename_i hraw
    split
    · rename_i hreserved
      exact .inl ⟨name, hreserved, hraw, rfl⟩
    · rename_i hfree
      exact .inr ⟨hfree, h⟩

theorem isIdentifier_memberIdentifier {name : String} (h : '#' ∉ name.toList) :
    IsIdentifier (memberIdentifier name) :=
  isIdentifier_identifier (Text.not_mem_snakeCase rfl (by decide) h)

theorem identifier_not_mem_reservedWords (name : String) : identifier name ∉ reservedWords := by
  unfold identifier
  split
  · rename_i hraw
    exact underscore_not_reserved hraw
  · split
    · intro hmem
      exact not_mem_reservedWord hmem (by simp)
    · assumption

/-! ### Names for one identifier -/

theorem reserved_of_neverRaw {w : String} (h : w ∈ neverRaw) : w ∈ reservedWords := by
  revert w
  decide

theorem identifier_of_not_reserved {name : String} (h : name ∉ reservedWords) :
    identifier name = name := by
  rw [identifier, if_neg fun hraw => h (reserved_of_neverRaw hraw), if_neg h]

theorem bare_identifier {name : String} (h : '#' ∉ name.toList) :
    bare (identifier name) = if name ∈ neverRaw then name ++ "_" else name := by
  unfold identifier
  split
  · exact bare_of_not_mem (by simpa using h)
  · split
    · exact bare_raw name
    · exact bare_of_not_mem h

/-- A name is what another one becomes because it cannot be raw. -/
def Shadows (x w : String) : Prop := w ∈ neverRaw ∧ x = w ++ "_"

/-- Two names stand for one word if they are the same, or one is what the other one becomes. -/
theorem bare_identifier_eq_iff {x y : String} (hx : '#' ∉ x.toList) (hy : '#' ∉ y.toList) :
    bare (identifier x) = bare (identifier y) ↔ x = y ∨ Shadows x y ∨ Shadows y x := by
  have hfree {w z : String} (hw : w ∈ neverRaw) (hz : z ∈ neverRaw) : z ≠ w ++ "_" := by
    rintro rfl
    exact underscore_not_reserved hw (reserved_of_neverRaw hz)
  rw [bare_identifier hx, bare_identifier hy]
  unfold Shadows
  by_cases hxraw : x ∈ neverRaw <;> by_cases hyraw : y ∈ neverRaw
  · simp [hxraw, hyraw, hfree hxraw hyraw, hfree hyraw hxraw]
  · have hne : x ≠ y := fun heq => hyraw (heq ▸ hxraw)
    simp [hxraw, hyraw, hne, eq_comm]
  · have hne : x ≠ y := fun heq => hxraw (heq ▸ hyraw)
    simp [hxraw, hyraw, hne]
  · simp [hxraw, hyraw]

theorem identifier_eq_iff {x y : String} (hx : '#' ∉ x.toList) (hy : '#' ∉ y.toList) :
    identifier x = identifier y ↔ bare (identifier x) = bare (identifier y) := by
  have hshadows {x w : String} (h : Shadows x w) : identifier x = identifier w := by
    obtain ⟨hw, rfl⟩ := h
    rw [identifier_of_not_reserved (underscore_not_reserved hw), identifier, if_pos hw]
  refine ⟨congrArg bare, fun h => ?_⟩
  rcases (bare_identifier_eq_iff hx hy).1 h with rfl | h | h
  · rfl
  · exact hshadows h
  · exact (hshadows h).symm

/-- **Different names.**  They stand for different words unless one of them is what another one
becomes. -/
theorem nodup_bare_identifiers_iff {names : List String} (hmark : ∀ x ∈ names, '#' ∉ x.toList)
    (hnames : names.Nodup) :
    (names.map fun x => bare (identifier x)).Nodup ↔
      ∀ w ∈ neverRaw, w ∈ names → w ++ "_" ∉ names := by
  rw [List.nodup_map_iff_inj_on hnames]
  constructor
  · intro hinj w hw hmem hmem'
    have hword := (bare_identifier_eq_iff (hmark _ hmem') (hmark _ hmem)).2 (.inr (.inl ⟨hw, rfl⟩))
    have heq := congrArg String.length (hinj _ hmem' _ hmem hword)
    rw [String.length_append] at heq
    exact absurd heq (Nat.succ_ne_self _)
  · intro hclear x hx y hy h
    rcases (bare_identifier_eq_iff (hmark x hx) (hmark y hy)).1 h with heq | ⟨hraw, rfl⟩ | ⟨hraw, rfl⟩
    · exact heq
    · exact absurd hx (hclear y hraw hy)
    · exact absurd hy (hclear x hraw hx)

theorem nodup_identifiers_iff {names : List String} (hmark : ∀ x ∈ names, '#' ∉ x.toList)
    (hnames : names.Nodup) :
    (names.map identifier).Nodup ↔ (names.map fun x => bare (identifier x)).Nodup := by
  rw [List.nodup_map_iff_inj_on hnames, List.nodup_map_iff_inj_on hnames]
  refine forall₂_congr fun x hx => forall₂_congr fun y hy => ?_
  rw [identifier_eq_iff (hmark x hx) (hmark y hy)]

/-! ### Characters of modules -/

theorem not_mem_memberIdentifier {c : Char} {name : String} (hc : c.isLower = false)
    (hmarks : c ∉ ['_', '#']) (h : c ∉ name.toList) : c ∉ (memberIdentifier name).toList := by
  have hunderscore : c ≠ '_' := fun heq => hmarks (by simp [heq])
  have hsnake := Text.not_mem_snakeCase hc hunderscore h
  have hr : c ≠ 'r' := by
    rintro rfl
    simp at hc
  rw [memberIdentifier, identifier]
  split
  · simpa [hunderscore] using hsnake
  · split
    · simp only [List.mem_cons, List.not_mem_nil, or_false, not_or] at hmarks
      simpa [hr, hmarks.2] using hsnake
    · exact hsnake

theorem mem_intercalate {α : Type} {sep l : List α} {ls : List (List α)} {a : α} (hl : l ∈ ls)
    (ha : a ∈ l) : a ∈ sep.intercalate ls := by
  induction ls with
  | nil => cases hl
  | cons k ls ih =>
    by_cases hls : ls = []
    · subst hls
      rw [List.mem_singleton] at hl
      rwa [List.intercalate_singleton, ← hl]
    · rw [List.intercalate_cons_of_ne_nil hls]
      rcases List.mem_cons.1 hl with rfl | hl
      · simp [ha]
      · simp [ih hl]

theorem not_mem_modulePath {c : Char} {space segment : String} (hc : c.isLower = false)
    (hmarks : c ∉ ['_', '#']) (h : c ∉ space.toList) (hsegment : segment ∈ modulePath space) :
    c ∉ segment.toList := by
  obtain ⟨name, hname, rfl⟩ := List.mem_map.1 hsegment
  obtain ⟨cs, hcs, rfl⟩ := List.mem_map.1 hname
  refine not_mem_memberIdentifier hc hmarks fun hmem => h ?_
  rw [String.toList_ofList] at hmem
  rw [← @List.intercalate_splitOn _ space.toList _ _ '.']
  exact mem_intercalate (List.mem_of_mem_filter hcs) hmem

end Code

end Bindery
