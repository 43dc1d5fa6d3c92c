import Mathlib.Order.Bounds.Basic
import Bindery.Proofs.Model.Fields
/-!
# Names that are made distinct

The fields of a list are gone through in order.  A field keeps its name unless an earlier one stands
for the same word; then it goes by this word with the least number, from two on, that makes a new one
(`IsRenamed`).  What counts of the earlier fields are their final names, so a number can take the word
of a later field, which then gets a number in its turn.  Types and places stay, and nothing changes
if the words differ to begin with (`unique_renamed`).
-/

namespace Bindery.FieldList

open Code (bare)

variable {taken : List String} {fields : FieldList}

/-- The word for which a name stands: what is behind the mark of a raw name, and the name itself if it
has no mark. -/
def word (name : String) : String :=
  if "r#".toList <+: name.toList then .ofList (name.toList.drop 2) else name

def words (fields : FieldList) : List String := fields.map fun f => word f.1

theorem bare_eq_word : bare = word := by
  funext name
  by_cases hmark : "r#".toList <+: name.toList
  · obtain ⟨rest, hrest⟩ := hmark
    have hname : name = "r#" ++ .ofList rest :=
      String.toList_inj.1 (hrest.symm.trans (by simp))
    rw [word, if_pos ⟨rest, hrest⟩, ← hrest, hname, Code.bare_raw]
    rfl
  · rw [word, if_neg hmark, Code.bare_eq_self_iff.2 hmark]

/-! ### One name -/

/-- The search for a number ends with the least one that makes a new name. -/
theorem isLeast_leastSuffix (taken : List String) (base : String) :
    IsLeast {n : Nat | 2 ≤ n ∧ base ++ toString n ∉ taken} (leastSuffix taken base) := by
  obtain ⟨-, hrange, hbefore⟩ := List.find?_range'_eq_some.1 (find?_leastSuffix taken base)
  have htwo : 2 ≤ leastSuffix taken base := (List.mem_range'_1.1 hrange).1
  refine ⟨⟨htwo, leastSuffix_not_mem taken base⟩, ?_⟩
  rintro n ⟨hn, hnew⟩
  by_contra hlt
  have hused : base ++ toString n ∈ taken := by simpa using hbefore n hn (by omega)
  exact hnew hused

theorem leastSuffix_le (taken : List String) (base : String) :
    leastSuffix taken base ≤ taken.length + 2 := by
  have hrange := List.mem_of_find?_eq_some (find?_leastSuffix taken base)
  have hlt := (List.mem_range'_1.1 hrange).2
  omega

/-- What becomes of the name of a field behind fields that stand for the words `earlier`. -/
def IsRenamed (earlier : List String) (name renamed : String) : Prop :=
  if word name ∈ earlier then
    ∃ n, IsLeast {n : Nat | 2 ≤ n ∧ word name ++ toString n ∉ earlier} n ∧
      n ≤ earlier.length + 2 ∧ renamed = word name ++ toString n
  else renamed = name

theorem isRenamed_freshName (taken : List String) (name : String) :
    IsRenamed taken name (freshName taken name) := by
  unfold IsRenamed freshName
  rw [bare_eq_word]
  dsimp only
  split
  · exact ⟨_, isLeast_leastSuffix taken _, leastSuffix_le taken _, rfl⟩
  · rfl

/-! ### All names -/

theorem getElem?_uniqueAfter (taken : List String) (fields : FieldList) {i : Nat}
    {f : String × FieldType} (hf : fields[i]? = some f) :
    ∃ name, (uniqueAfter taken fields)[i]? = some (name, f.2) ∧
      IsRenamed (taken ++ words ((uniqueAfter taken fields).take i)) f.1 name := by
  -- along the fields: the name of the first one joins the names taken
  induction fields generalizing taken i with
  | nil => simp at hf
  | cons g fields ih =>
    cases i with
    | zero =>
      obtain rfl : g = f := by simpa using hf
      refine ⟨freshName taken g.1, rfl, ?_⟩
      simpa [words] using isRenamed_freshName taken g.1
    | succ i =>
      have hrest : fields[i]? = some f := by simpa using hf
      obtain ⟨name, hname, hrenamed⟩ := ih (taken ++ [bare (freshName taken g.1)]) hrest
      refine ⟨name, hname, ?_⟩
      simpa [uniqueAfter, words, bare_eq_word] using hrenamed

theorem uniqueAfter_of_nodup (h : (taken ++ words fields).Nodup) :
    uniqueAfter taken fields = fields := by
  induction fields generalizing taken with
  | nil => rfl
  | cons f fields ih =>
    have hsplit : (taken ++ [bare f.1] ++ words fields).Nodup := by
      simpa [words, bare_eq_word] using h
    have hnew : bare f.1 ∉ taken := by
      intro hmem
      have hdisjoint := List.disjoint_of_nodup_append h
      exact hdisjoint hmem (by simp [words, bare_eq_word])
    have hname : freshName taken f.1 = f.1 := if_neg hnew
    simp only [uniqueAfter, hname, ih hsplit]

/-- **Distinct names.**  Making the names of a field list distinct keeps the types in their places.
Each field keeps its name if no earlier one stands for the same word by then; otherwise it gets the
word with the least number from two on that makes a new one, which is among the first ones.  A list
of different words is left as it is. -/
theorem unique_renamed (fields : FieldList) :
    (unique fields).map (·.2) = fields.map (·.2) ∧
    (∀ i f, fields[i]? = some f → ∃ name, (unique fields)[i]? = some (name, f.2) ∧
      IsRenamed (words ((unique fields).take i)) f.1 name) ∧
    ((words fields).Nodup → unique fields = fields) := by
  refine ⟨map_snd_uniqueAfter [] fields, fun i f hf => ?_, fun h => ?_⟩
  · simpa [unique] using getElem?_uniqueAfter [] fields hf
  · exact uniqueAfter_of_nodup (by simpa using h)

/-! ### A sample -/

/-- Fields of which one has the word that an earlier one gets, and one is raw. -/
def clashing : FieldList :=
  [("x", .ofPrimitive .u8), ("x", .ofPrimitive .i8), ("x2", .ofPrimitive .i16),
    ("r#type", .ofPrimitive .i32), ("type", .ofPrimitive .i64)]

example : (unique clashing).map (·.1) = ["x", "x2", "x22", "r#type", "type2"] := by cbv

/-- The raw name is kept with its mark.  The last field stands for the same word, so it gets a
number. -/
theorem isRenamed_clashing :
    (unique clashing)[3]? = some ("r#type", .ofPrimitive .i32) ∧
      (unique clashing)[4]? = some ("type2", .ofPrimitive .i64) ∧
      IsRenamed ["x", "x2", "x22"] "r#type" "r#type" ∧
      IsRenamed ["x", "x2", "x22", "type"] "type" "type2" := by
  have hraw : (unique clashing)[3]? = some ("r#type", .ofPrimitive .i32) := by cbv
  have hplain : (unique clashing)[4]? = some ("type2", .ofPrimitive .i64) := by cbv
  have hwordsRaw : words ((unique clashing).take 3) = ["x", "x2", "x22"] := by cbv
  have hwordsPlain : words ((unique clashing).take 4) = ["x", "x2", "x22", "type"] := by cbv
  obtain ⟨-, hnames, -⟩ := unique_renamed clashing
  obtain ⟨first, hfirst, hkept⟩ := hnames 3 ("r#type", .ofPrimitive .i32) rfl
  obtain ⟨second, hsecond, hrenamed⟩ := hnames 4 ("type", .ofPrimitive .i64) rfl
  have hraweq : first = "r#type" := by simpa [hraw] using hfirst.symm
  have hplaineq : second = "type2" := by simpa [hplain] using hsecond.symm
  rw [hwordsRaw, hraweq] at hkept
  rw [hwordsPlain, hplaineq] at hrenamed
  exact ⟨hraw, hplain, hkept, hrenamed⟩

end Bindery.FieldList
