import Bindery.Proofs.Sequence
import Bindery.Text.Lines
/-!
# Pieces of texts

Texts are read back by cutting them where a separator stands, and by taking off what is known to stand
around the rest.  Pieces that were put together are found again if a mark of the separator is in none
of them (`pieces_intercalate`); so are lines, if none has a line feed (`pieces_joinLines`).
-/

namespace Bindery.Text

/-! ### Marks -/

/-- None of the marks is in the text. -/
def Free (marks : List Char) (text : String) : Prop := ∀ c ∈ marks, c ∉ text.toList

instance (marks : List Char) (text : String) : Decidable (Free marks text) :=
  List.decidableBAll (fun c => c ∉ text.toList) marks

section Free

variable {marks : List Char} {a b : String}

theorem Free.subset {marks' : List Char} (h : Free marks a) (hmarks : marks' ⊆ marks) :
    Free marks' a :=
  fun c hc => h c (hmarks hc)

@[simp] theorem free_append : Free marks (a ++ b) ↔ Free marks a ∧ Free marks b := by
  simp only [Free, String.toList_append, List.mem_append, not_or]
  exact forall₂_and

theorem free_join {texts : List String} (h : ∀ x ∈ texts, Free marks x) :
    Free marks (String.join texts) := by
  intro c hc hmem
  rw [String.toList_join] at hmem
  obtain ⟨x, hx, hmem⟩ := List.mem_flatMap.1 hmem
  exact h x hx c hc hmem

theorem free_intercalate {sep : String} {texts : List String} (hsep : Free marks sep)
    (h : ∀ x ∈ texts, Free marks x) : Free marks (sep.intercalate texts) := by
  cases texts with
  | nil => simp [Free]
  | cons first others =>
    obtain ⟨hfirst, hothers⟩ := List.forall_mem_cons.1 h
    intro c hc hmem
    rw [toList_intercalate_cons, List.mem_append, List.mem_flatMap] at hmem
    rcases hmem with hmem | ⟨x, hx, hmem⟩
    · exact hfirst c hc hmem
    · exact (List.mem_append.1 hmem).elim (hsep c hc) (hothers x hx c hc)

end Free

/-! ### What stands between -/

/-- The text between a start and an ending. -/
def between? (start ending text : String) : Option String :=
  ((start.toList.isPrefixOf? text.toList).bind fun rest => ending.toList.isSuffixOf? rest).map .ofList

theorem between?_eq_some {start ending text inside : String} :
    between? start ending text = some inside ↔ text = start ++ inside ++ ending := by
  simp only [between?, Option.map_eq_some_iff, Option.bind_eq_some_iff,
    List.isPrefixOf?_eq_some_iff_append_eq, List.isSuffixOf?_eq_some_iff_append_eq]
  rw [← String.toList_inj, String.toList_append, String.toList_append, List.append_assoc]
  constructor
  · rintro ⟨cs, ⟨rest, hstart, hending⟩, rfl⟩
    rw [String.toList_ofList, hending, hstart]
  · intro h
    exact ⟨inside.toList, ⟨_, h.symm, rfl⟩, String.ofList_toList⟩

/-- The text up to a mark. -/
def upTo (mark : Char) (text : String) : String := .ofList (text.toList.takeWhile (· ≠ mark))

theorem upTo_append {mark : Char} {text rest : String} (h : mark ∉ text.toList)
    (hrest : rest.toList.head? = some mark) : upTo mark (text ++ rest) = text := by
  obtain ⟨more, hmore⟩ := List.head?_eq_some_iff.1 hrest
  have hother : ∀ c ∈ text.toList, decide (c ≠ mark) = true := by
    intro c hc
    exact decide_eq_true fun heq => h (heq ▸ hc)
  rw [upTo, String.toList_append, hmore, List.takeWhile_append_of_pos hother,
    List.takeWhile_cons_of_neg (by simp), List.append_nil, String.ofList_toList]

/-! ### Pieces -/

/-- The pieces between the places where a separator stands, from left to right.  The number is that of
the characters which still belong to the last separator. -/
def piecesFrom (sep : List Char) : Nat → List Char → List (List Char)
  | _, [] => [[]]
  | k + 1, _ :: cs => piecesFrom sep k cs
  | 0, c :: cs =>
    if sep.isPrefixOf (c :: cs) then [] :: piecesFrom sep (sep.length - 1) cs
    else (piecesFrom sep 0 cs).modifyHead (c :: ·)

/-- The pieces of a text. -/
def pieces (sep text : String) : List String := (piecesFrom sep.toList 0 text.toList).map .ofList

section Pieces

variable {sep : List Char} {mark : Char}

theorem piecesFrom_append (passed rest : List Char) :
    piecesFrom sep passed.length (passed ++ rest) = piecesFrom sep 0 rest := by
  induction passed with
  | nil => rfl
  | cons c passed ih => exact ih

theorem not_prefix_append (hmark : mark ∈ sep) {piece rest : List Char} (hne : piece ≠ [])
    (hpiece : mark ∉ piece) : ¬ sep <+: piece ++ (sep ++ rest) := by
  rintro ⟨more, heq⟩
  have hindex := congrArg (List.idxOf mark) heq
  rw [List.idxOf_append_of_mem hmark, List.idxOf_append_of_notMem hpiece,
    List.idxOf_append_of_mem hmark] at hindex
  have hlength := List.length_pos_iff.2 hne
  omega

theorem piecesFrom_of_not_mem (hmark : mark ∈ sep) {piece : List Char} (h : mark ∉ piece) :
    piecesFrom sep 0 piece = [piece] := by
  induction piece with
  | nil => rfl
  | cons c piece ih =>
    have hno : ¬ sep.isPrefixOf (c :: piece) := by
      rw [List.isPrefixOf_iff_prefix]
      exact fun hstart => h (hstart.subset hmark)
    rw [piecesFrom, if_neg hno, ih (List.not_mem_of_not_mem_cons h)]
    rfl

theorem piecesFrom_piece (hmark : mark ∈ sep) {piece : List Char} (h : mark ∉ piece)
    (rest : List Char) :
    piecesFrom sep 0 (piece ++ (sep ++ rest)) = piece :: piecesFrom sep 0 rest := by
  induction piece with
  | nil =>
    cases sep with
    | nil => cases hmark
    | cons c sep =>
      have hyes : (c :: sep).isPrefixOf (c :: (sep ++ rest)) :=
        List.isPrefixOf_iff_prefix.2 ⟨rest, rfl⟩
      rw [List.nil_append, List.cons_append, piecesFrom, if_pos hyes]
      exact congrArg _ (piecesFrom_append sep rest)
  | cons c piece ih =>
    have hno : ¬ sep.isPrefixOf (c :: (piece ++ (sep ++ rest))) := by
      rw [List.isPrefixOf_iff_prefix]
      exact not_prefix_append hmark (List.cons_ne_nil c piece) h
    rw [List.cons_append, piecesFrom, if_neg hno, ih (List.not_mem_of_not_mem_cons h)]
    rfl

theorem piecesFrom_intercalate (hmark : mark ∈ sep) {items : List (List Char)} (hne : items ≠ [])
    (h : ∀ x ∈ items, mark ∉ x) : piecesFrom sep 0 (sep.intercalate items) = items := by
  induction items with
  | nil => exact absurd rfl hne
  | cons x items ih =>
    obtain ⟨hx, hitems⟩ := List.forall_mem_cons.1 h
    by_cases hlast : items = []
    · subst hlast
      rw [List.intercalate_singleton]
      exact piecesFrom_of_not_mem hmark hx
    · rw [List.intercalate_cons_of_ne_nil hlast, List.append_assoc, piecesFrom_piece hmark hx,
        ih hlast hitems]

end Pieces

/-- **Pieces.**  What was put together with a separator is found again if a mark of the separator is
in none of the pieces. -/
theorem pieces_intercalate {sep : String} (mark : Char) (hmark : mark ∈ sep.toList)
    {items : List String} (hne : items ≠ []) (h : ∀ x ∈ items, mark ∉ x.toList) :
    pieces sep (sep.intercalate items) = items := by
  have hlists : ∀ x ∈ items.map String.toList, mark ∉ x := by
    intro x hx
    obtain ⟨item, hitem, rfl⟩ := List.mem_map.1 hx
    exact h item hitem
  rw [pieces, String.toList_intercalate, piecesFrom_intercalate hmark (by simpa using hne) hlists,
    List.map_map]
  simp [Function.comp_def]

theorem pieces_joinLines {texts : List String} (hne : texts ≠ []) (h : ∀ x ∈ texts, Free ['\n'] x) :
    pieces "\n" (joinLines texts) = texts :=
  pieces_intercalate '\n' (by simp) hne fun x hx => h x hx '\n' (by simp)

example : pieces ", " "a, b, c" = ["a", "b", "c"] := by cbv

end Bindery.Text
