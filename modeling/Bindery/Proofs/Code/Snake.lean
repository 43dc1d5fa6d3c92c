import Mathlib.Data.List.Basic
import Bindery.Proofs.Code.Identifier
/-!
# Normal names

Snake case is the name in small letters with an underscore wherever a word begins inside it.  Which
positions these are is told by the character before a position and the two behind it (`Boundary`).  In
a name without capitals no word begins inside, and no identifier is a reserved word; so a name that
has been made a member identifier stays as it is when it is made one again (`memberIdentifier_normal`).
-/

namespace Bindery

namespace Text

/-! ### Where words begin -/

/-- A word begins between what stands before and what stands behind: behind is a capital, and before
it a small letter or a digit, or a capital if a small letter is next. -/
def Boundary (before behind : List Char) : Prop :=
  ((∃ a ∈ before.getLast?, a.isLower ∨ a.isDigit) ∧ ∃ b ∈ behind[0]?, b.isUpper) ∨
    ((∃ a ∈ before.getLast?, a.isUpper) ∧ (∃ b ∈ behind[0]?, b.isUpper) ∧
      ∃ c ∈ behind[1]?, c.isLower)

instance : DecidableRel Boundary := fun _ _ => inferInstanceAs (Decidable (_ ∨ _))

/-- A name from position `i` on up to the next one, in small letters: the underscore, if a word begins
there, and the character. -/
def piece (before cs : List Char) (i : Nat) : List Char :=
  (if Boundary (before ++ cs.take i) (cs.drop i) then ['_'] else []) ++
    (cs[i]?.map Char.toLower).toList

theorem boundary_cons_iff {before : List Char} {c : Char} {rest : List Char} :
    Boundary before (c :: rest) ↔ before.getLast?.any (opensWord · c rest.head?) = true := by
  unfold Boundary opensWord
  cases before.getLast? with
  | none => simp
  | some a =>
    cases rest with
    | nil => simp [and_comm]
    | cons b rest =>
      simp only [Option.mem_def, Option.some.injEq, exists_eq_left', List.getElem?_cons_zero,
        List.getElem?_cons_succ, List.head?_cons, Option.any_some, Bool.and_eq_true,
        Bool.or_eq_true]
      tauto

theorem piece_cons_succ (before : List Char) (c : Char) (cs : List Char) (i : Nat) :
    piece before (c :: cs) (i + 1) = piece (before ++ [c]) cs i := by
  simp [piece]

/-- Snake case goes from position to position. -/
theorem snakeFrom_eq (before cs : List Char) :
    snakeFrom before.getLast? cs = (List.range cs.length).flatMap (piece before cs) := by
  induction cs generalizing before with
  | nil => rfl
  | cons c cs ih =>
    have hrest : snakeFrom (some c) cs =
        (List.range cs.length).flatMap (piece (before ++ [c]) cs) := by
      rw [← ih, List.getLast?_concat]
    have hfirst : piece before (c :: cs) 0 =
        if before.getLast?.any (opensWord · c cs.head?) then ['_', c.toLower] else [c.toLower] := by
      have hposition : Boundary (before ++ (c :: cs).take 0) ((c :: cs).drop 0) ↔
          before.getLast?.any (opensWord · c cs.head?) = true := by
        rw [List.take_zero, List.append_nil, List.drop_zero, boundary_cons_iff]
      unfold piece
      simp only [hposition, List.getElem?_cons_zero, Option.map_some, Option.toList_some]
      split <;> rfl
    rw [List.length_cons, List.range_succ_eq_map, List.flatMap_cons, List.flatMap_map, hfirst,
      snakeFrom, hrest]
    simp only [piece_cons_succ]
    split <;> rfl

/-! ### Names without capitals -/

theorem isUpper_toLower (c : Char) : c.toLower.isUpper = false := by
  unfold Char.toLower
  split
  · rename_i hupper
    refine decide_eq_false fun hshifted => ?_
    simp only [ge_iff_le, UInt32.le_iff_toNat_le, UInt32.toNat_add] at hupper hshifted
    have hfirst : 'A'.val.toNat = 65 := rfl
    have hlast : 'Z'.val.toNat = 90 := rfl
    have hshift : ('a'.val - 'A'.val).toNat = 32 := rfl
    omega
  · rename_i hother
    exact decide_eq_false hother

theorem isUpper_of_mem_snakeCase {name : String} {c : Char} (h : c ∈ (snakeCase name).toList) :
    c.isUpper = false := by
  rw [snakeCase, String.toList_ofList] at h
  rcases mem_snakeFrom h with rfl | ⟨x, -, rfl⟩
  · rfl
  · exact isUpper_toLower x

theorem toLower_of_isUpper {c : Char} (h : c.isUpper = false) : c.toLower = c := by
  unfold Char.toLower
  split
  · rename_i hupper
    exact absurd hupper (of_decide_eq_false h)
  · rfl

theorem snakeCase_of_no_upper {name : String} (h : ∀ c ∈ name.toList, c.isUpper = false) :
    snakeCase name = name := by
  have hfrom (before : Option Char) (cs : List Char) (hcs : ∀ c ∈ cs, c.isUpper = false) :
      snakeFrom before cs = cs := by
    induction cs generalizing before with
    | nil => rfl
    | cons c cs ih =>
      rw [List.forall_mem_cons] at hcs
      have hnone : before.any (opensWord · c cs.head?) = false := by
        cases before <;> simp [opensWord, hcs.1]
      rw [snakeFrom, hnone, ih _ hcs.2, toLower_of_isUpper hcs.1]
      rfl
  rw [snakeCase, hfrom none _ h, String.ofList_toList]

end Text

namespace Code

open Text

theorem identifier_identifier (name : String) : identifier (identifier name) = identifier name :=
  identifier_of_not_reserved (identifier_not_mem_reservedWords name)

theorem isUpper_of_mem_identifier {name : String} (h : ∀ c ∈ name.toList, c.isUpper = false) :
    ∀ c ∈ (identifier name).toList, c.isUpper = false := by
  unfold identifier
  split
  · intro c hc
    rw [String.toList_append, List.mem_append] at hc
    rcases hc with hc | hc
    · exact h c hc
    · rw [List.mem_singleton.1 hc]
      rfl
  · split
    · intro c hc
      rw [String.toList_append, List.mem_append] at hc
      rcases hc with hc | hc
      · have hmark : ∀ x ∈ ['r', '#'], x.isUpper = false :=
          List.forall_mem_cons.2 ⟨rfl, List.forall_mem_singleton.2 rfl⟩
        exact hmark c hc
      · exact h c hc
    · exact h

/-- **Normal names.**  The snake case of a name is the name in small letters with one underscore at
each position where a word begins, and none elsewhere.  A name that has been made a member identifier,
raw or with an underscore at its end or not, stays as it is when it is made one again. -/
theorem memberIdentifier_normal (name : String) :
    (snakeCase name).toList = (List.range name.toList.length).flatMap (fun i =>
      (if Boundary (name.toList.take i) (name.toList.drop i) then ['_'] else []) ++
        (name.toList[i]?.map Char.toLower).toList) ∧
      memberIdentifier (memberIdentifier name) = memberIdentifier name := by
  constructor
  · rw [snakeCase, String.toList_ofList]
    exact snakeFrom_eq [] name.toList
  · have hsmall : ∀ c ∈ (memberIdentifier name).toList, c.isUpper = false :=
      isUpper_of_mem_identifier fun c => isUpper_of_mem_snakeCase
    calc memberIdentifier (memberIdentifier name)
        = identifier (memberIdentifier name) := by
          rw [memberIdentifier, snakeCase_of_no_upper hsmall]
      _ = memberIdentifier name := identifier_identifier _

example : ["Type", "r#type", "Self", "HTTPServer2Go"].map memberIdentifier =
    ["r#type", "r#type", "self_", "http_server2_go"] := by
  decide

end Code

end Bindery
