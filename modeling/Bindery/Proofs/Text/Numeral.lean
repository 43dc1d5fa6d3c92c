import Mathlib.Data.List.Forall2
import Mathlib.Tactic.Positivity
import Mathlib.Tactic.Ring
import Bindery.Text.Numeral
/-!
# Numerals in base sixteen

A number that is written to a fixed width is read again as its remainder (`hexNumber_hexDigits`).

The digits of a number can be divided into groups of given widths.  The numbers of the groups, written
one after the other, have the digits of the whole (`flatten_hexDigits_groups`).  Each one has a place,
and put in their places, numbers that fit into the widths make up one number and are what it is divided
into (`sum_placed_groups`, `groups_sum_placed`).  Since they share no bits, it does not matter whether
they are added or joined bit by bit (`foldl_or_placed`).
-/

namespace Bindery.Text

variable {ns ks : List Nat}

/-! ### Digits -/

theorem hexValue?_digitChar : ∀ d < 16, hexValue? (Nat.digitChar d) = some d := by decide

@[simp] theorem length_hexDigits (width n : Nat) : (hexDigits width n).length = width := by
  induction width generalizing n with
  | zero => rfl
  | succ width ih => simp [hexDigits, ih]

theorem forall_mem_hexDigits {P : Char → Prop} (h : ∀ d < 16, P (Nat.digitChar d)) (width n : Nat) :
    ∀ c ∈ hexDigits width n, P c := by
  induction width generalizing n with
  | zero => simp [hexDigits]
  | succ width ih =>
    intro c hc
    rw [hexDigits, List.mem_append, List.mem_singleton] at hc
    rcases hc with hc | rfl
    · exact ih (n / 16) c hc
    · exact h (n % 16) (by omega)

theorem hexNumber_append (cs : List Char) (c : Char) :
    hexNumber (cs ++ [c]) = 16 * hexNumber cs + (hexValue? c).getD 0 := by
  simp [hexNumber]

theorem hexNumber_hexDigits (width n : Nat) : hexNumber (hexDigits width n) = n % 16 ^ width := by
  induction width generalizing n with
  | zero => simp [hexDigits, hexNumber, Nat.mod_one]
  | succ width ih =>
    have hlast : hexValue? (Nat.digitChar (n % 16)) = some (n % 16) :=
      hexValue?_digitChar _ (by omega)
    rw [hexDigits, hexNumber_append, ih, hlast, Option.getD_some, pow_succ', Nat.mod_mul]
    omega

theorem hexDigits_add (width width' n : Nat) :
    hexDigits (width + width') n = hexDigits width (n / 16 ^ width') ++ hexDigits width' n := by
  induction width' generalizing n with
  | zero => simp [hexDigits]
  | succ width' ih =>
    rw [← Nat.add_assoc, hexDigits, hexDigits, ih, List.append_assoc, Nat.div_div_eq_div_mul,
      pow_succ']

theorem hexDigits_mod (width n : Nat) : hexDigits width (n % 16 ^ width) = hexDigits width n := by
  induction width generalizing n with
  | zero => rfl
  | succ width ih =>
    have hlast : n % 16 ^ (width + 1) % 16 = n % 16 := by
      rw [pow_succ', Nat.mod_mul_right_mod]
    have hbefore : n % 16 ^ (width + 1) / 16 = n / 16 % 16 ^ width := by
      rw [pow_succ', Nat.mod_mul_right_div_self]
    rw [hexDigits, hexDigits, hlast, hbefore, ih]

/-! ### Groups of digits -/

/-- What the last digit of each group counts for. -/
def placeValues : List Nat → List Nat
  | [] => []
  | _ :: ks => 16 ^ ks.sum :: placeValues ks

/-- A number divided into groups of digits. -/
def groups : List Nat → Nat → List Nat
  | [], _ => []
  | k :: ks, n => n / 16 ^ ks.sum % 16 ^ k :: groups ks n

/-- Numbers that have no more digits than the groups. -/
def Fits (ns ks : List Nat) : Prop := List.Forall₂ (fun n k => n < 16 ^ k) ns ks

/-- Numbers in the places of the groups. -/
def placed (ns ks : List Nat) : List Nat := ns.zipWith (· * ·) (placeValues ks)

theorem fits_groups (ks : List Nat) (n : Nat) : Fits (groups ks n) ks := by
  induction ks with
  | nil => exact .nil
  | cons k ks ih => exact .cons (Nat.mod_lt _ (by positivity)) ih

/-- The groups have the digits of the whole. -/
theorem flatten_hexDigits_groups (ks : List Nat) (n : Nat) :
    (ks.zipWith hexDigits (groups ks n)).flatten = hexDigits ks.sum n := by
  induction ks with
  | nil => rfl
  | cons k ks ih =>
    rw [groups, List.zipWith_cons_cons, List.flatten_cons, ih, List.sum_cons, hexDigits_add,
      hexDigits_mod]

theorem groups_mul_add (ks : List Nat) (a n : Nat) :
    groups ks (16 ^ ks.sum * a + n) = groups ks n := by
  induction ks generalizing a with
  | nil => rfl
  | cons k ks ih =>
    have hpos : 0 < 16 ^ ks.sum := by positivity
    have hsplit : 16 ^ (k :: ks).sum * a = 16 ^ ks.sum * (16 ^ k * a) := by
      rw [List.sum_cons, pow_add]
      ring
    rw [hsplit, groups, groups, ih, Nat.mul_add_div hpos, Nat.mul_add_mod]

/-- A number is made up of its groups. -/
theorem sum_placed_groups (ks : List Nat) (n : Nat) :
    (placed (groups ks n) ks).sum = n % 16 ^ ks.sum := by
  induction ks with
  | nil => simp [groups, placed, Nat.mod_one]
  | cons k ks ih =>
    have hcons : placed (groups (k :: ks) n) (k :: ks) =
        n / 16 ^ ks.sum % 16 ^ k * 16 ^ ks.sum :: placed (groups ks n) ks := rfl
    rw [hcons, List.sum_cons, ih, List.sum_cons, pow_add, Nat.mul_comm (16 ^ k), Nat.mod_mul]
    ring

theorem sum_placed_lt (h : Fits ns ks) : (placed ns ks).sum < 16 ^ ks.sum := by
  induction h with
  | nil => simp [placed]
  | @cons n k ns ks hn _ ih =>
    have hcons : placed (n :: ns) (k :: ks) = n * 16 ^ ks.sum :: placed ns ks := rfl
    have hnext : (n + 1) * 16 ^ ks.sum ≤ 16 ^ k * 16 ^ ks.sum := Nat.mul_le_mul_right _ hn
    have hexpand : (n + 1) * 16 ^ ks.sum = n * 16 ^ ks.sum + 16 ^ ks.sum := by ring
    rw [hcons, List.sum_cons, List.sum_cons, pow_add]
    omega

/-- Numbers that fit are the groups of what they make up. -/
theorem groups_sum_placed (h : Fits ns ks) : groups ks (placed ns ks).sum = ns := by
  induction h with
  | nil => rfl
  | @cons n k ns ks hn hns ih =>
    have hcons : (placed (n :: ns) (k :: ks)).sum = 16 ^ ks.sum * n + (placed ns ks).sum := by
      show n * 16 ^ ks.sum + (placed ns ks).sum = _
      ring
    have hpos : 0 < 16 ^ ks.sum := by positivity
    have hrest : (placed ns ks).sum / 16 ^ ks.sum = 0 := Nat.div_eq_of_lt (sum_placed_lt hns)
    rw [groups, hcons, Nat.mul_add_div hpos, hrest, Nat.add_zero, Nat.mod_eq_of_lt hn,
      groups_mul_add, ih]

/-- Numbers that fit share no bits when they are in their places. -/
theorem foldl_or_placed (h : Fits ns ks) (a : Nat) :
    (placed ns ks).foldl (· ||| ·) (16 ^ ks.sum * a) = 16 ^ ks.sum * a + (placed ns ks).sum := by
  -- along the groups: what has been joined ends before the next group
  induction h generalizing a with
  | nil => simp [placed]
  | @cons n k ns ks hn hns ih =>
    have hcons : placed (n :: ns) (k :: ks) = n * 16 ^ ks.sum :: placed ns ks := rfl
    have hbits : 16 ^ (k :: ks).sum = 2 ^ (4 * (k :: ks).sum) := (pow_mul 2 4 _).symm
    have hlt : n * 16 ^ ks.sum < 2 ^ (4 * (k :: ks).sum) := by
      rw [← hbits, List.sum_cons, pow_add]
      exact Nat.mul_lt_mul_of_pos_right hn (by positivity)
    have hjoin : 16 ^ (k :: ks).sum * a ||| n * 16 ^ ks.sum = 16 ^ ks.sum * (16 ^ k * a + n) := by
      rw [hbits, ← Nat.two_pow_add_eq_or_of_lt hlt, ← hbits, List.sum_cons, pow_add]
      ring
    rw [hcons, List.foldl_cons, hjoin, ih, List.sum_cons, List.sum_cons, pow_add]
    ring

end Bindery.Text
