import Bindery.Guid
import Bindery.Proofs.Sequence
import Bindery.Proofs.Text.Numeral
/-!
# Identities and their components

The components of an identity are its value divided into groups of digits, so they have their numbers
of digits, and whatever numbers do are the components of an identity (`exists_numbers_eq_iff`).  When
components are given, only those that are too large are looked for; but a negative one makes the whole
negative when they are put together (`joined_neg_iff`), and is found out then.  So eleven numbers give
an identity if and only if they are its components (`ofArgs_numbers_iff`).
-/

namespace Bindery.Guid

open Text (Fits groups placed placeValues)

variable {g : Guid} {args : List Value} {ns : List Int}

/-! ### Components in a row -/

/-- How many hexadecimal digits the components have. -/
def digitCounts : List Nat := [8, 4, 4, 2, 2, 2, 2, 2, 2, 2, 2]

def Components.numbers (c : Components) : List Nat := c.data1 :: c.data2 :: c.data3 :: c.data4

theorem numbers_components (g : Guid) : g.components.numbers = groups digitCounts g.value := rfl

theorem placeValues_digitCounts :
    placeValues digitCounts = weight1 :: weight2 :: weight3 :: byteWeights := rfl

theorem fits_numbers (g : Guid) : Fits g.components.numbers digitCounts :=
  Text.fits_groups digitCounts g.value

/-- An identity is made up of its components. -/
theorem sum_placed_numbers (g : Guid) : (placed g.components.numbers digitCounts).sum = g.value := by
  rw [numbers_components, Text.sum_placed_groups]
  exact Nat.mod_eq_of_lt g.value_lt

theorem exists_numbers_eq_iff {ns : List Nat} :
    (∃ g : Guid, g.components.numbers = ns) ↔ Fits ns digitCounts := by
  constructor
  · rintro ⟨g, rfl⟩
    exact fits_numbers g
  · intro h
    have hlt : (placed ns digitCounts).sum < 16 ^ digitCounts.sum := Text.sum_placed_lt h
    exact ⟨⟨(placed ns digitCounts).sum, hlt⟩, Text.groups_sum_placed h⟩

/-! ### Joining bits -/

theorem bitOr_neg_iff (m n : Int) : bitOr m n < 0 ↔ m < 0 ∨ n < 0 := by
  have hnat (k : Nat) : ¬ Int.ofNat k < 0 := Int.not_lt.2 (Int.natCast_nonneg k)
  cases m with
  | ofNat m =>
    cases n with
    | ofNat n => simp only [bitOr, hnat, or_self]
    | negSucc n => simp only [bitOr, Int.negSucc_lt_zero, or_true]
  | negSucc m =>
    cases n with
    | ofNat n => simp only [bitOr, Int.negSucc_lt_zero, true_or]
    | negSucc n => simp only [bitOr, Int.negSucc_lt_zero, or_self]

theorem foldl_bitOr_neg_iff (m : Int) (ns : List Int) :
    ns.foldl bitOr m < 0 ↔ m < 0 ∨ ∃ n ∈ ns, n < 0 := by
  induction ns generalizing m with
  | nil => simp
  | cons n ns ih =>
    rw [List.foldl_cons, ih, bitOr_neg_iff]
    simp only [List.mem_cons, exists_eq_or_imp, or_assoc]

theorem foldl_bitOr_natCast (m : Nat) (ns : List Nat) :
    (ns.map fun n : Nat => (n : Int)).foldl bitOr m = (ns.foldl (· ||| ·) m : Nat) := by
  induction ns generalizing m with
  | nil => rfl
  | cons n ns ih =>
    have hor : bitOr m n = (m ||| n : Nat) := rfl
    rw [List.map_cons, List.foldl_cons, hor, ih, List.foldl_cons]

theorem zero_bitOr (n : Int) : bitOr 0 n = n := by
  cases n with
  | ofNat n => exact congrArg Int.ofNat (Nat.zero_or n)
  | negSucc n =>
    show Int.negSucc (n - (n &&& 0)) = Int.negSucc n
    rw [Nat.and_zero, Nat.sub_zero]

/-- Whole numbers joined in the places of the components. -/
def joined (ns : List Int) : Int :=
  (ns.zipWith (fun (n : Int) (w : Nat) => n * w) (placeValues digitCounts)).foldl bitOr 0

theorem exists_neg_zipWith_iff {ws : List Nat} (hpos : ∀ w ∈ ws, 0 < w)
    (hlength : ns.length = ws.length) :
    (∃ m ∈ ns.zipWith (fun (n : Int) (w : Nat) => n * w) ws, m < 0) ↔ ∃ n ∈ ns, n < 0 := by
  induction ws generalizing ns with
  | nil =>
    rw [List.length_eq_zero_iff.1 hlength]
    simp
  | cons w ws ih =>
    cases ns with
    | nil => cases hlength
    | cons n ns =>
      have hw : 0 < (w : Int) := by exact_mod_cast hpos w (by simp)
      have hsign : n * w < 0 ↔ n < 0 := by
        constructor
        · intro h
          by_contra hn
          exact absurd h (Int.not_lt.2 (Int.mul_nonneg (Int.not_lt.1 hn) hw.le))
        · intro h
          exact Int.mul_neg_of_neg_of_pos h hw
      have hrest := ih (fun v hv => hpos v (by simp [hv])) (Nat.succ.inj hlength)
      simp only [List.zipWith_cons_cons, List.mem_cons, exists_eq_or_imp, hsign, hrest]

theorem joined_neg_iff (hlength : ns.length = 11) : joined ns < 0 ↔ ∃ n ∈ ns, n < 0 := by
  rw [joined, foldl_bitOr_neg_iff, exists_neg_zipWith_iff (by decide) hlength]
  simp

/-- Components in bounds make up what they are the components of. -/
theorem joined_natCast {ns : List Nat} (h : Fits ns digitCounts) :
    joined (ns.map fun n : Nat => (n : Int)) = (placed ns digitCounts).sum := by
  have hcast : (ns.map fun n : Nat => (n : Int)).zipWith (fun (n : Int) (w : Nat) => n * w)
      (placeValues digitCounts) = (placed ns digitCounts).map fun n : Nat => (n : Int) := by
    rw [placed, List.zipWith_map_left, List.map_zipWith]
    simp only [Nat.cast_mul]
  have hor := Text.foldl_or_placed h 0
  rw [Nat.mul_zero, Nat.zero_add] at hor
  rw [joined, hcast, ← hor]
  exact foldl_bitOr_natCast 0 (placed ns digitCounts)

theorem joined_cons (data1 data2 data3 : Int) (data4 : List Int) :
    joined (data1 :: data2 :: data3 :: data4) =
      (data4.zipWith (fun (b : Int) (w : Nat) => b * w) byteWeights).foldl bitOr
        (bitOr (bitOr (data1 * weight1) (data2 * weight2)) (data3 * weight3)) := by
  rw [joined, placeValues_digitCounts, List.zipWith_cons_cons, List.zipWith_cons_cons,
    List.zipWith_cons_cons, List.foldl_cons, List.foldl_cons, List.foldl_cons, zero_bitOr]

/-! ### Reading components -/

/-- No number has more digits than the component in its place. -/
def Small (ns : List Int) : Prop := List.Forall₂ (fun (n : Int) k => n < 16 ^ k) ns digitCounts

theorem small_cons_iff (data1 data2 data3 : Int) {data4 : List Int} (hlength : data4.length = 8) :
    Small (data1 :: data2 :: data3 :: data4) ↔
      data1 < 0x100000000 ∧ data2 < 0x10000 ∧ data3 < 0x10000 ∧ ∀ b ∈ data4, b < 0x100 := by
  match data4, hlength with
  | [b0, b1, b2, b3, b4, b5, b6, b7], _ =>
    simp [Small, digitCounts]

theorem ofComponents_cases (args : List Value) (data1 data2 data3 : Int) {data4 : List Int}
    (hlength : data4.length = 8) :
    (Small (data1 :: data2 :: data3 :: data4) ∧
      ofComponents args data1 data2 data3 data4 = ofInt (joined (data1 :: data2 :: data3 :: data4))) ∨
    (¬ Small (data1 :: data2 :: data3 :: data4) ∧
      ofComponents args data1 data2 data3 data4 = .error (.guidComponent args)) := by
  rw [small_cons_iff data1 data2 data3 hlength, joined_cons]
  unfold ofComponents
  split
  · rename_i hlarge
    refine .inr ⟨?_, rfl⟩
    rintro ⟨h1, h2, h3, h4⟩
    simp only [Bool.or_eq_true, decide_eq_true_eq, List.any_eq_true, ge_iff_le] at hlarge
    rcases hlarge with ((hlarge | hlarge) | hlarge) | ⟨b, hb, hlarge⟩
    · omega
    · omega
    · omega
    · exact absurd (h4 b hb) (Int.not_lt.2 hlarge)
  · rename_i hsmall
    simp only [Bool.or_eq_true, decide_eq_true_eq, List.any_eq_true, not_or, not_exists, not_and,
      Int.not_le, ge_iff_le] at hsmall
    obtain ⟨⟨⟨h1, h2⟩, h3⟩, h4⟩ := hsmall
    exact .inl ⟨⟨h1, h2, h3, h4⟩, rfl⟩

theorem ofInt_value (g : Guid) : ofInt g.value = .ok g := by
  have hrange : (0 : Int) ≤ g.value ∧ (g.value : Int) < 0x100000000000000000000000000000000 :=
    ⟨Int.natCast_nonneg _, by exact_mod_cast g.value_lt⟩
  rw [ofInt, dif_pos hrange]
  rfl

theorem ofArgs_numbers_cases (hns : args.mapM Value.int? = some ns) (hlength : ns.length = 11) :
    (Small ns ∧ ofArgs args = ofInt (joined ns)) ∨
    (¬ Small ns ∧ ofArgs args = .error (.guidComponent args)) := by
  unfold ofArgs
  split
  · simp [Value.int?] at hns
  · rw [hns]
    match ns, hlength with
    | data1 :: data2 :: data3 :: data4, hlength =>
      have height : data4.length = 8 := by simpa using hlength
      dsimp only
      rw [if_pos height]
      exact ofComponents_cases args data1 data2 data3 height

theorem exists_natCast (h : ∀ n ∈ ns, 0 ≤ n) :
    ∃ ks : List Nat, ns = ks.map fun n : Nat => (n : Int) := by
  have hsame : ns.map (fun n => ((n.toNat : Nat) : Int)) = ns.map id :=
    List.map_congr_left fun n hn => Int.toNat_of_nonneg (h n hn)
  refine ⟨ns.map Int.toNat, ?_⟩
  rw [List.map_map]
  exact (hsame.trans (List.map_id ns)).symm

theorem small_natCast_iff {ns : List Nat} :
    Small (ns.map fun n : Nat => (n : Int)) ↔ Fits ns digitCounts := by
  unfold Small Fits
  rw [List.forall₂_map_left_iff]
  norm_cast

/-- **Identities from numbers.**  Eleven numbers give an identity if they are its components, and only
then. -/
theorem ofArgs_numbers_iff (hns : args.mapM Value.int? = some ns) (hlength : ns.length = 11) :
    ofArgs args = .ok g ↔ ns = g.components.numbers.map fun n : Nat => (n : Int) := by
  have hjoined (g : Guid) :
      ofInt (joined (g.components.numbers.map fun n : Nat => (n : Int))) = .ok g := by
    rw [joined_natCast (fits_numbers g), sum_placed_numbers, ofInt_value]
  constructor
  · intro h
    rcases ofArgs_numbers_cases hns hlength with ⟨hsmall, heq⟩ | ⟨-, heq⟩
    · rw [heq] at h
      have hnonneg : ∀ n ∈ ns, 0 ≤ n := by
        intro n hn
        by_contra hnegative
        have hjoin : joined ns < 0 := (joined_neg_iff hlength).2 ⟨n, hn, Int.not_le.1 hnegative⟩
        rw [ofInt, dif_neg fun hrange => absurd hrange.1 (Int.not_le.2 hjoin)] at h
        cases h
      obtain ⟨ks, rfl⟩ := exists_natCast hnonneg
      obtain ⟨g', rfl⟩ := exists_numbers_eq_iff.2 (small_natCast_iff.1 hsmall)
      rw [hjoined g'] at h
      obtain rfl : g' = g := Except.ok.inj h
      rfl
    · rw [heq] at h
      cases h
  · rintro rfl
    have hsmall := small_natCast_iff.2 (fits_numbers g)
    rcases ofArgs_numbers_cases hns hlength with ⟨-, heq⟩ | ⟨hlarge, -⟩
    · rw [heq, hjoined g]
    · exact absurd hsmall hlarge

/-- Eleven numbers give an identity if none is too large or negative, and only then. -/
theorem exists_ofArgs_iff (hns : args.mapM Value.int? = some ns) (hlength : ns.length = 11) :
    (∃ g, ofArgs args = .ok g) ↔ Small ns ∧ ∀ n ∈ ns, 0 ≤ n := by
  simp only [ofArgs_numbers_iff hns hlength]
  constructor
  · rintro ⟨g, rfl⟩
    refine ⟨small_natCast_iff.2 (fits_numbers g), fun n hn => ?_⟩
    obtain ⟨k, -, rfl⟩ := List.mem_map.1 hn
    exact Int.natCast_nonneg k
  · rintro ⟨hsmall, hnonneg⟩
    obtain ⟨ks, rfl⟩ := exists_natCast hnonneg
    obtain ⟨g, rfl⟩ := exists_numbers_eq_iff.2 (small_natCast_iff.1 hsmall)
    exact ⟨g, rfl⟩

end Bindery.Guid
