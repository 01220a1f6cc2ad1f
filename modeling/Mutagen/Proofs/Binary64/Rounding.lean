import Mutagen.Binary64.Shortest

set_option autoImplicit false

namespace Mutagen.Binary64

theorem round_half_even_scale (n d k : Nat) (hk : 0 < k) :
    roundHalfEven (n * k) (d * k) = roundHalfEven n d := by
  have lower : 2 * (n % d * k) < d * k ↔ 2 * (n % d) < d := by
    rw [← Nat.mul_assoc, Nat.mul_lt_mul_right hk]
  have upper : d * k < 2 * (n % d * k) ↔ d < 2 * (n % d) := by
    rw [← Nat.mul_assoc, Nat.mul_lt_mul_right hk]
  simp only [roundHalfEven, Nat.mul_div_mul_right n d hk, Nat.mul_mod_mul_right, lower, upper]

theorem round_half_even_exact (q d : Nat) (hd : 0 < d) : roundHalfEven (q * d) d = q := by
  rw [roundHalfEven, Nat.mul_mod_left, Nat.mul_div_cancel q hd, if_pos (by omega)]

theorem nearest_scale (n d k : Nat) (hk : 0 < k) : nearest (n * k) (d * k) = nearest n d := by
  have scaled : n * k * 2 ^ 1074 = n * 2 ^ 1074 * k := Nat.mul_right_comm n k _
  simp only [nearest, scaled, Nat.mul_div_mul_right _ d hk]
  rw [Nat.mul_right_comm d k, round_half_even_scale _ _ _ hk]

theorem nearest_congr {n d n' d' : Nat} (hd : 0 < d) (hd' : 0 < d') (same : n * d' = n' * d) :
    nearest n d = nearest n' d' := by
  rw [← nearest_scale n d d' hd', same, Nat.mul_comm d d', nearest_scale n' d' d hd]

-- The two limits outside which no power of ten is computed.
theorem nearest_large (n d : Nat) (hd : 0 < d) (large : 2 ^ 1203 * d ≤ n) :
    nearest n d = infinite := by
  have quotient : 2 ^ (1203 + 1074) ≤ n * 2 ^ 1074 / d := by
    rw [Nat.le_div_iff_mul_le hd, Nat.pow_add 2 1203 1074, Nat.mul_right_comm]
    exact Nat.mul_le_mul_right _ large
  have positive : n * 2 ^ 1074 / d ≠ 0 := Nat.ne_of_gt (Nat.lt_of_lt_of_le (Nat.two_pow_pos _) quotient)
  have exponent : 1203 + 1074 ≤ (n * 2 ^ 1074 / d).log2 := (Nat.le_log2 positive).mpr quotient
  have enough : 2047 + 52 ≤ 1203 + 1074 := by decide
  have binade : 2047 * 2 ^ 52 ≤ ((n * 2 ^ 1074 / d).log2 - 52) * 2 ^ 52 :=
    Nat.mul_le_mul_right _ (Nat.le_sub_of_add_le (Nat.le_trans enough exponent))
  exact Nat.min_eq_right (Nat.le_trans binade (Nat.le_add_right _ _))

theorem nearest_small (n d : Nat) (small : n * 2 ^ 1075 < d) : nearest n d = 0 := by
  have half : 2 * (n * 2 ^ 1074) < d := by
    rw [Nat.pow_succ, ← Nat.mul_assoc, Nat.mul_comm] at small
    exact small
  have below : n * 2 ^ 1074 < d := Nat.lt_of_le_of_lt (Nat.le_mul_of_pos_left _ (by decide)) half
  have quotient : n * 2 ^ 1074 / d = 0 := Nat.div_eq_of_lt below
  have rounded : roundHalfEven (n * 2 ^ 1074) d = 0 := by
    rw [roundHalfEven, quotient, Nat.mod_eq_of_lt below, if_pos half]
  rw [nearest]
  simp only [quotient, Nat.log2_zero, Nat.zero_sub, Nat.pow_zero, Nat.mul_one, rounded,
    Nat.zero_mul, Nat.zero_add, Nat.zero_min]

theorem ten_pow_ge (k : Nat) : 2 ^ (3 * k) ≤ 10 ^ k := by
  rw [Nat.pow_mul]
  exact Nat.pow_le_pow_left (by decide) k

theorem nearest_decimal_eq (n : Nat) (e : Int) :
    nearestDecimal n e = nearest (n * 10 ^ e.toNat) (10 ^ (-e).toNat) := by
  have positive : 0 < 10 ^ (-e).toNat := Nat.pow_pos (by decide)
  unfold nearestDecimal
  split
  · rename_i zero
    have small : 0 * 2 ^ 1075 < 10 ^ (-e).toNat := by rw [Nat.zero_mul]; exact positive
    rw [zero, Nat.zero_mul, nearest_small _ _ small]
  · rename_i nonzero
    split
    · rename_i high
      have power : 2 ^ (3 * 401) ≤ 10 ^ e.toNat :=
        Nat.le_trans (ten_pow_ge 401) (Nat.pow_le_pow_right (by decide) (by omega))
      have unit : (-e).toNat = 0 := by omega
      rw [unit, Nat.pow_zero, nearest_large _ 1 Nat.one_pos]
      rw [Nat.mul_one]
      exact Nat.le_trans power (Nat.le_mul_of_pos_left _ (Nat.pos_of_ne_zero nonzero))
    · split
      · rename_i low
        have whole : e.toNat = 0 := by omega
        have bound : n < 10 ^ (n.log2 + 1) :=
          Nat.lt_of_lt_of_le Nat.lt_log2_self (Nat.pow_le_pow_left (by decide) _)
        have power : 2 ^ 1075 ≤ 10 ^ 400 :=
          Nat.le_trans (Nat.pow_le_pow_right (by decide) (by decide)) (ten_pow_ge 400)
        rw [whole, Nat.pow_zero, Nat.mul_one, nearest_small]
        calc
          n * 2 ^ 1075 < 10 ^ (n.log2 + 1) * 2 ^ 1075 := Nat.mul_lt_mul_of_pos_right bound (Nat.two_pow_pos _)
          _ ≤ 10 ^ (n.log2 + 1) * 10 ^ 400 := Nat.mul_le_mul_left _ power
          _ = 10 ^ (n.log2 + 1 + 400) := (Nat.pow_add _ _ _).symm
          _ ≤ 10 ^ (-e).toNat := Nat.pow_le_pow_right (by decide) (by omega)
      · split
        · rename_i whole
          have unit : (-e).toNat = 0 := by omega
          rw [unit, Nat.pow_zero]
        · rename_i fraction
          rw [show e.toNat = 0 by omega, Nat.pow_zero, Nat.mul_one]

theorem nearest_decimal_shift (n k : Nat) (e : Int) :
    nearestDecimal (n * 10 ^ k) (e - k) = nearestDecimal n e := by
  rw [nearest_decimal_eq, nearest_decimal_eq]
  refine nearest_congr (Nat.pow_pos (by decide)) (Nat.pow_pos (by decide)) ?_
  have exponents : k + (e - k).toNat + (-e).toNat = e.toNat + (-(e - k)).toNat := by omega
  rw [Nat.mul_assoc, Nat.mul_assoc, Nat.mul_assoc, ← Nat.pow_add, ← Nat.pow_add, ← Nat.pow_add,
    ← Nat.add_assoc, exponents]

theorem nearest_units (magnitude : Nat) (bounded : magnitude ≤ infinite) :
    nearest (units magnitude) (2 ^ 1074) = magnitude := by
  have split := Nat.div_add_mod magnitude (2 ^ 52)
  have remainder := Nat.mod_lt magnitude (Nat.two_pow_pos 52)
  obtain ⟨b, hb⟩ : ∃ b, b = binade magnitude := ⟨_, rfl⟩
  obtain ⟨s, hs⟩ : ∃ s, s = magnitude - b * 2 ^ 52 := ⟨_, rfl⟩
  have whole : b * 2 ^ 52 + s = magnitude := by
    have := Nat.mul_le_mul_right (2 ^ 52) (show b ≤ magnitude / 2 ^ 52 by rw [hb, binade]; omega)
    omega
  have unitsEq : units magnitude = s * 2 ^ b := by rw [units, ← hb, ← hs]
  -- The significand decides the binade again: it has 53 bits above the lowest binade.
  have exponent : (s * 2 ^ b).log2 - 52 = b := by
    by_cases zero : b = 0
    · have small : s < 2 ^ 53 := by
        rw [binade] at hb
        omega
      by_cases empty : s = 0
      · simp [zero, empty]
      · rw [zero, Nat.pow_zero, Nat.mul_one]
        have := (Nat.log2_lt empty).mpr small
        omega
    · have low : 2 ^ 52 ≤ s := by
        rw [binade] at hb
        omega
      have high : s < 2 ^ 53 := by
        rw [binade] at hb
        omega
      have positive : s * 2 ^ b ≠ 0 := Nat.ne_of_gt (Nat.mul_pos (by omega) (Nat.two_pow_pos b))
      have atLeast : 52 + b ≤ (s * 2 ^ b).log2 := by
        rw [Nat.le_log2 positive, Nat.pow_add]
        exact Nat.mul_le_mul_right _ low
      have below : (s * 2 ^ b).log2 < 53 + b := by
        rw [Nat.log2_lt positive, Nat.pow_add]
        exact Nat.mul_lt_mul_of_pos_right high (Nat.two_pow_pos b)
      omega
  have rounded : roundHalfEven (s * 2 ^ b * 2 ^ 1074) (2 ^ 1074 * 2 ^ b) = s := by
    rw [Nat.mul_assoc, Nat.mul_comm (2 ^ b)]
    exact round_half_even_exact s _ (Nat.mul_pos (Nat.two_pow_pos _) (Nat.two_pow_pos _))
  rw [unitsEq, nearest]
  simp only [Nat.mul_div_cancel _ (Nat.two_pow_pos 1074), exponent, rounded, whole]
  exact Nat.min_eq_left bounded

theorem coefficient_reads_back (magnitude : Nat) (bounded : magnitude ≤ infinite) :
    nearestDecimal (coefficient magnitude).1 (coefficient magnitude).2 = magnitude := by
  have grid (e : Int) (n : Nat) (found : onGrid? magnitude e = some n) :
      nearestDecimal n e = magnitude := by
    simp only [onGrid?] at found
    split at found
    · rename_i lower
      split at found
      · rename_i upper
        simp only [Bool.and_eq_true, beq_iff_eq] at upper
        exact Option.some.inj found ▸ upper.2
      · exact Option.some.inj found ▸ beq_iff_eq.mp lower
    · split at found
      · rename_i upper
        exact Option.some.inj found ▸ beq_iff_eq.mp upper
      · simp at found
  rw [coefficient]
  cases search : (List.range 17).findSome? fun (places : Nat) =>
      (onGrid? magnitude (leadingExponent magnitude - places)).map (·, leadingExponent magnitude - places) with
  | some found =>
      obtain ⟨places, _, hit⟩ := List.exists_of_findSome?_eq_some search
      obtain ⟨n, onGrid, rfl⟩ := Option.map_eq_some_iff.mp hit
      exact grid _ n onGrid
  | none =>
      have scaled (k : Nat) : nearest (units magnitude * 5 ^ k) (10 ^ k) = nearest (units magnitude) (2 ^ k) := by
        have tens : 10 ^ k = 2 ^ k * 5 ^ k := by rw [← Nat.mul_pow]
        rw [tens, nearest_scale _ _ _ (Nat.pow_pos (by decide))]
      have exact := (scaled 1074).trans (nearest_units magnitude bounded)
      rw [Option.getD_none, nearest_decimal_eq]
      simpa using exact

end Mutagen.Binary64
