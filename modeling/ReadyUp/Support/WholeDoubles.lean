import ReadyUp.Support.Binary64

/-!
# Integers that are doubles

A double has 53 bits, so the integers that are doubles are those of so many bits and their multiples
by powers of two (`IsDouble`). They are converted exactly, and what is converted exactly is one of
them (`floor_nearest_mod_iff`), even when the conversion back wraps around.
-/
namespace ReadyUp.Support.Binary64

def IsDouble (a : ℕ) : Prop := ∃ m k, a = m * 2 ^ k ∧ m < 2 ^ 53

variable {a m n k : ℕ}

theorem isDouble_of_lt (h : a < 2 ^ 53) : IsDouble a := ⟨a, 0, by simp, h⟩

theorem normal_of_one_le (h : 1 ≤ magnitude n) : 2 ^ 52 ≤ n := by
  by_contra hlt
  rw [not_le] at hlt
  have hexp : exponent n = -1074 := by
    rw [exponent, if_pos hlt]
  have hsig : (significand n : ℚ) < 2 ^ 53 := by exact_mod_cast significand_lt n
  have hsmall : (2 : ℚ) ^ (-1074 : ℤ) ≤ 2 ^ (-53 : ℤ) :=
    zpow_le_zpow_right₀ (by norm_num) (by norm_num)
  have hpos : (0 : ℚ) < 2 ^ (-53 : ℤ) := by positivity
  have hone : (2 : ℚ) ^ 53 * 2 ^ (-53 : ℤ) = 1 := by norm_num
  rw [magnitude, hexp] at h
  have hnonneg : (0 : ℚ) ≤ significand n := by positivity
  have := mul_le_mul_of_nonneg_left hsmall hnonneg
  have := mul_lt_mul_of_pos_right hsig hpos
  linarith

theorem magnitude_shift (hn : 2 ^ 52 ≤ n) (k : ℕ) :
    magnitude (n + k * 2 ^ 52) = magnitude n * 2 ^ k := by
  have hsig : significand (n + k * 2 ^ 52) = significand n := by
    rw [significand, significand, if_neg (by omega), if_neg (by omega), Nat.add_mul_mod_self_right]
  have hexp : exponent (n + k * 2 ^ 52) = exponent n + k := by
    rw [exponent, exponent, if_neg (by omega), if_neg (by omega),
      Nat.add_mul_div_right _ _ (by norm_num)]
    push_cast
    omega
  rw [magnitude, magnitude, hsig, hexp, zpow_add₀ (by norm_num), zpow_natCast]
  ring

theorem IsDouble.exists_magnitude (h : IsDouble a) (hlt : a < 2 ^ 64) :
    ∃ n < infMag, magnitude n = a := by
  obtain ⟨m, k, rfl, hm⟩ := h
  obtain ⟨n, hn, hmag⟩ := exists_magnitude_eq hm
  by_cases hzero : m = 0
  · exact ⟨n, hn, by rw [hmag, hzero]; simp⟩
  have hone : 1 ≤ magnitude n := by
    rw [hmag]
    exact_mod_cast Nat.one_le_iff_ne_zero.mpr hzero
  have hnormal := normal_of_one_le hone
  have hk : k < 64 := by
    have hpow : 2 ^ k < 2 ^ 64 :=
      lt_of_le_of_lt (Nat.le_mul_of_pos_left _ (Nat.pos_of_ne_zero hzero)) hlt
    exact (Nat.pow_lt_pow_iff_right (by norm_num)).mp hpow
  -- below two to the 53 the exponent is at most zero
  have hexp : exponent n ≤ 0 := by
    by_contra hpos
    rw [not_le] at hpos
    have hsig : (2 : ℚ) ^ 52 ≤ significand n := by
      exact_mod_cast significand_ge (n := n) (by omega)
    have htwo : (2 : ℚ) ^ (1 : ℤ) ≤ 2 ^ exponent n := zpow_le_zpow_right₀ (by norm_num) (by omega)
    have hle : (2 : ℚ) ^ 52 * 2 ^ (1 : ℤ) ≤ magnitude n := by
      rw [magnitude]
      exact mul_le_mul hsig htwo (by positivity) (by positivity)
    rw [hmag] at hle
    have hlt' : (m : ℚ) < 2 ^ 53 := by exact_mod_cast hm
    norm_num at hle hlt'
    linarith
  have hbits : n < 1076 * 2 ^ 52 := by
    rw [exponent, if_neg (by omega)] at hexp
    omega
  refine ⟨n + k * 2 ^ 52, ?_, ?_⟩
  · rw [infMag]
    omega
  · rw [magnitude_shift hnormal, hmag]
    push_cast
    rfl

theorem IsDouble.magnitude_nearest (h : IsDouble a) (hlt : a < 2 ^ 64) :
    magnitude (nearest a) = a := by
  obtain ⟨n, hn, hmag⟩ := h.exists_magnitude hlt
  rw [← hmag, nearest_magnitude hn]

theorem exists_of_le_magnitude (h : 2 ^ 53 ≤ magnitude n) :
    ∃ m k, magnitude n = (m * 2 ^ k : ℕ) ∧ m < 2 ^ 53 := by
  have hsig : (significand n : ℚ) < 2 ^ 53 := by exact_mod_cast significand_lt n
  have hexp : 0 < exponent n := by
    by_contra hle
    rw [not_lt] at hle
    have hone : (2 : ℚ) ^ exponent n ≤ 1 := zpow_le_one_of_nonpos₀ (by norm_num) hle
    have hnonneg : (0 : ℚ) ≤ significand n := by positivity
    have := mul_le_mul_of_nonneg_left hone hnonneg
    rw [magnitude] at h
    linarith
  obtain ⟨k, hk⟩ := Int.eq_ofNat_of_zero_le hexp.le
  refine ⟨significand n, k, ?_, significand_lt n⟩
  rw [magnitude, hk]
  push_cast
  rw [zpow_natCast]

/-- What wraps around to the integer is a double only if the integer is one. -/
theorem isDouble_of_wrap {f : ℕ} (hf : IsDouble f) (hmod : f % 2 ^ 64 = a) : IsDouble a := by
  obtain ⟨m, k, rfl, hm⟩ := hf
  by_cases hk : k ≤ 64
  · have hpow : 2 ^ k * 2 ^ (64 - k) = 2 ^ 64 := by
      rw [← pow_add, Nat.add_sub_of_le hk]
    refine ⟨m % 2 ^ (64 - k), k, ?_, lt_of_le_of_lt (Nat.mod_le _ _) hm⟩
    rw [← hmod, ← hpow, Nat.mul_comm m, Nat.mul_mod_mul_left, Nat.mul_comm]
  · have hpow : 2 ^ k = 2 ^ 64 * 2 ^ (k - 64) := by
      rw [← pow_add, Nat.add_sub_of_le (by omega)]
    rw [hpow, Nat.mul_left_comm, Nat.mul_mod_right] at hmod
    rw [← hmod]
    exact isDouble_of_lt (by norm_num)

/-- The nearest double to an integer, as an integer that wraps around, is that integer exactly when
the integer is a double. -/
theorem floor_nearest_mod_iff (ha : a < 2 ^ 64) :
    ⌊magnitude (nearest a)⌋ % 2 ^ 64 = (a : ℤ) ↔ IsDouble a := by
  constructor
  · intro h
    by_cases hsmall : a < 2 ^ 53
    · exact isDouble_of_lt hsmall
    · have hlarge : (2 : ℚ) ^ 53 ≤ a := by exact_mod_cast not_lt.mp hsmall
      obtain ⟨m, k, hmag, hm⟩ := exists_of_le_magnitude (le_magnitude_nearest hlarge)
      rw [hmag, Int.floor_natCast] at h
      exact isDouble_of_wrap ⟨m, k, rfl, hm⟩ (by exact_mod_cast h)
  · intro h
    rw [h.magnitude_nearest ha, Int.floor_natCast]
    omega

end ReadyUp.Support.Binary64
