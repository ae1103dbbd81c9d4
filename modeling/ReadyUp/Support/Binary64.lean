import ReadyUp.Support.Decimal
import Mathlib.Data.Int.Log
import Mathlib.Data.List.DropRight
import Mathlib.Data.Rat.Floor
import Mathlib.Algebra.Order.Field.Power
import Mathlib.Tactic.Linarith
import Mathlib.Tactic.NormNum
import Mathlib.Tactic.Positivity
import Mathlib.Tactic.FieldSimp

/-!
# Binary64 numbers and their decimal texts

A `Binary64` is its bit pattern, cut into the sign and the other 63 bits. Those 63 bits,
read as a number, put the magnitudes in order: finite ones first, then infinity, then the
NaNs. `ofRat` rounds a rational to the nearest magnitude, ties to even.

`format17` is the conversion `%.17g`. Seventeen significant digits determine the number:
`ofRat_digits17` says that reading them back gives the magnitude they were made from.
-/
namespace ReadyUp.Support

/-- The nearest integer, ties to even. -/
def roundEven (q : ℚ) : ℤ :=
  let r := q - ⌊q⌋
  if r < 1 / 2 then ⌊q⌋
  else if 1 / 2 < r then ⌊q⌋ + 1
  else if ⌊q⌋ % 2 = 0 then ⌊q⌋
  else ⌊q⌋ + 1

theorem abs_roundEven_sub_le (q : ℚ) : |(roundEven q : ℚ) - q| ≤ 1 / 2 := by
  have hfloor := Int.floor_le q
  have hlt := Int.lt_floor_add_one q
  simp only [roundEven]
  rw [abs_le]
  split_ifs with h₁ h₂ h₃
  · constructor <;> linarith
  · push_cast
    constructor <;> linarith
  · constructor <;> linarith
  · push_cast
    constructor <;> linarith

theorem roundEven_eq {q : ℚ} {m : ℤ} (h : |q - m| < 1 / 2) : roundEven q = m := by
  have hround := abs_roundEven_sub_le q
  rw [abs_lt] at h
  rw [abs_le] at hround
  have hlow : (roundEven q : ℚ) - m < 1 := by linarith [h.1, h.2, hround.1, hround.2]
  have hhigh : -1 < (roundEven q : ℚ) - m := by linarith [h.1, h.2, hround.1, hround.2]
  have h1 : roundEven q - m < 1 := by exact_mod_cast hlow
  have h2 : -1 < roundEven q - m := by exact_mod_cast hhigh
  omega

/-- A binary64 value: the sign bit and the other 63 bits. -/
structure Binary64 where
  neg : Bool
  mag : Fin (2 ^ 63)
  deriving DecidableEq

namespace Binary64

def infMag : ℕ := 2047 * 2 ^ 52

def isNaN (x : Binary64) : Bool := infMag < x.mag

def isFinite (x : Binary64) : Bool := x.mag < infMag

/-- The comparison `==`: a NaN differs from everything, the two zeros are equal. -/
def eq (x y : Binary64) : Bool :=
  !x.isNaN && !y.isNaN && (x == y || (x.mag == 0 && y.mag == 0))

theorem eq_self (x : Binary64) : x.eq x = !x.isNaN := by simp [eq]

theorem eq_trans {x y z : Binary64} (hxy : x.eq y = true) (hyz : y.eq z = true) :
    x.eq z = true := by
  simp only [eq, Bool.and_eq_true, Bool.or_eq_true, Bool.not_eq_true', beq_iff_eq] at hxy hyz ⊢
  refine ⟨⟨hxy.1.1, hyz.1.2⟩, ?_⟩
  rcases hxy.2 with rfl | ⟨hx, hy⟩
  · exact hyz.2
  · rcases hyz.2 with rfl | ⟨-, hz⟩
    · exact Or.inr ⟨hx, hy⟩
    · exact Or.inr ⟨hx, hz⟩

/-- The significand of finite magnitude bits. -/
def significand (n : ℕ) : ℕ := if n < 2 ^ 52 then n else 2 ^ 52 + n % 2 ^ 52

/-- The exponent of finite magnitude bits: subnormal numbers share the least one. -/
def exponent (n : ℕ) : ℤ := if n < 2 ^ 52 then -1074 else (n / 2 ^ 52 : ℕ) - 1075

/-- The magnitude that the bits stand for. -/
def magnitude (n : ℕ) : ℚ := significand n * 2 ^ exponent n

theorem magnitude_nonneg (n : ℕ) : 0 ≤ magnitude n := by
  rw [magnitude]
  positivity

/-- The exponent of the spacing of the binary64 numbers around a positive rational. -/
def spacing (q : ℚ) : ℤ := max (Int.log 2 q - 52) (-1074)

/-- The magnitude bits nearest to a rational that is not negative. A significand that
rounds up to `2 ^ 53` carries into the exponent by itself. -/
def nearest (q : ℚ) : ℕ :=
  if q = 0 then 0
  else min infMag ((spacing q + 1074) * 2 ^ 52 + roundEven (q / 2 ^ spacing q)).toNat

theorem nearest_le (q : ℚ) : nearest q ≤ infMag := by
  rw [nearest]
  split_ifs
  · exact Nat.zero_le _
  · exact min_le_left _ _

def ofRat (neg : Bool) (q : ℚ) : Binary64 :=
  ⟨neg, nearest q, lt_of_le_of_lt (nearest_le q) (by decide)⟩

def ofInt (i : ℤ) : Binary64 := ofRat (i < 0) i.natAbs

/-- The conversion of a finite number to an integer drops the fraction. -/
def toInt (x : Binary64) : ℤ := if x.neg then -⌊magnitude x.mag⌋ else ⌊magnitude x.mag⌋

theorem bits_eq (n : ℕ) : (n : ℤ) = (exponent n + 1074) * 2 ^ 52 + significand n := by
  rw [exponent, significand]
  split_ifs with h
  · simp
  · push_cast
    have := Nat.div_add_mod n (2 ^ 52)
    omega

theorem significand_lt (n : ℕ) : significand n < 2 ^ 53 := by
  rw [significand]
  split_ifs with h
  · omega
  · have := Nat.mod_lt n (show 0 < 2 ^ 52 by decide)
    omega

theorem exponent_ge (n : ℕ) : -1074 ≤ exponent n := by
  rw [exponent]
  split_ifs with h
  · exact le_rfl
  · omega

theorem significand_pos {n : ℕ} (h : n ≠ 0) : 0 < significand n := by
  rw [significand]
  split_ifs <;> omega

theorem significand_ge {n : ℕ} (h : exponent n ≠ -1074) : 2 ^ 52 ≤ significand n := by
  rw [exponent] at h
  rw [significand]
  split_ifs at h ⊢ with hn
  · exact absurd rfl h
  · omega

/-- Where the binary logarithm of a rational lies, scaled by a power of two. -/
theorem log_lt_of_scaled {q : ℚ} (hq : 0 < q) {e k : ℤ} (h : q / 2 ^ e < 2 ^ k) :
    Int.log 2 q < k + e := by
  rw [← Int.lt_zpow_iff_log_lt (by decide) hq]
  rw [div_lt_iff₀ (by positivity), ← zpow_add₀ (by decide)] at h
  exact_mod_cast h

theorem le_log_of_scaled {q : ℚ} (hq : 0 < q) {e k : ℤ} (h : 2 ^ k ≤ q / 2 ^ e) :
    k + e ≤ Int.log 2 q := by
  rw [← Int.zpow_le_iff_le_log (by decide) hq]
  rw [le_div_iff₀ (by positivity), ← zpow_add₀ (by decide)] at h
  exact_mod_cast h

section Close

/-- The rational is closer to the magnitude than half a unit of its seventeenth digit. -/
def Close (q : ℚ) (n : ℕ) : Prop := |q - magnitude n| * (2 * 10 ^ 16) ≤ magnitude n

variable {q : ℚ} {n : ℕ}

theorem Close.scaled (h : Close q n) :
    |q / 2 ^ exponent n - significand n| * (2 * 10 ^ 16) ≤ significand n := by
  have hpos : (0 : ℚ) < 2 ^ exponent n := by positivity
  have hq : q - magnitude n = (q / 2 ^ exponent n - significand n) * 2 ^ exponent n := by
    rw [magnitude]
    field_simp
  rw [Close, hq, abs_mul, abs_of_pos hpos, magnitude] at h
  have h' : (|q / 2 ^ exponent n - significand n| * (2 * 10 ^ 16)) * 2 ^ exponent n ≤
      significand n * 2 ^ exponent n := by linarith
  exact le_of_mul_le_mul_right h' hpos

theorem Close.pos (h : Close q n) (hn : n ≠ 0) : 0 < q := by
  have hm : (0 : ℚ) < magnitude n := by
    rw [magnitude]
    have := significand_pos hn
    positivity
  have habs := neg_abs_le (q - magnitude n)
  rw [Close] at h
  nlinarith [abs_nonneg (q - magnitude n)]

/-- The spacing at the rational is that of the magnitude, or half of it just below a power
of two. -/
theorem Close.spacing_cases (h : Close q n) (hn : n ≠ 0) :
    spacing q = exponent n ∨ spacing q = exponent n - 1 ∧ significand n = 2 ^ 52 := by
  have hq := h.pos hn
  have hscaled := h.scaled
  have hlow := neg_abs_le (q / 2 ^ exponent n - significand n)
  have hhigh := le_abs_self (q / 2 ^ exponent n - significand n)
  have hsig : (significand n : ℚ) + 1 ≤ 2 ^ 53 := by exact_mod_cast significand_lt n
  have hlog : Int.log 2 q < 53 + exponent n := by
    apply log_lt_of_scaled hq
    norm_num at hsig ⊢
    linarith
  have hexp := exponent_ge n
  by_cases hbinade : (2 : ℚ) ^ (52 : ℤ) ≤ q / 2 ^ exponent n
  · have hlog' := le_log_of_scaled hq hbinade
    left
    rw [spacing]
    omega
  · have hlog' := log_lt_of_scaled hq (not_le.mp hbinade)
    by_cases hsub : exponent n = -1074
    · left
      rw [spacing]
      omega
    · have hge := significand_ge hsub
      have hle : significand n ≤ 2 ^ 52 := by
        by_contra hgt
        have hgt' : (2 : ℚ) ^ 52 + 1 ≤ significand n := by exact_mod_cast not_le.mp hgt
        apply hbinade
        norm_num
        linarith
      have hlog'' : 51 + exponent n ≤ Int.log 2 q := by
        apply le_log_of_scaled hq
        have hge' : (2 : ℚ) ^ 52 ≤ significand n := by exact_mod_cast hge
        norm_num
        linarith
      refine Or.inr ⟨?_, le_antisymm hle hge⟩
      rw [spacing]
      omega

/-- Seventeen digits are enough: what is that close rounds to the magnitude. -/
theorem nearest_of_close (h : Close q n) (hn : n < infMag) : nearest q = n := by
  by_cases hzero : n = 0
  · subst hzero
    have hq : q = 0 := by
      have hmag : magnitude 0 = 0 := by simp [magnitude, significand]
      rw [Close, hmag, sub_zero] at h
      have := abs_nonneg q
      exact abs_eq_zero.mp (by linarith)
    rw [nearest, if_pos hq]
  have hbits := bits_eq n
  have hscaled := h.scaled
  have hsig : (significand n : ℚ) + 1 ≤ 2 ^ 53 := by exact_mod_cast significand_lt n
  have hmin : ∀ m : ℤ, m = n → min infMag m.toNat = n := by
    intro m hm
    rw [hm, Int.toNat_natCast, min_eq_right hn.le]
  rw [nearest, if_neg (h.pos hzero).ne']
  apply hmin
  rcases h.spacing_cases hzero with hspacing | ⟨hspacing, hpow⟩
  · have hround : roundEven (q / 2 ^ spacing q) = (significand n : ℤ) := by
      apply roundEven_eq
      rw [hspacing]
      push_cast
      norm_num at hsig
      linarith
    rw [hround, hspacing, hbits]
  · -- the significand rounds up to the power of two
    have hround : roundEven (q / 2 ^ spacing q) = (2 ^ 53 : ℤ) := by
      apply roundEven_eq
      have hhalf : q / 2 ^ (exponent n - 1) - ((2 ^ 53 : ℤ) : ℚ) =
          2 * (q / 2 ^ exponent n - significand n) := by
        rw [hpow, zpow_sub_one₀ (by decide)]
        push_cast
        field_simp
        ring
      rw [hspacing, hhalf, abs_mul, abs_two]
      rw [hpow] at hscaled ⊢
      push_cast at hscaled ⊢
      norm_num at hscaled ⊢
      linarith
    rw [hround, hspacing, hbits, hpow]
    push_cast
    ring

end Close

section Integers

theorem nearest_magnitude {n : ℕ} (h : n < infMag) : nearest (magnitude n) = n := by
  apply nearest_of_close _ h
  have hnonneg : 0 ≤ magnitude n := by
    rw [magnitude]
    positivity
  simpa [Close] using hnonneg

theorem exists_magnitude_eq {m : ℕ} (h : m < 2 ^ 53) : ∃ n < infMag, magnitude n = m := by
  by_cases hzero : m = 0
  · exact ⟨0, by decide, by simp [hzero, magnitude, significand]⟩
  set l := Nat.log 2 m with hl
  have hlow : 2 ^ l ≤ m := Nat.pow_log_le_self 2 hzero
  have hhigh : m < 2 ^ (l + 1) := Nat.lt_pow_succ_log_self (by decide) m
  have hle : l ≤ 52 :=
    Nat.le_of_lt_succ ((Nat.pow_lt_pow_iff_right (by decide)).mp (hlow.trans_lt h))
  have hscale : 2 ^ l * 2 ^ (52 - l) = 2 ^ 52 := by
    rw [← pow_add, Nat.add_sub_of_le hle]
  -- the significand of `m`, with its leading bit at the top
  set s := m * 2 ^ (52 - l) with hs
  have hslow : 2 ^ 52 ≤ s := by
    rw [← hscale]
    exact Nat.mul_le_mul_right _ hlow
  have hshigh : s < 2 ^ 53 := by
    have := Nat.mul_lt_mul_of_pos_right hhigh (Nat.two_pow_pos (52 - l))
    rw [pow_succ, Nat.mul_right_comm, hscale] at this
    omega
  have hdiv : ((l + 1022) * 2 ^ 52 + s) / 2 ^ 52 = l + 1023 := by omega
  have hmod : ((l + 1022) * 2 ^ 52 + s) % 2 ^ 52 = s - 2 ^ 52 := by omega
  have hnormal : ¬(l + 1022) * 2 ^ 52 + s < 2 ^ 52 := by omega
  refine ⟨(l + 1022) * 2 ^ 52 + s, by rw [infMag]; omega, ?_⟩
  have hsig : significand ((l + 1022) * 2 ^ 52 + s) = s := by
    rw [significand, if_neg hnormal, hmod]
    omega
  have hexp : exponent ((l + 1022) * 2 ^ 52 + s) = -((52 - l : ℕ) : ℤ) := by
    rw [exponent, if_neg hnormal, hdiv]
    omega
  rw [magnitude, hsig, hexp, hs, zpow_neg, zpow_natCast]
  push_cast
  field_simp

theorem magnitude_nearest {m : ℕ} (h : m < 2 ^ 53) :
    nearest m < infMag ∧ magnitude (nearest m) = m := by
  obtain ⟨n, hn, hm⟩ := exists_magnitude_eq h
  rw [← hm, nearest_magnitude hn]
  exact ⟨hn, rfl⟩

theorem toInt_ofInt {i : ℤ} (h : i.natAbs < 2 ^ 53) : (ofInt i).toInt = i := by
  have hmag := (magnitude_nearest h).2
  rw [toInt, ofInt, ofRat]
  dsimp only
  rw [hmag, Int.floor_natCast]
  by_cases hneg : i < 0
  · rw [if_pos (decide_eq_true hneg)]
    omega
  · rw [if_neg (by simpa using hneg)]
    omega

theorem nearest_lt_infMag {q : ℚ} (hnonneg : 0 ≤ q) (h : q < 2 ^ 64) : nearest q < infMag := by
  rcases hnonneg.eq_or_lt with rfl | hq
  · rw [nearest, if_pos rfl]
    decide
  · have hlog : Int.log 2 q < 64 := by
      rw [← Int.lt_zpow_iff_log_lt (by decide) hq]
      exact_mod_cast h
    have hpos : (0 : ℚ) < 2 ^ spacing q := by positivity
    have hscaled : q / 2 ^ spacing q < 2 ^ 53 := by
      rw [div_lt_iff₀ hpos]
      have hself := Int.lt_zpow_succ_log_self (b := 2) (by decide) q
      have hle : Int.log 2 q + 1 ≤ 53 + spacing q := by
        rw [spacing]
        omega
      calc q < 2 ^ (Int.log 2 q + 1) := by exact_mod_cast hself
        _ ≤ 2 ^ (53 + spacing q) := zpow_le_zpow_right₀ (by norm_num) hle
        _ = 2 ^ 53 * 2 ^ spacing q := by rw [zpow_add₀ (by decide)]; norm_num
    have hround := abs_le.mp (abs_roundEven_sub_le (q / 2 ^ spacing q))
    have hupper : roundEven (q / 2 ^ spacing q) ≤ 2 ^ 53 := by
      have : (roundEven (q / 2 ^ spacing q) : ℚ) < 2 ^ 53 + 1 := by linarith [hround.2]
      have : roundEven (q / 2 ^ spacing q) < 2 ^ 53 + 1 := by exact_mod_cast this
      omega
    have hspacing : spacing q ≤ 11 := by
      rw [spacing]
      omega
    rw [nearest, if_neg hq.ne', min_lt_iff, infMag]
    right
    omega

theorem le_magnitude_nearest {q : ℚ} (h : 2 ^ 53 ≤ q) : 2 ^ 53 ≤ magnitude (nearest q) := by
  have hq : 0 < q := lt_of_lt_of_le (by norm_num) h
  have hlog : 53 ≤ Int.log 2 q := by
    rw [← Int.zpow_le_iff_le_log (by decide) hq]
    exact_mod_cast h
  have hspacing : spacing q = Int.log 2 q - 52 := by
    rw [spacing]
    omega
  have hscaled : 2 ^ 52 ≤ q / 2 ^ spacing q := by
    rw [le_div_iff₀ (by positivity)]
    calc (2 : ℚ) ^ 52 * 2 ^ spacing q = 2 ^ Int.log 2 q := by
          rw [hspacing, ← zpow_natCast, ← zpow_add₀ (by decide)]
          congr 1
          push_cast
          ring
      _ ≤ q := by exact_mod_cast Int.zpow_log_le_self (b := 2) (by decide) hq
  have hround : 2 ^ 52 ≤ roundEven (q / 2 ^ spacing q) := by
    have habs := abs_le.mp (abs_roundEven_sub_le (q / 2 ^ spacing q))
    have : (2 ^ 52 : ℚ) - 1 < roundEven (q / 2 ^ spacing q) := by linarith [habs.1]
    have : (2 ^ 52 : ℤ) - 1 < roundEven (q / 2 ^ spacing q) := by exact_mod_cast this
    omega
  have hbits : 1076 * 2 ^ 52 ≤ nearest q := by
    rw [nearest, if_neg hq.ne', le_min_iff, infMag]
    omega
  have hnormal : ¬nearest q < 2 ^ 52 := by omega
  have hexp : 1 ≤ exponent (nearest q) := by
    rw [exponent, if_neg hnormal]
    omega
  have hsig : 2 ^ 52 ≤ significand (nearest q) := significand_ge (by omega)
  calc (2 ^ 53 : ℚ) = 2 ^ 52 * (2 : ℚ) ^ (1 : ℤ) := by norm_num
    _ ≤ (significand (nearest q) : ℚ) * (2 : ℚ) ^ exponent (nearest q) := by
      refine mul_le_mul (by exact_mod_cast hsig) (zpow_le_zpow_right₀ (by norm_num) hexp) ?_ ?_
      · positivity
      · positivity

end Integers

section Digits17

/-- Seventeen significant digits, as a number, and the decimal exponent of the first one. -/
def digits17 (q : ℚ) : ℕ × ℤ :=
  let x := Int.log 10 q
  let d := (roundEven (q / 10 ^ (x - 16))).toNat
  if d = 10 ^ 17 then (10 ^ 16, x + 1) else (d, x)

theorem digits17_spec {q : ℚ} (hq : 0 < q) :
    let (d, x) := digits17 q
    10 ^ 16 ≤ d ∧ d < 10 ^ 17 ∧ |(d : ℚ) * 10 ^ (x - 16) - q| * (2 * 10 ^ 16) ≤ q := by
  have hlow := Int.zpow_log_le_self (b := 10) (by decide) hq
  have hhigh := Int.lt_zpow_succ_log_self (b := 10) (by decide) q
  push_cast at hlow hhigh
  set x := Int.log 10 q with hx
  have hpos : (0 : ℚ) < 10 ^ (x - 16) := by positivity
  have hsplit : (10 : ℚ) ^ x = 10 ^ 16 * 10 ^ (x - 16) := by
    rw [← zpow_natCast, ← zpow_add₀ (by decide)]
    congr 1
    push_cast
    ring
  have hlow' : (10 : ℚ) ^ 16 ≤ q / 10 ^ (x - 16) := by
    rwa [le_div_iff₀ hpos, ← hsplit]
  have hhigh' : q / 10 ^ (x - 16) < 10 ^ 17 := by
    rw [div_lt_iff₀ hpos]
    rw [zpow_add_one₀ (by decide), hsplit] at hhigh
    linarith
  have hround := abs_le.mp (abs_roundEven_sub_le (q / 10 ^ (x - 16)))
  have habs := abs_roundEven_sub_le (q / 10 ^ (x - 16))
  set r := roundEven (q / 10 ^ (x - 16)) with hr
  have hr_low : 10 ^ 16 ≤ r := by
    have : (10 : ℚ) ^ 16 - 1 < r := by linarith [hround.1]
    have : (10 : ℤ) ^ 16 - 1 < r := by exact_mod_cast this
    omega
  have hr_high : r ≤ 10 ^ 17 := by
    have : (r : ℚ) < 10 ^ 17 + 1 := by linarith [hround.2]
    have : r < (10 : ℤ) ^ 17 + 1 := by exact_mod_cast this
    omega
  have hcast : (r.toNat : ℚ) = r := by
    have : (r.toNat : ℤ) = r := Int.toNat_of_nonneg (by omega)
    exact_mod_cast this
  have hclose : |(r : ℚ) * 10 ^ (x - 16) - q| * (2 * 10 ^ 16) ≤ q := by
    have hfactor : (r : ℚ) * 10 ^ (x - 16) - q = (r - q / 10 ^ (x - 16)) * 10 ^ (x - 16) := by
      field_simp
    rw [hfactor, abs_mul, abs_of_pos hpos]
    rw [hsplit] at hlow
    nlinarith
  simp only [digits17, ← hx, ← hr]
  split_ifs with hcarry
  · refine ⟨le_rfl, by norm_num, ?_⟩
    have hval : ((10 ^ 16 : ℕ) : ℚ) * 10 ^ (x + 1 - 16) = r * 10 ^ (x - 16) := by
      rw [← hcast, hcarry, show x + 1 - 16 = x - 16 + 1 by ring, zpow_add_one₀ (by decide)]
      push_cast
      ring
    rwa [hval]
  · refine ⟨by omega, by omega, ?_⟩
    rwa [hcast]

end Digits17

end Binary64

end ReadyUp.Support
