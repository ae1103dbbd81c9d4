import Mathlib.Data.Nat.Digits.Lemmas
import Mathlib.Data.Int.Basic
import Mathlib.Tactic.Common

/-!
# Bytes and decimal numbers in text

Text is a list of bytes. `decimal` writes a natural number, `ofDigits` reads a run of
digits, and the two are inverse; `toDecimal` writes an integer with its sign.
-/
namespace ReadyUp.Support

/-- The bytes of a `std::string`. -/
abbrev Bytes := List UInt8

instance (s : Bytes) (l : List Bytes) : Decidable (s ∈ l) := inferInstance

/-- The bytes of a text of ASCII characters. -/
def ascii (s : String) : Bytes := s.toList.map fun c => c.toNat.toUInt8

def byte (c : Char) : UInt8 := c.toNat.toUInt8

def isDigit (c : UInt8) : Bool := byte '0' ≤ c && c ≤ byte '9'

def digit (d : ℕ) : UInt8 := (48 + d).toUInt8

def digitValue (c : UInt8) : ℕ := c.toNat - 48

/-- A run of digits, read as a number. -/
def ofDigits (s : Bytes) : ℕ := s.foldl (fun n c => 10 * n + digitValue c) 0

def decimal (n : ℕ) : Bytes :=
  if n = 0 then [digit 0] else (Nat.digits 10 n).reverse.map digit

/-- `std::to_string` of an integer. -/
def toDecimal (i : ℤ) : Bytes := (if i < 0 then [byte '-'] else []) ++ decimal i.natAbs

theorem isDigit_digit {d : ℕ} (h : d < 10) : isDigit (digit d) = true := by
  interval_cases d <;> decide

theorem digitValue_digit {d : ℕ} (h : d < 10) : digitValue (digit d) = d := by
  interval_cases d <;> decide

theorem digitValue_lt {c : UInt8} (h : isDigit c = true) : digitValue c < 10 := by
  simp only [isDigit, Bool.and_eq_true, decide_eq_true_eq, UInt8.le_iff_toNat_le] at h
  have h9 : (byte '9').toNat = 57 := by decide
  rw [digitValue]
  omega

theorem exists_digit {c : UInt8} (h : isDigit c = true) : ∃ d < 10, c = digit d := by
  refine ⟨digitValue c, digitValue_lt h, ?_⟩
  simp only [isDigit, Bool.and_eq_true, decide_eq_true_eq, UInt8.le_iff_toNat_le] at h
  have h0 : (byte '0').toNat = 48 := by decide
  have hc : 48 + digitValue c = c.toNat := by
    rw [digitValue]
    omega
  rw [digit, hc]
  exact (UInt8.ofNat_toNat).symm

@[simp] theorem ofDigits_nil : ofDigits [] = 0 := rfl

theorem foldl_digits (s : Bytes) (n : ℕ) :
    s.foldl (fun n c => 10 * n + digitValue c) n = n * 10 ^ s.length + ofDigits s := by
  induction s generalizing n with
  | nil => simp
  | cons c s ih =>
    have hcons : ofDigits (c :: s) = (10 * 0 + digitValue c) * 10 ^ s.length + ofDigits s := by
      rw [← ih]
      rfl
    rw [List.foldl_cons, ih, hcons, List.length_cons, pow_succ]
    ring

theorem ofDigits_append (s t : Bytes) :
    ofDigits (s ++ t) = ofDigits s * 10 ^ t.length + ofDigits t := by
  rw [ofDigits, List.foldl_append, foldl_digits]
  rfl

theorem ofDigits_cons (c : UInt8) (s : Bytes) :
    ofDigits (c :: s) = digitValue c * 10 ^ s.length + ofDigits s := by
  have h := ofDigits_append [c] s
  simpa [ofDigits] using h

theorem ofDigits_lt {s : Bytes} (h : ∀ c ∈ s, isDigit c = true) : ofDigits s < 10 ^ s.length := by
  induction s with
  | nil => decide
  | cons c s ih =>
    have hc := digitValue_lt (h c List.mem_cons_self)
    have hs := ih fun d hd => h d (List.mem_cons_of_mem _ hd)
    rw [ofDigits_cons, List.length_cons, pow_succ]
    nlinarith [pow_pos (show 0 < 10 by decide) s.length]

theorem ofDigits_reverse_map (l : List ℕ) (h : ∀ d ∈ l, d < 10) :
    ofDigits (l.reverse.map digit) = Nat.ofDigits 10 l := by
  induction l with
  | nil => rfl
  | cons d l ih =>
    rw [List.forall_mem_cons] at h
    rw [List.reverse_cons, List.map_append, ofDigits_append, ih h.2, Nat.ofDigits_cons]
    simp only [List.map_cons, List.map_nil, List.length_singleton, ofDigits_cons,
      digitValue_digit h.1, List.length_nil, ofDigits_nil]
    ring

theorem ofDigits_decimal (n : ℕ) : ofDigits (decimal n) = n := by
  rw [decimal]
  split_ifs with h
  · rw [h]
    decide
  · rw [ofDigits_reverse_map _ fun d hd => Nat.digits_lt_base (by decide) hd]
    exact Nat.ofDigits_digits 10 n

theorem decimal_isDigit (n : ℕ) : ∀ c ∈ decimal n, isDigit c = true := by
  intro c hc
  rw [decimal] at hc
  split_ifs at hc
  · rw [List.mem_singleton] at hc
    rw [hc]
    decide
  · obtain ⟨d, hd, rfl⟩ := List.mem_map.mp hc
    exact isDigit_digit (Nat.digits_lt_base (by decide) (List.mem_reverse.mp hd))

theorem decimal_ne_nil (n : ℕ) : decimal n ≠ [] := by
  rw [decimal]
  split_ifs with h
  · exact List.cons_ne_nil _ _
  · simp [Nat.digits_ne_nil_iff_ne_zero.mpr h]

theorem length_decimal_le {n k : ℕ} (hk : 0 < k) (hn : n < 10 ^ k) : (decimal n).length ≤ k := by
  unfold decimal
  split_ifs
  · exact hk
  · rw [List.length_map, List.length_reverse]
    exact (Nat.digits_length_le_iff (by decide) n).mpr hn

theorem length_decimal {n k : ℕ} (hlow : 10 ^ k ≤ n) (hhigh : n < 10 ^ (k + 1)) :
    (decimal n).length = k + 1 := by
  have hn : n ≠ 0 := by
    rintro rfl
    exact absurd hlow (by simp)
  rw [decimal, if_neg hn, List.length_map, List.length_reverse,
    Nat.length_digits 10 n (by decide) hn]
  rw [Nat.log_eq_of_pow_le_of_lt_pow hlow hhigh]

end ReadyUp.Support
