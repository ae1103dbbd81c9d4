import ReadyUp.Support.Strto

/-!
# Numbers in hexadecimal text

`hexText` writes a number with a fixed number of digits, as `%016llx` does, and `strtoullHex` reads
one as `strtoull` does with base 16 (`strtoullHex_hexText`).
-/
namespace ReadyUp.Support

open JsonScan

/-- The last `k` hexadecimal digits of a number. -/
def hexText : ℕ → ℕ → Bytes
  | 0, _ => []
  | k + 1, n => hexText k (n / 16) ++ [hexDigit (n % 16)]

/-- The text after a `0x` that a digit follows. -/
def dropHexPrefix : Bytes → Bytes
  | a :: x :: d :: s =>
    if a = byte '0' ∧ (x = byte 'x' ∨ x = byte 'X') ∧ isHexDigit d = true then d :: s
    else a :: x :: d :: s
  | s => s

/-- `strtoull` with base 16: a number that is too large saturates, a minus sign negates. -/
def strtoullHex (s : Bytes) : ℕ :=
  let (neg, s) := sign (s.dropWhile isSpace)
  let n := ofHexDigits ((dropHexPrefix s).takeWhile isHexDigit)
  if 2 ^ 64 ≤ n then 2 ^ 64 - 1 else if neg then (2 ^ 64 - n) % 2 ^ 64 else n

@[simp] theorem length_hexText (k n : ℕ) : (hexText k n).length = k := by
  induction k generalizing n with
  | zero => rfl
  | succ k ih => rw [hexText, List.length_append, ih, List.length_singleton]

theorem exists_hexDigit_of_mem {k n : ℕ} {c : UInt8} (h : c ∈ hexText k n) :
    ∃ d < 16, c = hexDigit d := by
  induction k generalizing n with
  | zero => cases h
  | succ k ih =>
    rcases List.mem_append.mp h with h | h
    · exact ih h
    · exact ⟨n % 16, Nat.mod_lt _ (by decide), List.mem_singleton.mp h⟩

theorem ofHexDigits_hexText (k n : ℕ) : ofHexDigits (hexText k n) = n % 16 ^ k := by
  induction k generalizing n with
  | zero => rw [pow_zero, Nat.mod_one]; rfl
  | succ k ih =>
    have hlast : hexValue (hexDigit (n % 16)) = some (n % 16) :=
      hexValue_hexDigit _ (Nat.mod_lt _ (by decide))
    have hfirst := ih (n / 16)
    unfold ofHexDigits at hfirst ⊢
    rw [hexText, List.foldl_append, hfirst, List.foldl_cons, List.foldl_nil, hlast,
      Option.getD_some, pow_succ', Nat.mod_mul, add_comm]

theorem hexDigit_plain :
    ∀ d < 16, isSpace (hexDigit d) = false ∧ hexDigit d ≠ byte '-' ∧ hexDigit d ≠ byte '+' ∧
    hexDigit d ≠ byte 'x' ∧ hexDigit d ≠ byte 'X' ∧ isHexDigit (hexDigit d) = true := by decide

theorem strtoullHex_digits {s : Bytes} (hs : ∀ c ∈ s, ∃ d < 16, c = hexDigit d)
    (hsmall : ofHexDigits s < 2 ^ 64) : strtoullHex s = ofHexDigits s := by
  have hplain :
      ∀ c ∈ s, isSpace c = false ∧ c ≠ byte '-' ∧ c ≠ byte '+' ∧ c ≠ byte 'x' ∧ c ≠ byte 'X' ∧
      isHexDigit c = true := by
    intro c hc
    obtain ⟨d, hd, rfl⟩ := hs c hc
    exact hexDigit_plain d hd
  have hspace : s.dropWhile isSpace = s := by
    cases s with
    | nil => rfl
    | cons c s => rw [List.dropWhile_cons_of_neg (by simp [(hplain c List.mem_cons_self).1])]
  have hsign : sign s = (false, s) := by
    cases s with
    | nil => rfl
    | cons c s =>
      obtain ⟨-, hminus, hplus, -⟩ := hplain c List.mem_cons_self
      rw [sign, if_neg hminus, if_neg hplus]
  have hprefix : dropHexPrefix s = s := by
    cases s with
    | nil => rfl
    | cons a s =>
      cases s with
      | nil => rfl
      | cons x s =>
        cases s with
        | nil => rfl
        | cons d s =>
          obtain ⟨-, -, -, hlower, hupper, -⟩ :=
            hplain x (List.mem_cons_of_mem _ List.mem_cons_self)
          rw [dropHexPrefix, if_neg]
          rintro ⟨-, hx | hx, -⟩
          · exact hlower hx
          · exact hupper hx
  have hdigits : s.takeWhile isHexDigit = s :=
    List.takeWhile_eq_self_iff.mpr fun c hc => (hplain c hc).2.2.2.2.2
  unfold strtoullHex
  simp only [hspace, hsign, hprefix, hdigits, if_neg (not_le.mpr hsmall),
    Bool.false_eq_true, if_false]

theorem strtoullHex_hexText {n : ℕ} (h : n < 2 ^ 64) : strtoullHex (hexText 16 n) = n := by
  have hvalue : ofHexDigits (hexText 16 n) = n := by
    rw [ofHexDigits_hexText]
    exact Nat.mod_eq_of_lt h
  rw [strtoullHex_digits (fun c hc => exists_hexDigit_of_mem hc) (by rwa [hvalue]), hvalue]

end ReadyUp.Support
