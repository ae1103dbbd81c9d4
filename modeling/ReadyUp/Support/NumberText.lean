import ReadyUp.Support.Binary64

/-!
# Numbers as text

`NumToken` is a number in text: sign, digits, an optional fraction and an optional
exponent. `strtod` rounds its exact value. `token17` is what `%.17g` writes: fixed or
exponent notation by the size of the number, without trailing zeros; `tokenG` does the same
for any number of digits. `wholeInt` and `wholeFloat` read a text to its end.
-/
namespace ReadyUp.Support

structure NumToken where
  neg : Bool
  int : Bytes
  frac : Option Bytes := none
  /-- The sign of the exponent (negative or not) and its digits. -/
  exp : Option (Bool × Bytes) := none
  deriving DecidableEq

namespace NumToken

/-- Digits wherever digits belong, and at least one. -/
def WellFormed (t : NumToken) : Prop :=
  (t.int ≠ [] ∧ ∀ c ∈ t.int, isDigit c = true) ∧
  (∀ f, t.frac = some f → f ≠ [] ∧ ∀ c ∈ f, isDigit c = true) ∧
  ∀ e, t.exp = some e → e.2 ≠ [] ∧ ∀ c ∈ e.2, isDigit c = true

def isFloat (t : NumToken) : Bool := t.frac.isSome || t.exp.isSome

def expValue (t : NumToken) : ℤ :=
  match t.exp with
  | none => 0
  | some (neg, e) => if neg then -(ofDigits e : ℤ) else ofDigits e

def value (t : NumToken) : ℚ :=
  ofDigits (t.int ++ t.frac.getD []) * 10 ^ (t.expValue - (t.frac.getD []).length)

def strtod (t : NumToken) : Binary64 := Binary64.ofRat t.neg t.value

/-- The integer of a token without fraction and exponent. -/
def toInt (t : NumToken) : ℤ := if t.neg then -(ofDigits t.int : ℤ) else ofDigits t.int

def fracText (t : NumToken) : Bytes :=
  match t.frac with
  | none => []
  | some f => byte '.' :: f

/-- The exponent, with its sign written out. -/
def expText (t : NumToken) : Bytes :=
  match t.exp with
  | none => []
  | some (neg, e) => byte 'e' :: (if neg then byte '-' else byte '+') :: e

def text (t : NumToken) : Bytes :=
  (if t.neg then [byte '-'] else []) ++ (t.int ++ (t.fracText ++ t.expText))

end NumToken

/-- A fraction without its trailing zeros, none when nothing is left. -/
def fraction (f : Bytes) : Option Bytes :=
  let f := f.rdropWhile (· == digit 0)
  if f = [] then none else some f

def twoDigits (n : ℕ) : Bytes := if n < 10 then digit 0 :: decimal n else decimal n

/-- `%.17g` of seventeen digits and the exponent of the first one. -/
def token17 (neg : Bool) (d : ℕ) (x : ℤ) : NumToken :=
  let ds := decimal d
  if -4 ≤ x ∧ x < 17 then
    if 0 ≤ x then { neg, int := ds.take (x.toNat + 1), frac := fraction (ds.drop (x.toNat + 1)) }
    else
      { neg, int := [digit 0],
        frac := fraction (List.replicate (-x - 1).toNat (digit 0) ++ ds) }
  else
    { neg, int := ds.take 1, frac := fraction (ds.drop 1), exp := some (x < 0, twoDigits x.natAbs) }

/-- `%.17g` of a finite number. -/
def Binary64.format17 (x : Binary64) : NumToken :=
  if (x.mag : ℕ) = 0 then { neg := x.neg, int := [digit 0] }
  else
    let (d, e) := digits17 (magnitude x.mag)
    token17 x.neg d e

/-- So many significant digits, as a number, and the decimal exponent of the first one. -/
def digitsG (p : ℕ) (q : ℚ) : ℕ × ℤ :=
  let x := Int.log 10 q
  let d := (roundEven (q / 10 ^ (x - (p - 1)))).toNat
  if d = 10 ^ p then (10 ^ (p - 1), x + 1) else (d, x)

/-- `%.{p}g` of so many digits and the exponent of the first one. -/
def tokenG (p : ℕ) (neg : Bool) (d : ℕ) (x : ℤ) : NumToken :=
  let ds := decimal d
  if -4 ≤ x ∧ x < p then
    if 0 ≤ x then { neg, int := ds.take (x.toNat + 1), frac := fraction (ds.drop (x.toNat + 1)) }
    else
      { neg, int := [digit 0],
        frac := fraction (List.replicate (-x - 1).toNat (digit 0) ++ ds) }
  else
    { neg, int := ds.take 1, frac := fraction (ds.drop 1), exp := some (x < 0, twoDigits x.natAbs) }

/-- `%.{p}g` of a finite number. -/
def Binary64.formatG (p : ℕ) (x : Binary64) : NumToken :=
  if (x.mag : ℕ) = 0 then { neg := x.neg, int := [digit 0] }
  else
    let (d, e) := digitsG p (magnitude x.mag)
    tokenG p x.neg d e

section Reading

/-- The sign of a number for `strtoll` and `strtod`. -/
def sign : Bytes → Bool × Bytes
  | [] => (false, [])
  | c :: s =>
    if c = byte '-' then (true, s) else if c = byte '+' then (false, s) else (false, c :: s)

def wholeInt (t : Bytes) : Option NumToken :=
  let (neg, ds) := sign t
  if ds ≠ [] ∧ ds.all isDigit then some { neg, int := ds } else none

/-- The fraction of a number for `strtod`, which may be empty. -/
def fractionPart : Bytes → Option Bytes × Bytes
  | [] => (none, [])
  | c :: s =>
    if c = byte '.' then (some (s.takeWhile isDigit), s.dropWhile isDigit) else (none, c :: s)

/-- The whole text as a number with an optional fraction and an optional exponent. -/
def wholeFloat (t : Bytes) : Option NumToken :=
  let (neg, s) := sign t
  let int := s.takeWhile isDigit
  let (frac, s) := fractionPart (s.dropWhile isDigit)
  if int = [] ∧ frac.getD [] = [] then none
  else
    match s with
    | [] => some { neg, int, frac }
    | c :: s =>
      let (expNeg, ds) := sign s
      if (c = byte 'e' ∨ c = byte 'E') ∧ ds ≠ [] ∧ ds.all isDigit
      then some { neg, int, frac, exp := some (expNeg, ds) }
      else none

end Reading

section Fraction

theorem fraction_getD (f : Bytes) : (fraction f).getD [] = f.rdropWhile (· == digit 0) := by
  simp only [fraction]
  split_ifs with h
  · exact h.symm
  · rfl

theorem digitValue_digit_zero : digitValue (digit 0) = 0 := by decide

theorem ofDigits_replicate_zero (n : ℕ) : ofDigits (List.replicate n (digit 0)) = 0 := by
  induction n with
  | zero => rfl
  | succ n ih =>
    rw [List.replicate_succ, ofDigits_cons, digitValue_digit_zero, ih, Nat.zero_mul]

theorem ofDigits_fraction (a f : Bytes) (k : ℤ) :
    (ofDigits (a ++ (fraction f).getD []) : ℚ) * 10 ^ (k - ((fraction f).getD []).length) =
      ofDigits (a ++ f) * 10 ^ (k - f.length) := by
  rw [fraction_getD]
  induction f using List.reverseRecOn with
  | nil => simp
  | append_singleton f c ih =>
    by_cases hc : c = digit 0
    · rw [List.rdropWhile_concat_pos _ _ _ (by simpa using hc), ih, ← List.append_assoc,
        ofDigits_append (a ++ f), hc, ofDigits_cons, digitValue_digit_zero]
      have hexp : k - (f.length : ℤ) = k - ((f ++ [digit 0]).length : ℤ) + 1 := by
        rw [List.length_append, List.length_singleton]
        push_cast
        ring
      rw [hexp, zpow_add_one₀ (by decide)]
      simp
      ring
    · rw [List.rdropWhile_concat_neg _ _ _ (by simpa using hc)]

theorem isDigit_fraction {f g : Bytes} (h : ∀ c ∈ f, isDigit c = true) (hg : fraction f = some g) :
    g ≠ [] ∧ ∀ c ∈ g, isDigit c = true := by
  simp only [fraction] at hg
  split_ifs at hg with hnil
  obtain rfl := Option.some.inj hg
  exact ⟨hnil, fun c hc => h c ((List.rdropWhile_prefix _ _).subset hc)⟩

end Fraction

section Token17

variable {d : ℕ} {x : ℤ}

theorem twoDigits_isDigit (n : ℕ) : twoDigits n ≠ [] ∧ ∀ c ∈ twoDigits n, isDigit c = true := by
  rw [twoDigits]
  split_ifs
  · refine ⟨List.cons_ne_nil _ _, ?_⟩
    rw [List.forall_mem_cons]
    exact ⟨by decide, decimal_isDigit n⟩
  · exact ⟨decimal_ne_nil n, decimal_isDigit n⟩

theorem ofDigits_twoDigits (n : ℕ) : ofDigits (twoDigits n) = n := by
  rw [twoDigits]
  split_ifs
  · rw [ofDigits_cons, digitValue_digit_zero, Nat.zero_mul, Nat.zero_add, ofDigits_decimal]
  · exact ofDigits_decimal n

theorem tokenG_wellFormed (p : ℕ) (neg : Bool) (d : ℕ) (x : ℤ) : (tokenG p neg d x).WellFormed := by
  have hdigits := decimal_isDigit d
  have htake : ∀ k, 0 < k → (decimal d).take k ≠ [] := by
    intro k hk hnil
    rcases List.take_eq_nil_iff.mp hnil with hzero | hempty
    · omega
    · exact decimal_ne_nil d hempty
  simp only [tokenG]
  split_ifs with hfixed hnonneg
  · exact ⟨⟨htake _ (by omega), fun c hc => hdigits c (List.mem_of_mem_take hc)⟩,
      fun f hf => isDigit_fraction (fun c hc => hdigits c (List.mem_of_mem_drop hc)) hf,
      fun e he => by cases he⟩
  · refine ⟨⟨List.cons_ne_nil _ _, ?_⟩, fun f hf => isDigit_fraction ?_ hf, fun e he => by cases he⟩
    · rw [List.forall_mem_singleton]
      decide
    · intro c hc
      rcases List.mem_append.mp hc with hc | hc
      · rw [List.eq_of_mem_replicate hc]
        decide
      · exact hdigits c hc
  · refine ⟨⟨htake 1 (by decide), fun c hc => hdigits c (List.mem_of_mem_take hc)⟩,
      fun f hf => isDigit_fraction (fun c hc => hdigits c (List.mem_of_mem_drop hc)) hf, ?_⟩
    intro e he
    obtain rfl := Option.some.inj he
    exact twoDigits_isDigit _

theorem token17_wellFormed (neg : Bool) : (token17 neg d x).WellFormed :=
  tokenG_wellFormed 17 neg d x

theorem value_token17 (neg : Bool) (hd : (decimal d).length = 17) :
    (token17 neg d x).value = d * 10 ^ (x - 16) := by
  have hlen : ∀ k, (decimal d).take k ++ (decimal d).drop k = decimal d :=
    fun k => List.take_append_drop k _
  have hdrop : ∀ k, ((decimal d).drop k).length = 17 - k := by
    intro k
    rw [List.length_drop, hd]
  simp only [token17, NumToken.value]
  split_ifs with hfixed hnonneg
  · simp only [NumToken.expValue]
    rw [ofDigits_fraction, hlen, ofDigits_decimal, hdrop]
    congr 2
    omega
  · simp only [NumToken.expValue]
    have hzeros :
        ofDigits ([digit 0] ++ (List.replicate (-x - 1).toNat (digit 0) ++ decimal d)) = d := by
      rw [← List.append_assoc, ofDigits_append, ofDigits_decimal]
      have hzero : ofDigits ([digit 0] ++ List.replicate (-x - 1).toNat (digit 0)) = 0 := by
        rw [← List.replicate_one, ← List.replicate_add, ofDigits_replicate_zero]
      rw [hzero, Nat.zero_mul, Nat.zero_add]
    rw [ofDigits_fraction, hzeros, List.length_append, List.length_replicate, hd]
    congr 2
    push_cast
    omega
  · have hexp : (if decide (x < 0) = true then -(ofDigits (twoDigits x.natAbs) : ℤ)
        else ofDigits (twoDigits x.natAbs)) = x := by
      simp only [ofDigits_twoDigits, decide_eq_true_eq]
      split_ifs <;> omega
    simp only [NumToken.expValue, hexp]
    rw [ofDigits_fraction, hlen, ofDigits_decimal, hdrop]
    congr 2

end Token17

section Whole

theorem decimal_mul_pow {n : ℕ} (hn : 0 < n) (j : ℕ) :
    decimal (n * 10 ^ j) = decimal n ++ List.replicate j (digit 0) := by
  have hpos : n * 10 ^ j ≠ 0 := by positivity
  rw [decimal, decimal, if_neg hpos, if_neg hn.ne', Nat.mul_comm,
    Nat.digits_base_pow_mul (by decide) hn, List.reverse_append, List.reverse_replicate,
    List.map_append, List.map_replicate]

theorem fraction_replicate_zero (j : ℕ) : fraction (List.replicate j (digit 0)) = none := by
  have hnil : (List.replicate j (digit 0)).rdropWhile (· == digit 0) = [] := by
    rw [List.rdropWhile_eq_nil_iff]
    intro c hc
    simp [List.eq_of_mem_replicate hc]
  rw [fraction, hnil]
  rfl

theorem digitsG_natCast {p n : ℕ} (hn : 0 < n) (hlt : n < 10 ^ p) :
    digitsG p n = (n * 10 ^ (p - 1 - Nat.log 10 n), (Nat.log 10 n : ℤ)) := by
  have hlog : Nat.log 10 n < p := Nat.log_lt_of_lt_pow hn.ne' hlt
  have hscaled :
      (n : ℚ) / 10 ^ ((Nat.log 10 n : ℤ) - (p - 1)) =
        ((n * 10 ^ (p - 1 - Nat.log 10 n) : ℕ) : ℤ) := by
    have hexp : (Nat.log 10 n : ℤ) - (p - 1) = -((p - 1 - Nat.log 10 n : ℕ) : ℤ) := by omega
    rw [hexp, zpow_neg, zpow_natCast, div_inv_eq_mul]
    push_cast
    rfl
  have hround : roundEven ((n : ℚ) / 10 ^ ((Nat.log 10 n : ℤ) - (p - 1))) =
      ((n * 10 ^ (p - 1 - Nat.log 10 n) : ℕ) : ℤ) := by
    apply roundEven_eq
    rw [hscaled]
    simp
  have hsmall : n * 10 ^ (p - 1 - Nat.log 10 n) < 10 ^ p := by
    have hupper : n < 10 ^ (Nat.log 10 n + 1) := Nat.lt_pow_succ_log_self (by decide) n
    calc n * 10 ^ (p - 1 - Nat.log 10 n) < 10 ^ (Nat.log 10 n + 1) * 10 ^ (p - 1 - Nat.log 10 n) :=
          Nat.mul_lt_mul_of_pos_right hupper (by positivity)
      _ = 10 ^ p := by
        rw [← pow_add]
        congr 1
        omega
  rw [digitsG, Int.log_natCast, hround, Int.toNat_natCast, if_neg hsmall.ne]

end Whole

namespace Binary64

variable {x : Binary64}

theorem format17_neg (x : Binary64) : x.format17.neg = x.neg := by
  simp only [format17, token17]
  split_ifs <;> rfl

theorem length_decimal_digits17 {q : ℚ} (hq : 0 < q) : (decimal (digits17 q).1).length = 17 := by
  obtain ⟨hlow, hhigh, -⟩ := digits17_spec hq
  exact length_decimal hlow hhigh

theorem magnitude_pos {n : ℕ} (h : n ≠ 0) : 0 < magnitude n := by
  have := significand_pos h
  rw [magnitude]
  positivity

theorem zero_wellFormed (neg : Bool) : ({ neg, int := [digit 0] } : NumToken).WellFormed := by
  refine ⟨⟨List.cons_ne_nil _ _, ?_⟩, fun f hf => (by cases hf), fun e he => (by cases he)⟩
  rw [List.forall_mem_singleton]
  decide

theorem formatG_wellFormed (p : ℕ) (x : Binary64) : (x.formatG p).WellFormed := by
  rw [formatG]
  split_ifs
  · exact zero_wellFormed _
  · exact tokenG_wellFormed _ _ _ _

theorem format17_wellFormed (x : Binary64) : x.format17.WellFormed := by
  rw [format17]
  split_ifs
  · exact zero_wellFormed _
  · exact token17_wellFormed _

/-- A whole number is written with all its digits if they are not too many. -/
theorem formatG_whole {p n : ℕ} (hx : magnitude x.mag = n) (hlt : n < 10 ^ p) :
    x.formatG p = { neg := x.neg, int := decimal n } := by
  rw [formatG]
  by_cases hzero : (x.mag : ℕ) = 0
  · rw [if_pos hzero]
    have hn : n = 0 := by
      rw [hzero] at hx
      have : magnitude 0 = 0 := by simp [magnitude, significand]
      rw [this] at hx
      exact_mod_cast hx.symm
    subst hn
    rfl
  · rw [if_neg hzero]
    have hn : 0 < n := by
      have hpos := magnitude_pos hzero
      rw [hx] at hpos
      exact_mod_cast hpos
    have hlog : Nat.log 10 n < p := Nat.log_lt_of_lt_pow hn.ne' hlt
    have hlen : (decimal n).length = Nat.log 10 n + 1 :=
      length_decimal (Nat.pow_log_le_self 10 hn.ne') (Nat.lt_pow_succ_log_self (by decide) n)
    rw [hx, digitsG_natCast hn hlt]
    dsimp only
    rw [tokenG, if_pos ⟨by omega, by exact_mod_cast hlog⟩, if_pos (by omega), Int.toNat_natCast,
      decimal_mul_pow hn, ← hlen, List.take_left, List.drop_left, fraction_replicate_zero]

/-- Writing a finite number with seventeen digits and reading it back gives the number. -/
theorem strtod_format17 (h : x.isFinite = true) : x.format17.strtod = x := by
  have hmag : nearest x.format17.value = x.mag := by
    rw [format17]
    split_ifs with hzero
    · rw [hzero]
      simp [NumToken.value, nearest, ofDigits_cons, digitValue_digit_zero]
    · have hpos := magnitude_pos hzero
      have hclose := (digits17_spec hpos).2.2
      apply nearest_of_close
      · rw [Close, value_token17 _ (length_decimal_digits17 hpos)]
        exact hclose
      · simpa [isFinite] using h
  rw [NumToken.strtod, ofRat]
  cases x with
  | mk neg mag => simp only [hmag, format17_neg]

theorem isNaN_ofRat (neg : Bool) (q : ℚ) : (ofRat neg q).isNaN = false :=
  decide_eq_false (not_lt.mpr (nearest_le q))

/-- An integer token means the same number whether it is read as an integer or not. -/
theorem ofInt_toInt {t : NumToken} (h : t.isFloat = false) :
    (ofInt t.toInt).eq t.strtod = true := by
  rw [NumToken.isFloat, Bool.or_eq_false_iff] at h
  have hfrac : t.frac = none := by simpa using h.1
  have hexp : t.exp = none := by simpa using h.2
  have hvalue : t.value = ofDigits t.int := by
    simp [NumToken.value, NumToken.expValue, hfrac, hexp]
  have habs : t.toInt.natAbs = ofDigits t.int := by
    rw [NumToken.toInt]
    split_ifs <;> simp
  have hnan := isNaN_ofRat
  simp only [eq, ofInt, NumToken.strtod, hnan, habs, hvalue]
  by_cases hzero : ofDigits t.int = 0
  · simp [ofRat, hzero, nearest]
  · have hneg : decide (t.toInt < 0) = t.neg := by
      rw [NumToken.toInt]
      cases t.neg <;> simp
      omega
    simp [hneg]

end Binary64

end ReadyUp.Support
