import ReadyUp.Support.JsonScan

/-!
# Numbers and characters as the C library reads them

The character classes of the C locale, and the conversions of a text that take the longest
number it begins with: `stoi`, `strtoull`, `stoull` and `strtod`. A conversion of a double that
does not fit into 64 bits gives the smallest integer.
-/
namespace ReadyUp.Support

section Classes

def isSpace (c : UInt8) : Bool := c == byte ' ' || (9 ≤ c && c ≤ 13)

def isUpper (c : UInt8) : Bool := byte 'A' ≤ c && c ≤ byte 'Z'

def isLower (c : UInt8) : Bool := byte 'a' ≤ c && c ≤ byte 'z'

def isAlnum (c : UInt8) : Bool := isUpper c || isLower c || isDigit c

def toLower (c : UInt8) : UInt8 := if isUpper c then c + 32 else c

/-- A text without the bytes of a class at its two ends. -/
def trimBy (p : UInt8 → Bool) (s : Bytes) : Bytes := (s.dropWhile p).rdropWhile p

theorem dropWhile_eq_trimBy (p : UInt8 → Bool) (s : Bytes) :
    ∃ e, s.dropWhile p = trimBy p s ++ e ∧ ∀ a ∈ e, p a = true := by
  refine ⟨(s.dropWhile p).rtakeWhile p, ?_, fun a ha => List.mem_rtakeWhile_imp ha⟩
  rw [trimBy, List.rdropWhile, List.rtakeWhile, ← List.reverse_append,
    List.takeWhile_append_dropWhile, List.reverse_reverse]

theorem trimBy_eq_self {p : UInt8 → Bool} {s : Bytes} (h : ∀ c ∈ s, p c = false) :
    trimBy p s = s := by
  have hdrop : s.dropWhile p = s := by
    rw [List.dropWhile_eq_self_iff]
    intro hlength
    simp [h _ (List.getElem_mem hlength)]
  rw [trimBy, hdrop, List.rdropWhile_eq_self_iff]
  intro hne
  simp [h _ (List.getLast_mem hne)]

theorem trimBy_trimBy (p : UInt8 → Bool) (s : Bytes) : trimBy p (trimBy p s) = trimBy p s := by
  have hdrop : (trimBy p s).dropWhile p = trimBy p s := by
    obtain ⟨u, hu⟩ := List.rdropWhile_prefix p (s.dropWhile p)
    cases htrim : trimBy p s with
    | nil => rfl
    | cons c t =>
      rw [← trimBy, htrim, List.cons_append] at hu
      have hne : s.dropWhile p ≠ [] := by simp [← hu]
      have hhead : p ((s.dropWhile p).head hne) = false := List.head_dropWhile_not p hne
      have hc : p c = false := by simpa [← hu] using hhead
      rw [List.dropWhile_cons_of_neg (by simp [hc])]
  rw [trimBy, hdrop, trimBy, List.rdropWhile_idempotent]

theorem isSpace_iff {c : UInt8} : isSpace c = true ↔ c.toNat = 32 ∨ 9 ≤ c.toNat ∧ c.toNat ≤ 13 := by
  rw [isSpace, Bool.or_eq_true, beq_iff_eq, Bool.and_eq_true, decide_eq_true_eq,
    decide_eq_true_eq, ← UInt8.toNat_inj]
  exact Iff.rfl

theorem isUpper_iff {c : UInt8} : isUpper c = true ↔ 65 ≤ c.toNat ∧ c.toNat ≤ 90 := by
  rw [isUpper, Bool.and_eq_true, decide_eq_true_eq, decide_eq_true_eq]
  exact Iff.rfl

theorem toNat_toLower (c : UInt8) :
    (toLower c).toNat = if 65 ≤ c.toNat ∧ c.toNat ≤ 90 then c.toNat + 32 else c.toNat := by
  rw [toLower]
  simp only [isUpper_iff]
  split_ifs with h
  · rw [UInt8.toNat_add]
    exact Nat.mod_eq_of_lt (show c.toNat + 32 < 256 by omega)
  · rfl

theorem isSpace_toLower (c : UInt8) : isSpace (toLower c) = isSpace c := by
  rw [Bool.eq_iff_iff, isSpace_iff, isSpace_iff, toNat_toLower]
  split_ifs with h <;> omega

theorem toLower_toLower (c : UInt8) : toLower (toLower c) = toLower c := by
  rw [← UInt8.toNat_inj, toNat_toLower, toNat_toLower]
  split_ifs <;> omega

end Classes

section Integers

/-- The sign and the digits that `strtol` and its like read. -/
def intPrefix (s : Bytes) : Bool × Bytes :=
  let (neg, s) := sign (s.dropWhile isSpace)
  (neg, s.takeWhile isDigit)

/-- `std::stoi`; none where it throws. -/
def stoi (s : Bytes) : Option ℤ :=
  let (neg, ds) := intPrefix s
  let n : ℤ := if neg then -(ofDigits ds : ℤ) else ofDigits ds
  if ds ≠ [] ∧ -2 ^ 31 ≤ n ∧ n < 2 ^ 31 then some n else none

/-- `strtoull`: a number that is too large saturates, a minus sign negates. -/
def strtoull (s : Bytes) : ℕ :=
  let (neg, ds) := intPrefix s
  if 2 ^ 64 ≤ ofDigits ds then 2 ^ 64 - 1
  else if neg then (2 ^ 64 - ofDigits ds) % 2 ^ 64 else ofDigits ds

/-- `std::stoull`; none where it throws. -/
def stoull (s : Bytes) : Option ℕ :=
  let ds := (intPrefix s).2
  if ds = [] ∨ 2 ^ 64 ≤ ofDigits ds then none else some (strtoull s)

theorem intPrefix_digits {s : Bytes} (hne : s ≠ []) (hs : ∀ c ∈ s, isDigit c = true) :
    intPrefix s = (false, s) := by
  cases s with
  | nil => exact absurd rfl hne
  | cons c s =>
    have hc := hs c List.mem_cons_self
    have hspace : isSpace c = false := by
      obtain ⟨d, hd, rfl⟩ := exists_digit hc
      interval_cases d <;> rfl
    have hsign : sign (c :: s) = (false, c :: s) := by
      obtain ⟨d, hd, rfl⟩ := exists_digit hc
      interval_cases d <;> rfl
    rw [intPrefix, List.dropWhile_cons_of_neg (by simp [hspace]), hsign]
    dsimp only
    rw [List.takeWhile_eq_self_iff.mpr hs]

theorem strtoull_digits {s : Bytes} (hne : s ≠ []) (hs : ∀ c ∈ s, isDigit c = true) :
    strtoull s = min (ofDigits s) (2 ^ 64 - 1) := by
  rw [strtoull, intPrefix_digits hne hs]
  dsimp only
  split_ifs with hlarge
  · omega
  · simp_all
  · omega

theorem intPrefix_toDecimal (i : ℤ) :
    intPrefix (toDecimal i) = (decide (i < 0), decimal i.natAbs) := by
  by_cases hneg : i < 0
  · rw [toDecimal, if_pos hneg, List.singleton_append, intPrefix,
      List.dropWhile_cons_of_neg (by decide), sign, if_pos rfl]
    dsimp only
    rw [List.takeWhile_eq_self_iff.mpr (decimal_isDigit _), decide_eq_true hneg]
  · rw [toDecimal, if_neg hneg, List.nil_append,
      intPrefix_digits (decimal_ne_nil _) (decimal_isDigit _), decide_eq_false hneg]

/-- `stoi` reads back what `std::to_string` wrote of an `int`. -/
theorem stoi_toDecimal (i : ℤ) :
    stoi (toDecimal i) = if -2 ^ 31 ≤ i ∧ i < 2 ^ 31 then some i else none := by
  have hvalue : (if decide (i < 0) then -(ofDigits (decimal i.natAbs) : ℤ)
      else ofDigits (decimal i.natAbs)) = i := by
    rw [ofDigits_decimal]
    by_cases hneg : i < 0
    · rw [if_pos (decide_eq_true hneg)]
      omega
    · rw [if_neg (by simpa using hneg)]
      omega
  rw [stoi, intPrefix_toDecimal]
  dsimp only
  rw [hvalue]
  simp [decimal_ne_nil]

end Integers

section Doubles

/-- The rest of a text after a word, whatever the case of its letters. -/
def afterWord (word s : Bytes) : Option Bytes :=
  if (s.take word.length).map toLower = word then some (s.drop word.length) else none

/-- An exponent, which counts only with a digit. -/
def exponentSuffix (mark : UInt8) (s : Bytes) : ℤ × Bytes :=
  match s with
  | [] => (0, [])
  | c :: t =>
    let (neg, u) := sign t
    let ds := u.takeWhile isDigit
    if toLower c = mark ∧ ds ≠ [] then
      (if neg then -(ofDigits ds : ℤ) else ofDigits ds, u.dropWhile isDigit)
    else (0, c :: t)

/-- The magnitude of a decimal number and what is left. -/
def decimalPrefix (s : Bytes) : Option (ℚ × Bytes) :=
  let int := s.takeWhile isDigit
  let (frac, rest) := fractionPart (s.dropWhile isDigit)
  let frac := frac.getD []
  if int ++ frac = [] then none
  else
    let (e, rest) := exponentSuffix (byte 'e') rest
    some (ofDigits (int ++ frac) * 10 ^ (e - frac.length), rest)

def isHexDigit (c : UInt8) : Bool := (JsonScan.hexValue c).isSome

def ofHexDigits (s : Bytes) : ℕ := s.foldl (fun n c => 16 * n + (JsonScan.hexValue c).getD 0) 0

/-- The magnitude of a hexadecimal number and what is left. -/
def hexPrefix (s : Bytes) : Option (ℚ × Bytes) :=
  (afterWord (ascii "0x") s).bind fun s =>
    let int := s.takeWhile isHexDigit
    let (frac, rest) : Bytes × Bytes :=
      match s.dropWhile isHexDigit with
      | [] => ([], [])
      | c :: t =>
        if c = byte '.' then (t.takeWhile isHexDigit, t.dropWhile isHexDigit) else ([], c :: t)
    if int ++ frac = [] then none
    else
      let (e, rest) := exponentSuffix (byte 'p') rest
      some (ofHexDigits (int ++ frac) * 2 ^ (e - 4 * frac.length), rest)

/-- What may follow `nan` in brackets. -/
def afterNaN (s : Bytes) : Bytes :=
  match s with
  | [] => []
  | c :: t =>
    let u := t.dropWhile fun b => isAlnum b || b == byte '_'
    if c = byte '(' ∧ u.head? = some (byte ')') then u.tail else c :: t

def Binary64.inf (neg : Bool) : Binary64 := ⟨neg, Binary64.infMag, by decide⟩

def Binary64.nan (neg : Bool) : Binary64 := ⟨neg, Binary64.infMag + 2 ^ 51, by decide⟩

/-- A number in text, before it is rounded. -/
inductive FloatText where
  | inf
  | nan
  | num (q : ℚ)

/-- The sign, the number and what is left of the text; none without a conversion. -/
def floatPrefix (s : Bytes) : Option (Bool × FloatText × Bytes) :=
  let (neg, s) := sign (s.dropWhile isSpace)
  match afterWord (ascii "infinity") s, afterWord (ascii "inf") s, afterWord (ascii "nan") s with
  | some rest, _, _ => some (neg, .inf, rest)
  | none, some rest, _ => some (neg, .inf, rest)
  | none, none, some rest => some (neg, .nan, afterNaN rest)
  | none, none, none => ((hexPrefix s).or (decimalPrefix s)).map fun q => (neg, .num q.1, q.2)

def FloatText.value (neg : Bool) : FloatText → Binary64
  | .inf => Binary64.inf neg
  | .nan => Binary64.nan neg
  | .num q => Binary64.ofRat neg q

/-- `strtod` with what is left of the text. -/
def strtod (s : Bytes) : Option (Binary64 × Bytes) :=
  (floatPrefix s).map fun t => (t.2.1.value t.1, t.2.2)

def signed (neg : Bool) (q : ℚ) : ℚ := if neg then -q else q

theorem signed_natAbs (n : ℤ) : signed (decide (n < 0)) (n.natAbs : ℕ) = n := by
  rw [signed]
  by_cases hneg : n < 0
  · rw [if_pos (decide_eq_true hneg), Nat.cast_natAbs, abs_of_neg hneg]
    push_cast
    rw [neg_neg]
  · rw [if_neg (by simpa using hneg), Nat.cast_natAbs, abs_of_nonneg (not_lt.mp hneg)]

/-- The number that a whole text is, before it is rounded; the text ends at a zero byte. -/
def numberIn (s : Bytes) : Option ℚ :=
  match floatPrefix s with
  | some (neg, .num q, rest) =>
    if rest = [] ∨ rest.head? = some 0 then some (signed neg q) else none
  | _ => none

theorem nonneg_decimalPrefix {s rest : Bytes} {q : ℚ}
    (h : decimalPrefix s = some (q, rest)) : 0 ≤ q := by
  rw [decimalPrefix] at h
  dsimp only at h
  split_ifs at h
  cases h
  positivity

theorem nonneg_hexPrefix {s rest : Bytes} {q : ℚ} (h : hexPrefix s = some (q, rest)) : 0 ≤ q := by
  obtain ⟨t, -, ht⟩ := Option.bind_eq_some_iff.mp h
  dsimp only at ht
  split_ifs at ht
  cases ht
  positivity

theorem nonneg_floatPrefix {s rest : Bytes} {neg : Bool} {q : ℚ}
    (h : floatPrefix s = some (neg, .num q, rest)) : 0 ≤ q := by
  rw [floatPrefix] at h
  dsimp only at h
  split at h
  · cases h
  · cases h
  · cases h
  · obtain ⟨x, hx, heq⟩ := Option.map_eq_some_iff.mp h
    cases heq
    rcases Option.or_eq_some_iff.mp hx with hx | ⟨-, hx⟩
    · exact nonneg_hexPrefix hx
    · exact nonneg_decimalPrefix hx

theorem toLower_digit {c : UInt8} (h : isDigit c = true) : toLower c = c := by
  obtain ⟨d, hd, rfl⟩ := exists_digit h
  interval_cases d <;> rfl

namespace Binary64

def toRat (x : Binary64) : ℚ := if x.neg then -magnitude x.mag else magnitude x.mag

/-- `static_cast<long long>` -/
def toInt64 (x : Binary64) : ℤ :=
  if x.isFinite ∧ -2 ^ 63 ≤ x.toInt ∧ x.toInt < 2 ^ 63 then x.toInt else -2 ^ 63

/-- `static_cast<int>` -/
def toInt32 (x : Binary64) : ℤ :=
  if x.isFinite ∧ -2 ^ 31 ≤ x.toInt ∧ x.toInt < 2 ^ 31 then x.toInt else -2 ^ 31

/-- `std::round`, away from zero at a tie, as an integer. -/
def round (x : Binary64) : ℤ :=
  if x.neg then -⌊magnitude x.mag + 1 / 2⌋ else ⌊magnitude x.mag + 1 / 2⌋

/-- `floor(x) == x` -/
def isWhole (x : Binary64) : Bool := !x.isNaN && (!x.isFinite || x.toRat == ⌊x.toRat⌋)

/-- `std::to_string`, that is `%f`. -/
def toFixed (x : Binary64) : Bytes :=
  let n := (roundEven (magnitude x.mag * 10 ^ 6)).natAbs
  let frac := decimal (n % 10 ^ 6)
  (if x.neg then [byte '-'] else []) ++
    if x.isNaN then ascii "nan"
    else if x.isFinite then
      decimal (n / 10 ^ 6) ++ byte '.' :: (List.replicate (6 - frac.length) (byte '0') ++ frac)
    else ascii "inf"

theorem isFinite_ofInt {i : ℤ} (h : i.natAbs < 2 ^ 64) : (ofInt i).isFinite = true := by
  have hlt : ((i.natAbs : ℕ) : ℚ) < 2 ^ 64 := by exact_mod_cast h
  exact decide_eq_true (nearest_lt_infMag (Nat.cast_nonneg _) hlt)

theorem toInt64_ofInt {i : ℤ} (h : i.natAbs < 2 ^ 53) : (ofInt i).toInt64 = i := by
  rw [toInt64, toInt_ofInt h, if_pos]
  exact ⟨isFinite_ofInt (by omega), by omega, by omega⟩

theorem toInt32_ofInt {i : ℤ} (h : JsonScan.InInt32 i) : (ofInt i).toInt32 = i := by
  obtain ⟨hlow, hhigh⟩ := h
  rw [toInt32, toInt_ofInt (by omega), if_pos]
  exact ⟨isFinite_ofInt (by omega), hlow, hhigh⟩

theorem le_natAbs_toInt64_ofInt {i : ℤ} (h : 2 ^ 53 ≤ i.natAbs) :
    2 ^ 53 ≤ (ofInt i).toInt64.natAbs := by
  have hcast : (2 ^ 53 : ℚ) ≤ (i.natAbs : ℕ) := by exact_mod_cast h
  have hfloor : 2 ^ 53 ≤ ⌊magnitude (nearest i.natAbs)⌋ := by
    rw [Int.le_floor]
    exact_mod_cast le_magnitude_nearest hcast
  rw [toInt64]
  split_ifs
  · rw [toInt, ofInt, ofRat]
    dsimp only
    split_ifs <;> omega
  · decide

theorem toInt_of_isWhole {x : Binary64} (hfinite : x.isFinite = true) (hwhole : x.isWhole = true) :
    (x.toInt : ℚ) = x.toRat := by
  have hint : x.toRat = ⌊x.toRat⌋ := by
    rw [isWhole, hfinite, Bool.not_true, Bool.false_or, Bool.and_eq_true, beq_iff_eq] at hwhole
    exact hwhole.2
  rw [toInt]
  rw [toRat] at hint ⊢
  split_ifs at hint ⊢ with hneg
  · have hmag : magnitude x.mag = ((-⌊-magnitude x.mag⌋ : ℤ) : ℚ) := by
      push_cast
      rw [← hint, neg_neg]
    rw [hmag, Int.floor_intCast]
    push_cast
    rfl
  · exact hint.symm

theorem abs_toRat (x : Binary64) : |x.toRat| = magnitude x.mag := by
  rw [toRat]
  split_ifs
  · rw [abs_neg, abs_of_nonneg (magnitude_nonneg _)]
  · rw [abs_of_nonneg (magnitude_nonneg _)]

theorem magnitude_of_isWhole {x : Binary64} (hfinite : x.isFinite = true)
    (hwhole : x.isWhole = true) : magnitude x.mag = x.toInt.natAbs := by
  rw [← abs_toRat, ← toInt_of_isWhole hfinite hwhole, Nat.cast_natAbs, Int.cast_abs]

theorem isWhole_of_toRat {x : Binary64} (hfinite : x.isFinite = true) {n : ℤ} (h : x.toRat = n) :
    x.isWhole = true := by
  have hnan : x.isNaN = false := by
    rw [isFinite, decide_eq_true_eq] at hfinite
    exact decide_eq_false (not_lt.mpr hfinite.le)
  rw [isWhole, hnan, hfinite, h, Int.floor_intCast]
  simp

theorem toRat_ofRat (neg : Bool) (q : ℚ) :
    (ofRat neg q).toRat = signed neg (magnitude (nearest q)) := rfl

theorem toRat_ofRat_natCast (neg : Bool) {n : ℕ} (h : n < 2 ^ 53) :
    (ofRat neg n).isFinite = true ∧ (ofRat neg n).toRat = signed neg n := by
  obtain ⟨hfinite, hmag⟩ := magnitude_nearest h
  exact ⟨decide_eq_true hfinite, (toRat_ofRat neg n).trans (congrArg (signed neg) hmag)⟩

theorem toRat_ofInt {i : ℤ} (h : i.natAbs < 2 ^ 53) :
    (ofInt i).isFinite = true ∧ (ofInt i).toRat = i := by
  obtain ⟨hfinite, hrat⟩ := toRat_ofRat_natCast (decide (i < 0)) h
  exact ⟨hfinite, hrat.trans (signed_natAbs i)⟩

theorem toRat_ofRat_eq_iff {neg : Bool} {q : ℚ} :
    (ofRat neg q).toRat = signed neg q ↔ magnitude (nearest q) = q := by
  rw [toRat_ofRat]
  cases neg with
  | true => exact neg_inj
  | false => exact Iff.rfl

theorem natAbs_of_signed {neg : Bool} {q : ℚ} {n : ℤ} (hq : 0 ≤ q) (hn : signed neg q = n) :
    q = (n.natAbs : ℕ) := by
  rw [Nat.cast_natAbs, Int.cast_abs, ← hn, signed]
  split_ifs
  · rw [abs_neg, abs_of_nonneg hq]
  · rw [abs_of_nonneg hq]

theorem toRat_ofInt_smallest : (ofInt (-2 ^ 63)).toRat = ((-2 ^ 63 : ℤ) : ℚ) := by decide +kernel

theorem toRat_ofInt_eq_iff {n : ℤ} :
    (ofInt n).toRat = n ↔ magnitude (nearest n.natAbs) = n.natAbs := by
  have hint : (ofInt n).toRat = signed (decide (n < 0)) (n.natAbs : ℕ) ↔ _ := toRat_ofRat_eq_iff
  rw [signed_natAbs] at hint
  exact hint

/-- The double next to an integer that has 64 bits and is a double itself. -/
theorem toRat_ofRat_of_exact {neg : Bool} {q : ℚ} {n : ℤ} (hq : 0 ≤ q) (hn : signed neg q = n)
    (hlow : -2 ^ 63 ≤ n) (hhigh : n < 2 ^ 63) (hrat : (ofInt n).toRat = n) :
    (ofRat neg q).isFinite = true ∧ (ofRat neg q).toRat = n := by
  have habs := natAbs_of_signed hq hn
  constructor
  · refine decide_eq_true (nearest_lt_infMag hq ?_)
    rw [habs]
    have : n.natAbs < 2 ^ 64 := by omega
    exact_mod_cast this
  · rw [toRat_ofInt_eq_iff, ← habs] at hrat
    rw [← hn, toRat_ofRat_eq_iff]
    exact hrat

/-- The conversion of the double next to an integer gives the integer if it has 64 bits and is a
double itself. -/
theorem toInt64_ofRat {neg : Bool} {q : ℚ} {n : ℤ} (hq : 0 ≤ q)
    (hwhole : (ofRat neg q).isWhole = true) (hn : signed neg q = n) :
    (ofRat neg q).toInt64 = n ↔ -2 ^ 63 ≤ n ∧ n < 2 ^ 63 ∧ (ofInt n).toRat = n := by
  have hexact : (ofRat neg q).toRat = n ↔ (ofInt n).toRat = n := by
    rw [toRat_ofInt_eq_iff, ← natAbs_of_signed hq hn, ← hn, toRat_ofRat_eq_iff]
  rw [toInt64]
  split_ifs with hcond
  · rw [← hexact, ← toInt_of_isWhole hcond.1 hwhole, Int.cast_inj]
    constructor
    · rintro rfl
      exact ⟨hcond.2.1, hcond.2.2, rfl⟩
    · exact fun h => h.2.2
  · constructor
    · rintro rfl
      exact ⟨le_refl _, by decide, toRat_ofInt_smallest⟩
    · rintro ⟨hlow, hhigh, hrat⟩
      obtain ⟨hfinite, hint⟩ := toRat_ofRat_of_exact hq hn hlow hhigh hrat
      rw [← toInt_of_isWhole hfinite hwhole, Int.cast_inj] at hint
      rw [hint] at hcond
      exact absurd ⟨hfinite, hlow, hhigh⟩ hcond

/-- What a whole double is converted to has 64 bits and is a double. -/
theorem exact_toInt64 {x : Binary64} (hwhole : x.isWhole = true) :
    -2 ^ 63 ≤ x.toInt64 ∧ x.toInt64 < 2 ^ 63 ∧ (ofInt x.toInt64).toRat = x.toInt64 := by
  rw [toInt64]
  split_ifs with hcond
  · refine ⟨hcond.2.1, hcond.2.2, toRat_ofInt_eq_iff.mpr ?_⟩
    have hfinite := hcond.1
    rw [isFinite, decide_eq_true_eq] at hfinite
    rw [← magnitude_of_isWhole hcond.1 hwhole, nearest_magnitude hfinite]
  · exact ⟨le_refl _, by decide, toRat_ofInt_smallest⟩

end Binary64

end Doubles

end ReadyUp.Support
