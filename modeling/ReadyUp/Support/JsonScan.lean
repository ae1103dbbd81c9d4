import ReadyUp.Support.NumberText

/-!
# Scanning and writing JSON text

What every reader of JSON text does with the bytes in front of it: white space, the commas and
brackets around members and items, escapes and code points. A string is written by `quoted`,
which escapes quotes, backslashes and control bytes and leaves every other byte as it is.
-/
namespace ReadyUp.Support.JsonScan

section Scanner

def isWs (c : UInt8) : Bool := c == byte ' ' || c == 9 || c == 10 || c == 13

def ws (s : Bytes) : Bytes := s.dropWhile isWs

/-- White space, then the given byte. -/
def expect (c : UInt8) (s : Bytes) : Option Bytes :=
  match ws s with
  | [] => none
  | x :: s => if x = c then some s else none

/-- After a member or an item: a comma goes on, the closing byte ends. -/
def next (close : UInt8) (s : Bytes) : Option (Bool × Bytes) :=
  match ws s with
  | [] => none
  | x :: s => if x = byte ',' then some (true, s) else if x = close then some (false, s) else none

def putUtf8 (cp : ℕ) : Bytes :=
  if cp < 0x80 then [cp.toUInt8]
  else if cp < 0x800 then [(0xC0 + cp / 64).toUInt8, (0x80 + cp % 64).toUInt8]
  else if cp < 0x10000 then
    [(0xE0 + cp / 4096).toUInt8, (0x80 + cp / 64 % 64).toUInt8, (0x80 + cp % 64).toUInt8]
  else
    [(0xF0 + cp / 262144).toUInt8, (0x80 + cp / 4096 % 64).toUInt8,
      (0x80 + cp / 64 % 64).toUInt8, (0x80 + cp % 64).toUInt8]

def hexValue (c : UInt8) : Option ℕ :=
  if byte '0' ≤ c ∧ c ≤ byte '9' then some (c.toNat - 48)
  else if byte 'a' ≤ c ∧ c ≤ byte 'f' then some (c.toNat - 97 + 10)
  else if byte 'A' ≤ c ∧ c ≤ byte 'F' then some (c.toNat - 65 + 10)
  else none

def hex4 : Bytes → Option (ℕ × Bytes)
  | a :: b :: c :: d :: s => do
    return (4096 * (← hexValue a) + 256 * (← hexValue b) + 16 * (← hexValue c) + (← hexValue d), s)
  | _ => none

def unescape (e : UInt8) : Option UInt8 :=
  if e = byte '"' then some (byte '"')
  else if e = byte '\\' then some (byte '\\')
  else if e = byte '/' then some (byte '/')
  else if e = byte 'b' then some 8
  else if e = byte 'f' then some 12
  else if e = byte 'n' then some 10
  else if e = byte 'r' then some 13
  else if e = byte 't' then some 9
  else none

def isHighSurrogate (cp : ℕ) : Bool := 0xD800 ≤ cp && cp ≤ 0xDBFF

def isLowSurrogate (cp : ℕ) : Bool := 0xDC00 ≤ cp && cp ≤ 0xDFFF

def numSign : Bytes → Bool × Bytes
  | [] => (false, [])
  | c :: s => if c = byte '-' then (true, s) else (false, c :: s)

def InInt64 (i : ℤ) : Prop := -2 ^ 63 ≤ i ∧ i < 2 ^ 63

instance (i : ℤ) : Decidable (InInt64 i) := inferInstanceAs (Decidable (_ ∧ _))

def InInt32 (i : ℤ) : Prop := -2 ^ 31 ≤ i ∧ i < 2 ^ 31

instance (i : ℤ) : Decidable (InInt32 i) := inferInstanceAs (Decidable (_ ∧ _))

theorem InInt32.inInt64 {i : ℤ} (h : InInt32 i) : InInt64 i := by
  obtain ⟨hlow, hhigh⟩ := h
  constructor <;> omega

end Scanner

section Writer

def hexDigit (d : ℕ) : UInt8 := if d < 10 then digit d else (97 + (d - 10)).toUInt8

def escapeByte (c : UInt8) : Bytes :=
  if c = byte '"' then [byte '\\', byte '"']
  else if c = byte '\\' then [byte '\\', byte '\\']
  else if c = 10 then [byte '\\', byte 'n']
  else if c = 13 then [byte '\\', byte 'r']
  else if c = 9 then [byte '\\', byte 't']
  else if c = 8 then [byte '\\', byte 'b']
  else if c = 12 then [byte '\\', byte 'f']
  else if c < 0x20 ∨ c = 0x7F then
    [byte '\\', byte 'u', byte '0', byte '0', hexDigit (c.toNat / 16), hexDigit (c.toNat % 16)]
  else [c]

/-- `AppendQuoted` -/
def quoted (s : Bytes) : Bytes := byte '"' :: (s.flatMap escapeByte ++ [byte '"'])

theorem ws_cons {c : UInt8} (h : isWs c = false) (s : Bytes) : ws (c :: s) = c :: s := by
  rw [ws, List.dropWhile_cons_of_neg (by simp [h])]

theorem hexValue_hexDigit : ∀ d < 16, hexValue (hexDigit d) = some d := by decide

/-- The code point of a byte is read back, whatever the case of the digits. -/
theorem hex4_digits {f : ℕ → UInt8} (hf : ∀ d < 16, hexValue (f d) = some d) {c : UInt8}
    (hc : c.toNat < 0x80) (s : Bytes) :
    hex4 (byte '0' :: byte '0' :: f (c.toNat / 16) :: f (c.toNat % 16) :: s) =
      some (c.toNat, s) := by
  have hzero : hexValue (byte '0') = some 0 := by decide
  simp only [hex4, hzero, hf _ (by omega : c.toNat / 16 < 16), hf _ (by omega : c.toNat % 16 < 16)]
  simp
  omega

theorem hex4_control {c : UInt8} (hc : c.toNat < 0x80) (s : Bytes) :
    hex4 (byte '0' :: byte '0' :: hexDigit (c.toNat / 16) :: hexDigit (c.toNat % 16) :: s) =
      some (c.toNat, s) := hex4_digits hexValue_hexDigit hc s

theorem escapeByte_ne_nil (c : UInt8) : escapeByte c ≠ [] := by
  rw [escapeByte]
  split_ifs <;> exact List.cons_ne_nil _ _

theorem length_le_escaped (x : Bytes) : x.length ≤ (x.flatMap escapeByte).length := by
  induction x with
  | nil => exact le_rfl
  | cons c x ih =>
    have := List.length_pos_iff.mpr (escapeByte_ne_nil c)
    rw [List.flatMap_cons, List.length_append, List.length_cons]
    omega

theorem quoted_append (k t : Bytes) :
    quoted k ++ t = byte '"' :: (k.flatMap escapeByte ++ byte '"' :: t) := by
  simp [quoted]

end Writer

section Numbers

/-- The text does not go on as a number would. -/
def NumEnd (t : Bytes) : Prop :=
  ∀ c ∈ t.head?, isDigit c = false ∧ c ≠ byte '.' ∧ c ≠ byte 'e' ∧ c ≠ byte 'E'

theorem numEnd_cons {c : UInt8} (h : isDigit c = false ∧ c ≠ byte '.' ∧ c ≠ byte 'e' ∧ c ≠ byte 'E')
    (t : Bytes) : NumEnd (c :: t) := by
  intro x hx
  obtain rfl : c = x := by simpa using hx
  exact h

theorem takeWhile_digits {ds t : Bytes} (hd : ∀ c ∈ ds, isDigit c = true)
    (ht : ∀ c ∈ t.head?, isDigit c = false) :
    (ds ++ t).takeWhile isDigit = ds ∧ (ds ++ t).dropWhile isDigit = t := by
  have htake : t.takeWhile isDigit = [] := by
    cases t with
    | nil => rfl
    | cons c t => simp [ht c rfl]
  have hdrop : t.dropWhile isDigit = t := by
    cases t with
    | nil => rfl
    | cons c t => simp [ht c rfl]
  constructor
  · rw [List.takeWhile_append_of_pos hd, htake, List.append_nil]
  · rw [List.dropWhile_append_of_pos hd, hdrop]

theorem head_expText {n : NumToken} {t : Bytes} (ht : NumEnd t) :
    ∀ c ∈ (n.expText ++ t).head?, isDigit c = false ∧ c ≠ byte '.' := by
  rw [NumToken.expText]
  cases n.exp with
  | none =>
    intro c hc
    exact ⟨(ht c hc).1, (ht c hc).2.1⟩
  | some e =>
    intro c hc
    obtain rfl : byte 'e' = c := by simpa using hc
    decide

theorem head_fracText {n : NumToken} {t : Bytes} (ht : NumEnd t) :
    ∀ c ∈ (n.fracText ++ (n.expText ++ t)).head?, isDigit c = false := by
  rw [NumToken.fracText]
  cases n.frac with
  | none =>
    intro c hc
    exact (head_expText ht c hc).1
  | some f =>
    intro c hc
    obtain rfl : byte '.' = c := by simpa using hc
    decide

theorem fractionPart_text {n : NumToken} (h : n.WellFormed) {t : Bytes}
    (ht : ∀ c ∈ t.head?, isDigit c = false ∧ c ≠ byte '.') :
    fractionPart (n.fracText ++ t) = (n.frac, t) := by
  rw [NumToken.fracText]
  cases hfrac : n.frac with
  | none =>
    cases t with
    | nil => rfl
    | cons c t => simp [fractionPart, (ht c rfl).2]
  | some f =>
    obtain ⟨htake, hdrop⟩ := takeWhile_digits (h.2.1 _ hfrac).2 fun c hc => (ht c hc).1
    simp [fractionPart, htake, hdrop]

/-- `std::to_string` of an integer, as a number in text. -/
def intToken (i : ℤ) : NumToken := { neg := i < 0, int := decimal i.natAbs }

theorem intToken_text (i : ℤ) : (intToken i).text = toDecimal i := by
  simp [NumToken.text, NumToken.fracText, NumToken.expText, intToken, toDecimal]

theorem intToken_wellFormed (i : ℤ) : (intToken i).WellFormed :=
  ⟨⟨decimal_ne_nil _, decimal_isDigit _⟩, fun _ hf => (by cases hf), fun _ he => (by cases he)⟩

theorem toInt_intToken (i : ℤ) : (intToken i).toInt = i := by
  simp only [NumToken.toInt, intToken, ofDigits_decimal, decide_eq_true_eq]
  split_ifs <;> omega

theorem value_intToken (i : ℤ) : (intToken i).value = i.natAbs := by
  simp [NumToken.value, NumToken.expValue, intToken, ofDigits_decimal]

theorem strtod_intToken (i : ℤ) : (intToken i).strtod = Binary64.ofInt i := by
  rw [NumToken.strtod, value_intToken, Binary64.ofInt]
  rfl

theorem text_head {n : NumToken} (h : n.WellFormed) :
    ∃ c s, n.text = c :: s ∧ (c = byte '-' ∨ isDigit c = true) := by
  rw [NumToken.text]
  cases n.neg with
  | true => exact ⟨byte '-', _, rfl, Or.inl rfl⟩
  | false =>
    cases hint : n.int with
    | nil => exact absurd hint h.1.1
    | cons c ds => exact ⟨c, _, rfl, Or.inr (h.1.2 c (by simp [hint]))⟩

theorem byte_of_mem_text {n : NumToken} (h : n.WellFormed) {c : UInt8} (hc : c ∈ n.text) :
    isDigit c = true ∨ c ∈ [byte '-', byte '.', byte 'e', byte '+'] := by
  obtain ⟨hint, hfrac, hexp⟩ := h
  rw [NumToken.text, List.mem_append, List.mem_append, List.mem_append] at hc
  rcases hc with hc | hc | hc | hc
  · split_ifs at hc
    · rw [List.mem_singleton.mp hc]
      decide
    · cases hc
  · exact .inl (hint.2 c hc)
  · rw [NumToken.fracText] at hc
    cases hf : n.frac with
    | none =>
      rw [hf] at hc
      cases hc
    | some f =>
      rw [hf] at hc
      rcases List.mem_cons.mp hc with rfl | hc
      · decide
      · exact .inl ((hfrac f hf).2 c hc)
  · rw [NumToken.expText] at hc
    cases he : n.exp with
    | none =>
      rw [he] at hc
      cases hc
    | some e =>
      obtain ⟨neg, ds⟩ := e
      rw [he] at hc
      rcases List.mem_cons.mp hc with rfl | hc
      · decide
      · rcases List.mem_cons.mp hc with rfl | hc
        · cases neg <;> decide
        · exact .inl ((hexp _ he).2 c hc)

theorem numSign_text {n : NumToken} (h : n.WellFormed) (t : Bytes) :
    numSign (n.text ++ t) = (n.neg, n.int ++ (n.fracText ++ (n.expText ++ t))) := by
  obtain ⟨hne, hdigits⟩ := h.1
  rw [NumToken.text]
  cases n.neg with
  | true => simp [numSign]
  | false =>
    cases hint : n.int with
    | nil => exact absurd hint hne
    | cons c ds =>
      have hc : c ≠ byte '-' := by
        rintro rfl
        have := hdigits (byte '-') (by simp [hint])
        exact absurd this (by decide)
      simp [numSign, hc]

theorem sign_text {n : NumToken} (h : n.WellFormed) :
    sign n.text = (n.neg, n.int ++ (n.fracText ++ n.expText)) := by
  obtain ⟨hne, hdigits⟩ := h.1
  rw [NumToken.text]
  cases n.neg with
  | true => simp [sign]
  | false =>
    cases hint : n.int with
    | nil => exact absurd hint hne
    | cons c ds =>
      obtain ⟨d, hd, rfl⟩ := exists_digit (hdigits c (by simp [hint]))
      have hminus : digit d ≠ byte '-' := by interval_cases d <;> decide
      have hplus : digit d ≠ byte '+' := by interval_cases d <;> decide
      simp [sign, hminus, hplus]

/-- The text of a number is that of an integer unless it has a fraction or an exponent. -/
theorem wholeInt_text {n : NumToken} (h : n.WellFormed) :
    wholeInt n.text = if n.isFloat then none else some n := by
  obtain ⟨hne, hdigits⟩ := h.1
  rw [wholeInt, sign_text h]
  dsimp only
  cases hfrac : n.frac with
  | some f =>
    have hdot : isDigit (byte '.') = false := by decide
    simp [NumToken.isFloat, NumToken.fracText, hfrac, hdot]
  | none =>
    cases hexp : n.exp with
    | some e =>
      have he : isDigit (byte 'e') = false := by decide
      simp [NumToken.isFloat, NumToken.fracText, NumToken.expText, hfrac, hexp, he]
    | none =>
      obtain ⟨neg, int, frac, exp⟩ := n
      obtain rfl : frac = none := hfrac
      obtain rfl : exp = none := hexp
      have hall := List.all_eq_true.mpr hdigits
      simp [NumToken.isFloat, NumToken.fracText, NumToken.expText, hne, hall]

theorem wholeInt_toDecimal (i : ℤ) : wholeInt (toDecimal i) = some (intToken i) := by
  rw [← intToken_text, wholeInt_text (intToken_wellFormed i)]
  rfl

theorem wholeFloat_text {n : NumToken} (h : n.WellFormed) : wholeFloat n.text = some n := by
  have hend : NumEnd [] := fun c hc => (by cases hc)
  have hfracHead := head_fracText (n := n) hend
  have hexpHead := head_expText (n := n) hend
  rw [List.append_nil] at hfracHead hexpHead
  obtain ⟨htake, hdrop⟩ := takeWhile_digits h.1.2 hfracHead
  rw [wholeFloat, sign_text h]
  dsimp only
  rw [htake, hdrop, fractionPart_text h hexpHead]
  simp only [h.1.1, false_and, if_false]
  cases hexp : n.exp with
  | none =>
    obtain ⟨neg, int, frac, exp⟩ := n
    obtain rfl : exp = none := hexp
    rfl
  | some e =>
    obtain ⟨neg, int, frac, exp⟩ := n
    obtain rfl : exp = some e := hexp
    obtain ⟨eneg, ds⟩ := e
    obtain ⟨hne, hdigits⟩ := h.2.2 _ rfl
    have hsign : sign ((if eneg then byte '-' else byte '+') :: ds) = (eneg, ds) := by
      cases eneg <;> rfl
    simp [NumToken.expText, hsign, hne, List.all_eq_true.mpr hdigits]

end Numbers

end ReadyUp.Support.JsonScan
