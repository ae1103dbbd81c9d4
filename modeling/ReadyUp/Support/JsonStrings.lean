import ReadyUp.Support.JsonTree

/-!
# Strings of a JSON text

Readers differ in what they make of escaped surrogates. `decode` goes through the characters of a
string with two parameters: what an escape and the one right behind it make together, if anything,
and what an escape makes by itself. A reader of escapes that follows them (`Decodes`) reads exactly
the strings of the grammar (`string_sound`, `string_complete`).
-/
namespace ReadyUp.Support.JsonTree

open JsonScan JsonGrammar

section HexDigits

def codeUnit (a b c d : UInt8) : ℕ :=
  4096 * (hexValue a).getD 0 + 256 * (hexValue b).getD 0 + 16 * (hexValue c).getD 0 +
    (hexValue d).getD 0

theorem isHexDigit_iff {c : UInt8} : Chr.isHexDigit c = true ↔ ∃ d, hexValue c = some d := by
  unfold Chr.isHexDigit isDigit hexValue
  split_ifs <;> simp_all

theorem hex4_eq_some_iff {s r : Bytes} {u : ℕ} : hex4 s = some (u, r) ↔
    ∃ a b c d, s = a :: b :: c :: d :: r ∧ Chr.Ok (.unicode a b c d) ∧ u = codeUnit a b c d := by
  constructor
  · intro h
    unfold hex4 at h
    split at h
    · rename_i a b c d t
      simp only [Option.bind_eq_bind, Option.pure_def, Option.bind_eq_some_iff, Option.some.injEq,
        Prod.mk.injEq] at h
      obtain ⟨i, hi, j, hj, k, hk, l, hl, rfl, rfl⟩ := h
      refine ⟨a, b, c, d, rfl, ⟨?_, ?_, ?_, ?_⟩, ?_⟩
      · exact isHexDigit_iff.mpr ⟨i, hi⟩
      · exact isHexDigit_iff.mpr ⟨j, hj⟩
      · exact isHexDigit_iff.mpr ⟨k, hk⟩
      · exact isHexDigit_iff.mpr ⟨l, hl⟩
      · simp [codeUnit, hi, hj, hk, hl]
    · cases h
  · rintro ⟨a, b, c, d, rfl, ⟨ha, hb, hc, hd⟩, rfl⟩
    obtain ⟨i, hi⟩ := isHexDigit_iff.mp ha
    obtain ⟨j, hj⟩ := isHexDigit_iff.mp hb
    obtain ⟨k, hk⟩ := isHexDigit_iff.mp hc
    obtain ⟨l, hl⟩ := isHexDigit_iff.mp hd
    simp [hex4, codeUnit, hi, hj, hk, hl]

theorem hex4_unicode {a b c d : UInt8} (h : Chr.Ok (.unicode a b c d)) (r : Bytes) :
    hex4 (a :: b :: c :: d :: r) = some (codeUnit a b c d, r) :=
  hex4_eq_some_iff.mpr ⟨a, b, c, d, rfl, h, rfl⟩

/-- The letters behind a backslash are those that are unescaped. -/
theorem mem_letters_iff {e : UInt8} : e ∈ Chr.letters ↔ ∃ c, unescape e = some c := by
  unfold unescape Chr.letters
  split_ifs <;> simp_all

end HexDigits

section Decode

variable (two : ℕ → ℕ → Option Bytes) (one : ℕ → Bytes)

/-- The bytes that the characters of a string stand for. -/
def decode : List Chr → Bytes
  | [] => []
  | .raw c :: x => c :: decode x
  | .simple e :: x => (unescape e).toList ++ decode x
  | .unicode a b c d :: .unicode a' b' c' d' :: x =>
    match two (codeUnit a b c d) (codeUnit a' b' c' d') with
    | some s => s ++ decode x
    | none => one (codeUnit a b c d) ++ decode (.unicode a' b' c' d' :: x)
  | .unicode a b c d :: x => one (codeUnit a b c d) ++ decode x

/-- The reader of escapes takes them as `decode` does. -/
structure Decodes (escape : Bytes → Option (Bytes × Bytes)) : Prop where
  nil : escape [] = none
  simple : ∀ e s, e ≠ byte 'u' → escape (e :: s) = (unescape e).map fun c => ([c], s)
  bad : ∀ s, hex4 s = none → escape (byte 'u' :: s) = none
  pair : ∀ {s u r v r'}, hex4 s = some (u, byte '\\' :: byte 'u' :: r) → hex4 r = some (v, r') →
    escape (byte 'u' :: s) =
      match two u v with
      | some x => some (x, r')
      | none => some (one u, byte '\\' :: byte 'u' :: r)
  broken : ∀ {s u r}, hex4 s = some (u, byte '\\' :: byte 'u' :: r) → hex4 r = none →
    escape (byte 'u' :: s) = none ∨
    escape (byte 'u' :: s) = some (one u, byte '\\' :: byte 'u' :: r)
  lone : ∀ {s u r}, hex4 s = some (u, r) → (∀ r', r ≠ byte '\\' :: byte 'u' :: r') →
    escape (byte 'u' :: s) = some (one u, r)

variable {two one} {escape : Bytes → Option (Bytes × Bytes)} {raw : UInt8 → Bool}

theorem stringText_cons (c : Chr) (x : List Chr) : stringText (c :: x) = c.text ++ stringText x :=
  List.flatMap_cons

theorem decode_unicode {a b c d : UInt8} {x : List Chr}
    (h : ∀ a' b' c' d' y, x = .unicode a' b' c' d' :: y →
      two (codeUnit a b c d) (codeUnit a' b' c' d') = none) :
    decode two one (.unicode a b c d :: x) = one (codeUnit a b c d) ++ decode two one x := by
  cases x with
  | nil => simp [decode]
  | cons k x =>
    cases k with
    | raw _ => simp [decode]
    | simple _ => simp [decode]
    | unicode a' b' c' d' => simp [decode, h a' b' c' d' x rfl]

/-- What starts with a backslash and a `u` is an escape with digits. -/
theorem exists_unicode {x : List Chr} (hx : ∀ c ∈ x, Chr.Ok c) {r t : Bytes}
    (h : byte '\\' :: byte 'u' :: r = stringText x ++ byte '"' :: t) :
    ∃ a b c d y, x = .unicode a b c d :: y ∧
    r = a :: b :: c :: d :: (stringText y ++ byte '"' :: t) := by
  cases x with
  | nil =>
    simp only [stringText, List.flatMap_nil, List.nil_append, List.cons.injEq] at h
    exact absurd h.1 (by decide)
  | cons k x =>
    rw [List.forall_mem_cons] at hx
    cases k with
    | raw c =>
      simp only [stringText_cons, Chr.text, List.cons_append, List.nil_append, List.cons.injEq] at h
      exact absurd h.1.symm hx.1.2.2
    | simple e =>
      simp only [stringText_cons, Chr.text, List.cons_append, List.nil_append, List.cons.injEq] at h
      have hletter : e ∈ Chr.letters := hx.1
      rw [← h.2.1] at hletter
      exact absurd hletter (by decide)
    | unicode a b c d =>
      simp only [stringText_cons, Chr.text, List.cons_append, List.nil_append, List.cons.injEq] at h
      exact ⟨a, b, c, d, x, rfl, h.2.2⟩

/-- What stands for the characters, with the text that they were read from. -/
def Reads (two : ℕ → ℕ → Option Bytes) (one : ℕ → Bytes) (s x r : Bytes) : Prop :=
  ∃ cs, (∀ c ∈ cs, Chr.Ok c) ∧ s = stringText cs ++ byte '"' :: r ∧ x = decode two one cs

/-- An escape and what is read behind it are read together. -/
theorem escape_sound (h : Decodes two one escape) {s e s' x r : Bytes}
    (hescape : escape s = some (e, s'))
    (hrest : Reads two one s' x r) : Reads two one (byte '\\' :: s) (e ++ x) r := by
  obtain ⟨cs, hcs, rfl, rfl⟩ := hrest
  cases s with
  | nil =>
    rw [h.nil] at hescape
    cases hescape
  | cons k s =>
    by_cases hk : k = byte 'u'
    · subst hk
      cases hhex : hex4 s with
      | none =>
        rw [h.bad s hhex] at hescape
        cases hescape
      | some p =>
        obtain ⟨u, q⟩ := p
        obtain ⟨a, b, c', d, rfl, hdigits, rfl⟩ := hex4_eq_some_iff.mp hhex
        by_cases hsecond : ∃ q', q = byte '\\' :: byte 'u' :: q'
        · obtain ⟨q', rfl⟩ := hsecond
          -- what the second escape is, when it is left to be read
          have hleft : escape (byte 'u' :: a :: b :: c' :: d :: byte '\\' :: byte 'u' :: q') =
              some (one (codeUnit a b c' d), byte '\\' :: byte 'u' :: q') →
              ∃ a' b' c'' d' z, cs = .unicode a' b' c'' d' :: z ∧
                q' = a' :: b' :: c'' :: d' :: (stringText z ++ byte '"' :: r) ∧
                e = one (codeUnit a b c' d) := by
            intro hone
            rw [hone] at hescape
            simp only [Option.some.injEq, Prod.mk.injEq] at hescape
            obtain ⟨rfl, htext⟩ := hescape
            obtain ⟨a', b', c'', d', z, hz, hq⟩ := exists_unicode hcs htext
            exact ⟨a', b', c'', d', z, hz, hq, rfl⟩
          cases hhex' : hex4 q' with
          | none =>
            rcases h.broken hhex hhex' with hnone | hone
            · rw [hnone] at hescape
              cases hescape
            · obtain ⟨a', b', c'', d', z, rfl, rfl, -⟩ := hleft hone
              have hok := hcs _ List.mem_cons_self
              rw [hex4_unicode hok] at hhex'
              cases hhex'
          | some p' =>
            obtain ⟨v, q''⟩ := p'
            obtain ⟨a', b', c'', d', rfl, hdigits', rfl⟩ := hex4_eq_some_iff.mp hhex'
            have hpair := h.pair hhex hhex'
            cases htwo : two (codeUnit a b c' d) (codeUnit a' b' c'' d') with
            | some z =>
              rw [hpair, htwo] at hescape
              simp only [Option.some.injEq, Prod.mk.injEq] at hescape
              obtain ⟨rfl, rfl⟩ := hescape
              refine ⟨.unicode a b c' d :: .unicode a' b' c'' d' :: cs, ?_, ?_, ?_⟩
              · rw [List.forall_mem_cons, List.forall_mem_cons]
                exact ⟨hdigits, hdigits', hcs⟩
              · simp [stringText_cons, Chr.text]
              · simp [decode, htwo]
            | none =>
              rw [htwo] at hpair
              obtain ⟨a₂, b₂, c₂, d₂, z, rfl, heq, rfl⟩ := hleft hpair
              simp only [List.cons.injEq] at heq
              obtain ⟨rfl, rfl, rfl, rfl, rfl⟩ := heq
              refine ⟨.unicode a b c' d :: .unicode a' b' c'' d' :: z, ?_, ?_, ?_⟩
              · rw [List.forall_mem_cons]
                exact ⟨hdigits, hcs⟩
              · simp [stringText_cons, Chr.text]
              · simp [decode, htwo]
        · rw [h.lone hhex fun q' hq => hsecond ⟨q', hq⟩] at hescape
          simp only [Option.some.injEq, Prod.mk.injEq] at hescape
          obtain ⟨rfl, rfl⟩ := hescape
          refine ⟨.unicode a b c' d :: cs, ?_, ?_, ?_⟩
          · rw [List.forall_mem_cons]
            exact ⟨hdigits, hcs⟩
          · simp [stringText_cons, Chr.text]
          · rw [decode_unicode]
            rintro a' b' c'' d' z rfl
            exact absurd ⟨_, rfl⟩ hsecond
    · rw [h.simple k s hk] at hescape
      obtain ⟨c', hc', heq⟩ := Option.map_eq_some_iff.mp hescape
      obtain ⟨rfl, rfl⟩ := Prod.mk.inj heq
      refine ⟨.simple k :: cs, ?_, ?_, ?_⟩
      · rw [List.forall_mem_cons]
        exact ⟨mem_letters_iff.mpr ⟨c', hc'⟩, hcs⟩
      · simp [stringText_cons, Chr.text]
      · simp [decode, hc']

/-- What is read up to the closing quote are characters of the grammar. -/
theorem strBody_sound (h : Decodes two one escape) (hraw : ∀ c, raw c = true ↔ 0x20 ≤ c) {fuel : ℕ}
    {s x r : Bytes} (hread : strBody escape raw fuel s = some (x, r)) : Reads two one s x r := by
  induction fuel generalizing s x with
  | zero => cases hread
  | succ fuel ih =>
    cases s with
    | nil => cases hread
    | cons c s =>
      rw [strBody] at hread
      split_ifs at hread with hquote hback hkeep
      · simp only [Option.some.injEq, Prod.mk.injEq] at hread
        obtain ⟨rfl, rfl⟩ := hread
        refine ⟨[], fun _ hc => (by cases hc), ?_, ?_⟩
        · rw [hquote]
          rfl
        · rw [decode]
      · obtain ⟨⟨e, s'⟩, hescape, hread⟩ := Option.bind_eq_some_iff.mp hread
        obtain ⟨⟨y, r'⟩, hrest, heq⟩ := Option.map_eq_some_iff.mp hread
        obtain ⟨rfl, rfl⟩ := Prod.mk.inj heq
        rw [hback]
        exact escape_sound h hescape (ih hrest)
      · obtain ⟨⟨y, r'⟩, hrest, heq⟩ := Option.map_eq_some_iff.mp hread
        obtain ⟨rfl, rfl⟩ := Prod.mk.inj heq
        obtain ⟨cs, hcs, hs', rfl⟩ := ih hrest
        refine ⟨.raw c :: cs, ?_, ?_, ?_⟩
        · rw [List.forall_mem_cons]
          exact ⟨⟨(hraw c).mp hkeep, hquote, hback⟩, hcs⟩
        · simp [stringText_cons, Chr.text, hs']
        · rw [decode]

/-- The characters of the grammar are read up to the closing quote. -/
theorem strBody_complete (h : Decodes two one escape)
    (hraw : ∀ c, raw c = true ↔ 0x20 ≤ c) {fuel : ℕ}
    {cs : List Chr} (hcs : ∀ c ∈ cs, Chr.Ok c) (hfuel : cs.length < fuel) (r : Bytes) :
    strBody escape raw fuel (stringText cs ++ byte '"' :: r) = some (decode two one cs, r) := by
  obtain ⟨fuel, rfl⟩ : ∃ n, fuel = n + 1 := ⟨fuel - 1, by omega⟩
  fun_induction decode two one cs generalizing fuel with
  | case1 =>
    rw [stringText, List.flatMap_nil, List.nil_append, strBody, if_pos rfl]
  | case2 c x ih =>
    rw [List.forall_mem_cons] at hcs
    rw [List.length_cons] at hfuel
    obtain ⟨fuel, rfl⟩ : ∃ n, fuel = n + 1 := ⟨fuel - 1, by omega⟩
    obtain ⟨⟨hc, hquote, hback⟩, hcs⟩ := hcs
    simp only [stringText_cons, Chr.text, List.cons_append, List.nil_append]
    rw [strBody, if_neg hquote, if_neg hback, if_pos ((hraw c).mpr hc), ih hcs fuel (by omega),
      Option.map_some]
  | case3 e x ih =>
    rw [List.forall_mem_cons] at hcs
    rw [List.length_cons] at hfuel
    obtain ⟨fuel, rfl⟩ : ∃ n, fuel = n + 1 := ⟨fuel - 1, by omega⟩
    obtain ⟨he, hcs⟩ := hcs
    obtain ⟨c, hc⟩ := mem_letters_iff.mp he
    have hu : e ≠ byte 'u' := by
      rintro rfl
      have hletter : byte 'u' ∈ Chr.letters := he
      exact absurd hletter (by decide)
    simp only [stringText_cons, Chr.text, List.cons_append, List.nil_append]
    rw [strBody, if_neg (by decide), if_pos rfl, h.simple e _ hu, hc, Option.map_some,
      Option.bind_some]
    rw [ih hcs fuel (by omega)]
    simp
  | case4 a b c d a' b' c' d' x s htwo ih =>
    rw [List.forall_mem_cons, List.forall_mem_cons] at hcs
    rw [List.length_cons, List.length_cons] at hfuel
    obtain ⟨fuel, rfl⟩ : ∃ n, fuel = n + 1 := ⟨fuel - 1, by omega⟩
    obtain ⟨hdigits, hdigits', hcs⟩ := hcs
    have hhex' := hex4_unicode hdigits' (stringText x ++ byte '"' :: r)
    have hpair := h.pair (hex4_unicode hdigits _) hhex'
    rw [htwo] at hpair
    simp only [stringText_cons, Chr.text, List.cons_append, List.nil_append]
    rw [strBody, if_neg (by decide), if_pos rfl, hpair, Option.bind_some, ih hcs fuel (by omega)]
    simp
  | case5 a b c d a' b' c' d' x htwo ih =>
    rw [List.forall_mem_cons] at hcs
    rw [List.length_cons] at hfuel
    obtain ⟨fuel, rfl⟩ : ∃ n, fuel = n + 1 := ⟨fuel - 1, by omega⟩
    obtain ⟨hdigits, hcs⟩ := hcs
    have hdigits' := hcs _ List.mem_cons_self
    have hhex' := hex4_unicode hdigits' (stringText x ++ byte '"' :: r)
    have hpair := h.pair (hex4_unicode hdigits _) hhex'
    rw [htwo] at hpair
    have hrest := ih hcs fuel (by omega)
    simp only [stringText_cons, Chr.text, List.cons_append, List.nil_append] at hrest ⊢
    rw [strBody, if_neg (by decide), if_pos rfl, hpair, Option.bind_some, hrest]
    simp
  | case6 a b c d x hx ih =>
    rw [List.forall_mem_cons] at hcs
    rw [List.length_cons] at hfuel
    obtain ⟨fuel, rfl⟩ : ∃ n, fuel = n + 1 := ⟨fuel - 1, by omega⟩
    obtain ⟨hdigits, hcs⟩ := hcs
    have hlone := h.lone (hex4_unicode hdigits (stringText x ++ byte '"' :: r)) (by
      intro r' hr'
      obtain ⟨a', b', c', d', y, rfl, -⟩ := exists_unicode hcs hr'.symm
      exact hx a' b' c' d' y rfl)
    simp only [stringText_cons, Chr.text, List.cons_append, List.nil_append]
    rw [strBody, if_neg (by decide), if_pos rfl, hlone, Option.bind_some, ih hcs fuel (by omega)]
    simp

theorem length_le_stringText (cs : List Chr) : cs.length ≤ (stringText cs).length := by
  induction cs with
  | nil => simp
  | cons c cs ih =>
    rw [stringText_cons, List.length_append, List.length_cons]
    cases c <;> simp [Chr.text] <;> omega

theorem string_sound (h : Decodes two one escape) (hraw : ∀ c, raw c = true ↔ 0x20 ≤ c)
    {s x r : Bytes} (hread : string escape raw s = some (x, r)) :
    ∃ cs, (∀ c ∈ cs, Chr.Ok c) ∧ s = literal cs ++ r ∧ x = decode two one cs := by
  cases s with
  | nil => cases hread
  | cons c s =>
    rw [string] at hread
    split_ifs at hread with hc
    obtain ⟨cs, hcs, rfl, rfl⟩ := strBody_sound h hraw hread
    exact ⟨cs, hcs, by simp [literal, hc], rfl⟩

theorem string_complete (h : Decodes two one escape) (hraw : ∀ c, raw c = true ↔ 0x20 ≤ c)
    {cs : List Chr} (r : Bytes) (hcs : ∀ c ∈ cs, Chr.Ok c) :
    string escape raw (literal cs ++ r) = some (decode two one cs, r) := by
  have hlen := length_le_stringText cs
  simp only [literal, List.cons_append, List.append_assoc, List.nil_append]
  rw [string, if_pos rfl]
  apply strBody_complete h hraw hcs
  rw [List.length_append, List.length_cons]
  omega

theorem strBody_bound (hescape : ∀ s e, escape s = some e → e.2.length < s.length)
    {fuel fuel' : ℕ} {s : Bytes} (hs : s.length ≤ fuel) (hs' : s.length ≤ fuel') :
    strBody escape raw fuel s = strBody escape raw fuel' s := by
  induction fuel generalizing fuel' s with
  | zero =>
    obtain rfl := List.length_eq_zero_iff.mp (Nat.le_zero.mp hs)
    cases fuel' <;> rfl
  | succ fuel ih =>
    cases s with
    | nil => cases fuel' <;> rfl
    | cons c s =>
      rw [List.length_cons] at hs hs'
      obtain ⟨fuel', rfl⟩ : ∃ n, fuel' = n + 1 := ⟨fuel' - 1, by omega⟩
      have hrest := @ih fuel' s (by omega) (by omega)
      have hback : ∀ e, escape s = some e →
          strBody escape raw fuel e.2 = strBody escape raw fuel' e.2 := by
        intro e he
        have hlt := hescape s e he
        exact ih (by omega) (by omega)
      rw [strBody, strBody, hrest, Option.bind_congr fun e he => by rw [hback e he]]

theorem Decodes.length_lt (h : Decodes two one escape) {s : Bytes} {e : Bytes × Bytes}
    (he : escape s = some e) : e.2.length < s.length := by
  cases s with
  | nil =>
    rw [h.nil] at he
    cases he
  | cons k s =>
    by_cases hk : k = byte 'u'
    · subst hk
      cases hhex : hex4 s with
      | none =>
        rw [h.bad s hhex] at he
        cases he
      | some p =>
        obtain ⟨u, q⟩ := p
        obtain ⟨a, b, c, d, rfl, -, rfl⟩ := hex4_eq_some_iff.mp hhex
        by_cases hsecond : ∃ q', q = byte '\\' :: byte 'u' :: q'
        · obtain ⟨q', rfl⟩ := hsecond
          cases hhex' : hex4 q' with
          | none =>
            rcases h.broken hhex hhex' with hnone | hone
            · rw [hnone] at he
              cases he
            · rw [hone] at he
              cases he
              simp
          | some p' =>
            obtain ⟨v, q''⟩ := p'
            obtain ⟨a', b', c', d', rfl, -, rfl⟩ := hex4_eq_some_iff.mp hhex'
            rw [h.pair hhex hhex'] at he
            split at he
            · cases he
              simp
              omega
            · cases he
              simp
        · rw [h.lone hhex fun q' hq => hsecond ⟨q', hq⟩] at he
          cases he
          simp
          omega
    · rw [h.simple k s hk] at he
      obtain ⟨c, -, rfl⟩ := Option.map_eq_some_iff.mp he
      simp

end Decode

end ReadyUp.Support.JsonTree
