import ReadyUp.Support.Strto

/-!
# Where a number in text ends

`strtod` takes the longest number that a text begins with. Blanks after the number and the case of
its letters change nothing (`floatPrefix_append`, `floatPrefix_lower`), and the text of a number is
read to its end (`floatPrefix_text`).
-/
namespace ReadyUp.Support

section Append

/-- What cannot go on with a number: nothing, or a blank. -/
def Stops (e : Bytes) : Prop := ∀ c ∈ e.head?, isSpace c = true

variable {e : Bytes}

theorem forall_isSpace {P : UInt8 → Prop} [DecidablePred P]
    (h : ([9, 10, 11, 12, 13, 32] : Bytes).all (fun c => P c) = true) {c : UInt8}
    (hc : isSpace c = true) : P c := by
  refine of_decide_eq_true (List.all_eq_true.mp h c ?_)
  rw [isSpace_iff] at hc
  have hmem : c.toNat = 9 ∨ c.toNat = 10 ∨ c.toNat = 11 ∨ c.toNat = 12 ∨ c.toNat = 13 ∨
      c.toNat = 32 := by omega
  simp only [List.mem_cons, List.not_mem_nil, or_false, ← UInt8.toNat_inj]
  exact hmem

theorem span_append {p : UInt8 → Bool} (hp : ∀ c, isSpace c = true → p c = false) (he : Stops e)
    (s : Bytes) :
    (s ++ e).takeWhile p = s.takeWhile p ∧ (s ++ e).dropWhile p = s.dropWhile p ++ e := by
  induction s with
  | nil =>
    cases e with
    | nil => exact ⟨rfl, rfl⟩
    | cons c e =>
      have hc : p c = false := hp c (he c rfl)
      simp [hc]
  | cons c s ih =>
    rw [List.cons_append, List.takeWhile_cons, List.takeWhile_cons, List.dropWhile_cons,
      List.dropWhile_cons]
    split_ifs
    · exact ⟨congrArg _ ih.1, ih.2⟩
    · exact ⟨rfl, rfl⟩

theorem isDigit_of_isSpace (c : UInt8) (hc : isSpace c = true) : isDigit c = false :=
  forall_isSpace (P := fun c => isDigit c = false) (by decide) hc

theorem isHexDigit_of_isSpace (c : UInt8) (hc : isSpace c = true) : isHexDigit c = false :=
  forall_isSpace (P := fun c => isHexDigit c = false) (by decide) hc

theorem sign_append {s : Bytes} (hs : s ≠ []) (e : Bytes) :
    sign (s ++ e) = ((sign s).1, (sign s).2 ++ e) := by
  obtain ⟨c, t, rfl⟩ := List.exists_cons_of_ne_nil hs
  rw [List.cons_append, sign, sign]
  split_ifs <;> rfl

theorem sign_stops (he : Stops e) : sign e = (false, e) := by
  cases e with
  | nil => rfl
  | cons c e =>
    have hc : c ≠ byte '-' ∧ c ≠ byte '+' :=
      forall_isSpace (P := fun c => c ≠ byte '-' ∧ c ≠ byte '+') (by decide) (he c rfl)
    rw [sign, if_neg hc.1, if_neg hc.2]

theorem afterWord_append {word : Bytes} (hword : word.all (fun c => !isSpace c) = true)
    (he : Stops e) (s : Bytes) : afterWord word (s ++ e) = (afterWord word s).map (· ++ e) := by
  simp only [List.all_eq_true, Bool.not_eq_true'] at hword
  rw [afterWord, afterWord]
  by_cases hlen : word.length ≤ s.length
  · rw [List.take_append_of_le_length hlen, List.drop_append_of_le_length hlen]
    split_ifs <;> rfl
  · rw [not_le] at hlen
    have hshort : (s.take word.length).map toLower ≠ word := by
      intro heq
      have hcount := congrArg List.length heq
      rw [List.length_map, List.length_take] at hcount
      omega
    rw [if_neg hshort, if_neg]
    · rfl
    · intro heq
      cases e with
      | nil =>
        rw [List.append_nil] at heq
        exact hshort heq
      | cons c e =>
        -- the blank would be a byte of the word
        have hmem : toLower c ∈ word := by
          rw [← heq]
          apply List.mem_map_of_mem
          rw [List.take_append, List.mem_append]
          right
          obtain ⟨k, hk⟩ := Nat.exists_eq_add_of_lt hlen
          rw [hk, show s.length + k + 1 - s.length = k + 1 by omega, List.take_succ_cons]
          exact List.mem_cons_self
        have hblank := hword _ hmem
        rw [isSpace_toLower, he c rfl] at hblank
        cases hblank

theorem exponentSuffix_append {mark : UInt8} (hmark : isSpace mark = false) (he : Stops e)
    (s : Bytes) :
    exponentSuffix mark (s ++ e) = ((exponentSuffix mark s).1, (exponentSuffix mark s).2 ++ e) := by
  have hblank : ∀ c, isSpace c = true → toLower c ≠ mark := by
    rintro c hc rfl
    rw [isSpace_toLower, hc] at hmark
    cases hmark
  cases s with
  | nil =>
    cases e with
    | nil => rfl
    | cons c e =>
      have hnone : exponentSuffix mark (c :: e) = (0, c :: e) := by
        rw [exponentSuffix]
        exact if_neg fun h => hblank c (he c rfl) h.1
      exact hnone
  | cons c t =>
    rw [List.cons_append, exponentSuffix, exponentSuffix]
    dsimp only
    cases t with
    | nil =>
      rw [List.nil_append, sign_stops he]
      dsimp only
      have hdigits : e.takeWhile isDigit = [] := (span_append isDigit_of_isSpace he []).1
      rw [hdigits, if_neg (by simp), if_neg (by simp [sign])]
      rfl
    | cons d t =>
      rw [sign_append (List.cons_ne_nil d t)]
      dsimp only
      obtain ⟨htake, hdrop⟩ := span_append isDigit_of_isSpace he (sign (d :: t)).2
      rw [htake, hdrop]
      split_ifs <;> rfl

theorem fractionPart_append (he : Stops e) (s : Bytes) :
    fractionPart (s ++ e) = ((fractionPart s).1, (fractionPart s).2 ++ e) := by
  cases s with
  | nil =>
    cases e with
    | nil => rfl
    | cons c e =>
      have hc : c ≠ byte '.' := forall_isSpace (P := (· ≠ byte '.')) (by decide) (he c rfl)
      have hnone : fractionPart (c :: e) = (none, c :: e) := if_neg hc
      exact hnone
  | cons c t =>
    obtain ⟨htake, hdrop⟩ := span_append isDigit_of_isSpace he t
    rw [List.cons_append, fractionPart, fractionPart, htake, hdrop]
    split_ifs <;> rfl

theorem decimalPrefix_append (he : Stops e) (s : Bytes) :
    decimalPrefix (s ++ e) = (decimalPrefix s).map fun q => (q.1, q.2 ++ e) := by
  obtain ⟨htake, hdrop⟩ := span_append isDigit_of_isSpace he s
  rw [decimalPrefix, decimalPrefix, htake, hdrop, fractionPart_append he]
  dsimp only
  rw [exponentSuffix_append (by decide) he]
  split_ifs <;> rfl

theorem hexPrefix_append (he : Stops e) (s : Bytes) :
    hexPrefix (s ++ e) = (hexPrefix s).map fun q => (q.1, q.2 ++ e) := by
  rw [hexPrefix, hexPrefix, afterWord_append (by decide) he]
  cases afterWord (ascii "0x") s with
  | none => rfl
  | some s =>
    obtain ⟨htake, hdrop⟩ := span_append isHexDigit_of_isSpace he s
    rw [Option.map_some, Option.bind_some, Option.bind_some, htake, hdrop]
    have hexp := exponentSuffix_append (by decide : isSpace (byte 'p') = false) he
    cases s.dropWhile isHexDigit with
    | nil =>
      cases e with
      | nil => simp
      | cons c e =>
        have hc : c ≠ byte '.' := forall_isSpace (P := (· ≠ byte '.')) (by decide) (he c rfl)
        have hrest := hexp []
        rw [List.nil_append] at hrest ⊢
        dsimp only
        rw [if_neg hc]
        dsimp only
        rw [hrest]
        split_ifs <;> rfl
    | cons c t =>
      obtain ⟨htake', hdrop'⟩ := span_append isHexDigit_of_isSpace he t
      dsimp only [List.cons_append]
      rw [htake', hdrop']
      by_cases hc : c = byte '.'
      · rw [if_pos hc, if_pos hc]
        dsimp only
        rw [hexp]
        split_ifs <;> rfl
      · rw [if_neg hc, if_neg hc]
        dsimp only
        rw [← List.cons_append, hexp]
        split_ifs <;> rfl

theorem afterNaN_append (he : Stops e) (s : Bytes) : afterNaN (s ++ e) = afterNaN s ++ e := by
  cases s with
  | nil =>
    cases e with
    | nil => rfl
    | cons c e =>
      have hc : c ≠ byte '(' := forall_isSpace (P := (· ≠ byte '(')) (by decide) (he c rfl)
      exact if_neg fun h => hc h.1
  | cons c t =>
    have hword : ∀ b, isSpace b = true → (isAlnum b || b == byte '_') = false := fun b hb =>
      forall_isSpace (P := fun b => (isAlnum b || b == byte '_') = false) (by decide) hb
    rw [List.cons_append, afterNaN, afterNaN, (span_append hword he t).2]
    cases ht : t.dropWhile (fun b => isAlnum b || b == byte '_') with
    | nil =>
      have hend : e.head? ≠ some (byte ')') := by
        intro hhead
        exact absurd (he _ hhead) (by decide)
      rw [List.nil_append, if_neg fun h => hend h.2, if_neg fun h => by cases h.2]
      rfl
    | cons d u =>
      rw [List.cons_append, List.head?_cons, List.head?_cons]
      by_cases hclosed : c = byte '(' ∧ some d = some (byte ')')
      · rw [if_pos hclosed, if_pos hclosed]
        rfl
      · rw [if_neg hclosed, if_neg hclosed]
        rfl

def afterSign (u : Bytes) : Option (FloatText × Bytes) :=
  (((afterWord (ascii "infinity") u).map (FloatText.inf, ·)).or
    ((afterWord (ascii "inf") u).map (FloatText.inf, ·))).or
      (((afterWord (ascii "nan") u).map fun r => (FloatText.nan, afterNaN r)).or
        (((hexPrefix u).or (decimalPrefix u)).map fun q => (FloatText.num q.1, q.2)))

theorem floatPrefix_eq (s : Bytes) :
    floatPrefix s = (afterSign (sign (s.dropWhile isSpace)).2).map fun t =>
      ((sign (s.dropWhile isSpace)).1, t) := by
  rw [floatPrefix, afterSign]
  dsimp only
  split
  · rename_i hword
    simp [hword]
  · rename_i hinf hword
    simp [hinf, hword]
  · rename_i hinf hword hnan
    simp [hinf, hword, hnan]
  · rename_i hinf hword hnan
    simp only [hinf, hword, hnan, Option.map_none, Option.none_or, Option.map_map]
    rfl

theorem afterSign_append (he : Stops e) (u : Bytes) :
    afterSign (u ++ e) = (afterSign u).map fun x => (x.1, x.2 ++ e) := by
  rw [afterSign, afterSign, afterWord_append (by decide) he, afterWord_append (by decide) he,
    afterWord_append (by decide) he, hexPrefix_append he, decimalPrefix_append he]
  simp only [Option.map_or, Option.map_map, Function.comp_def, afterNaN_append he]

theorem floatPrefix_append (he : Stops e) {s rest : Bytes} {neg : Bool} {t : FloatText}
    (h : floatPrefix s = some (neg, t, rest)) :
    floatPrefix (s ++ e) = some (neg, t, rest ++ e) := by
  have hu : s.dropWhile isSpace ≠ [] := by
    intro hnil
    rw [floatPrefix_eq, hnil] at h
    cases h
  have hdrop : (s ++ e).dropWhile isSpace = s.dropWhile isSpace ++ e := by
    rw [List.dropWhile_append, if_neg]
    simpa using hu
  rw [floatPrefix_eq] at h
  obtain ⟨x, hx, heq⟩ := Option.map_eq_some_iff.mp h
  cases heq
  rw [floatPrefix_eq, hdrop, sign_append hu, afterSign_append he, hx]
  rfl

end Append

section Lower

theorem isDigit_iff {c : UInt8} : isDigit c = true ↔ 48 ≤ c.toNat ∧ c.toNat ≤ 57 := by
  rw [isDigit, Bool.and_eq_true, decide_eq_true_eq, decide_eq_true_eq]
  exact Iff.rfl

theorem isLower_iff {c : UInt8} : isLower c = true ↔ 97 ≤ c.toNat ∧ c.toNat ≤ 122 := by
  rw [isLower, Bool.and_eq_true, decide_eq_true_eq, decide_eq_true_eq]
  exact Iff.rfl

theorem isDigit_toLower (c : UInt8) : isDigit (toLower c) = isDigit c := by
  rw [Bool.eq_iff_iff, isDigit_iff, isDigit_iff, toNat_toLower]
  split_ifs <;> omega

theorem isAlnum_toLower (c : UInt8) : isAlnum (toLower c) = isAlnum c := by
  rw [Bool.eq_iff_iff]
  simp only [isAlnum, Bool.or_eq_true, isUpper_iff, isLower_iff, isDigit_iff, toNat_toLower]
  split_ifs <;> omega

theorem hexValue_toLower (c : UInt8) : JsonScan.hexValue (toLower c) = JsonScan.hexValue c := by
  by_cases hupper : isUpper c = true
  · obtain ⟨hlow, hhigh⟩ := isUpper_iff.mp hupper
    have hletters : (List.range 26).all (fun n =>
        JsonScan.hexValue (toLower (65 + n).toUInt8) = JsonScan.hexValue (65 + n).toUInt8) =
        true := by decide
    have hletter := List.all_eq_true.mp hletters (c.toNat - 65) (List.mem_range.mpr (by omega))
    rw [Nat.add_sub_cancel' hlow, show c.toNat.toUInt8 = c from UInt8.ofNat_toNat] at hletter
    exact of_decide_eq_true hletter
  · rw [toLower, if_neg hupper]

theorem toLower_eq_iff {b : UInt8} (hupper : isUpper b = false) (hlower : isLower b = false)
    (c : UInt8) : toLower c = b ↔ c = b := by
  rw [← Bool.not_eq_true, isUpper_iff] at hupper
  rw [← Bool.not_eq_true, isLower_iff] at hlower
  rw [← UInt8.toNat_inj, ← UInt8.toNat_inj, toNat_toLower]
  split_ifs <;> omega

theorem span_lower {p : UInt8 → Bool} (hp : ∀ c, p (toLower c) = p c) (s : Bytes) :
    (s.map toLower).takeWhile p = (s.takeWhile p).map toLower ∧
      (s.map toLower).dropWhile p = (s.dropWhile p).map toLower := by
  have hcomp : p ∘ toLower = p := funext hp
  rw [List.takeWhile_map, List.dropWhile_map, hcomp]
  exact ⟨rfl, rfl⟩

theorem takeWhile_isDigit_lower (s : Bytes) :
    (s.map toLower).takeWhile isDigit = s.takeWhile isDigit := by
  rw [(span_lower isDigit_toLower s).1]
  refine (List.map_congr_left fun c hc => ?_).trans (List.map_id _)
  exact toLower_digit (List.mem_takeWhile_imp hc)

theorem sign_lower (s : Bytes) : sign (s.map toLower) = ((sign s).1, (sign s).2.map toLower) := by
  cases s with
  | nil => rfl
  | cons c s =>
    rw [List.map_cons, sign, sign]
    simp only [@toLower_eq_iff (byte '-') (by decide) (by decide),
      @toLower_eq_iff (byte '+') (by decide) (by decide)]
    split_ifs <;> rfl

theorem afterWord_lower (word s : Bytes) :
    afterWord word (s.map toLower) = (afterWord word s).map (·.map toLower) := by
  have htwice : toLower ∘ toLower = toLower := funext toLower_toLower
  rw [afterWord, afterWord, ← List.map_take, ← List.map_drop, List.map_map, htwice]
  split_ifs <;> rfl

theorem exponentSuffix_lower (mark : UInt8) (s : Bytes) :
    exponentSuffix mark (s.map toLower) =
      ((exponentSuffix mark s).1, (exponentSuffix mark s).2.map toLower) := by
  cases s with
  | nil => rfl
  | cons c t =>
    rw [List.map_cons, exponentSuffix, exponentSuffix, sign_lower]
    dsimp only
    rw [takeWhile_isDigit_lower, (span_lower isDigit_toLower _).2, toLower_toLower]
    split_ifs <;> rfl

theorem fractionPart_lower (s : Bytes) :
    fractionPart (s.map toLower) = ((fractionPart s).1, (fractionPart s).2.map toLower) := by
  cases s with
  | nil => rfl
  | cons c t =>
    rw [List.map_cons, fractionPart, fractionPart, takeWhile_isDigit_lower,
      (span_lower isDigit_toLower _).2]
    simp only [@toLower_eq_iff (byte '.') (by decide) (by decide)]
    split_ifs <;> rfl

theorem decimalPrefix_lower (s : Bytes) :
    decimalPrefix (s.map toLower) = (decimalPrefix s).map fun q => (q.1, q.2.map toLower) := by
  rw [decimalPrefix, decimalPrefix, takeWhile_isDigit_lower, (span_lower isDigit_toLower s).2,
    fractionPart_lower]
  dsimp only
  rw [exponentSuffix_lower]
  split_ifs <;> rfl

theorem ofHexDigits_lower (s : Bytes) : ofHexDigits (s.map toLower) = ofHexDigits s := by
  rw [ofHexDigits, ofHexDigits, List.foldl_map]
  simp only [hexValue_toLower]

theorem hexPrefix_lower (s : Bytes) :
    hexPrefix (s.map toLower) = (hexPrefix s).map fun q => (q.1, q.2.map toLower) := by
  have hhex : ∀ c, isHexDigit (toLower c) = isHexDigit c :=
    fun c => congrArg Option.isSome (hexValue_toLower c)
  rw [hexPrefix, hexPrefix, afterWord_lower]
  cases afterWord (ascii "0x") s with
  | none => rfl
  | some s =>
    obtain ⟨htake, hdrop⟩ := span_lower hhex s
    rw [Option.map_some, Option.bind_some, Option.bind_some, htake, hdrop]
    cases s.dropWhile isHexDigit with
    | nil =>
      rw [List.map_nil]
      dsimp only
      rw [List.append_nil, List.append_nil, ofHexDigits_lower]
      by_cases hnil : s.takeWhile isHexDigit = []
      · rw [if_pos hnil, hnil]
        rfl
      · rw [if_neg hnil, if_neg (by rwa [List.map_eq_nil_iff])]
        rfl
    | cons c t =>
      obtain ⟨htake', hdrop'⟩ := span_lower hhex t
      rw [List.map_cons]
      dsimp only
      by_cases hc : c = byte '.'
      · rw [if_pos hc, if_pos ((@toLower_eq_iff (byte '.') (by decide) (by decide) c).mpr hc),
          htake', hdrop']
        dsimp only
        rw [exponentSuffix_lower, ← List.map_append, ofHexDigits_lower, List.length_map]
        simp only [List.map_eq_nil_iff]
        split_ifs <;> rfl
      · rw [if_neg hc, if_neg fun h =>
          hc ((@toLower_eq_iff (byte '.') (by decide) (by decide) c).mp h)]
        dsimp only
        rw [← List.map_cons, exponentSuffix_lower, List.append_nil, List.append_nil,
          ofHexDigits_lower]
        simp only [List.map_eq_nil_iff]
        split_ifs <;> rfl

theorem afterNaN_lower (s : Bytes) : afterNaN (s.map toLower) = (afterNaN s).map toLower := by
  cases s with
  | nil => rfl
  | cons c t =>
    have hword :
        ∀ b, (isAlnum (toLower b) || toLower b == byte '_') = (isAlnum b || b == byte '_') := by
      intro b
      rw [isAlnum_toLower, Bool.eq_iff_iff]
      simp only [Bool.or_eq_true, beq_iff_eq, @toLower_eq_iff (byte '_') (by decide) (by decide)]
    rw [List.map_cons, afterNaN, afterNaN, (span_lower hword t).2]
    cases t.dropWhile (fun b => isAlnum b || b == byte '_') with
    | nil =>
      have hopen : ∀ c : UInt8, ¬(c = byte '(' ∧ ([] : Bytes).head? = some (byte ')')) :=
        fun c h => by cases h.2
      rw [List.map_nil, if_neg (hopen _), if_neg (hopen _)]
      rfl
    | cons d u =>
      simp only [List.map_cons, List.head?_cons, Option.some.injEq,
        @toLower_eq_iff (byte '(') (by decide) (by decide),
        @toLower_eq_iff (byte ')') (by decide) (by decide)]
      split_ifs <;> rfl

theorem afterSign_lower (u : Bytes) : afterSign (u.map toLower) = (afterSign u).map fun x =>
    (x.1, x.2.map toLower) := by
  rw [afterSign, afterSign, afterWord_lower, afterWord_lower, afterWord_lower, hexPrefix_lower,
    decimalPrefix_lower]
  simp only [Option.map_or, Option.map_map, Function.comp_def, afterNaN_lower]

theorem floatPrefix_lower (s : Bytes) :
    floatPrefix (s.map toLower) = (floatPrefix s).map fun t => (t.1, t.2.1, t.2.2.map toLower) := by
  rw [floatPrefix_eq, floatPrefix_eq, (span_lower isSpace_toLower s).2, sign_lower, afterSign_lower,
    Option.map_map, Option.map_map]
  rfl

end Lower

section Text

open JsonScan

variable {n : NumToken}

theorem afterWord_eq_none {word s : Bytes} {c : UInt8} (hc : c ∈ word)
    (hs : ∀ b ∈ s, toLower b ≠ c) : afterWord word s = none := by
  rw [afterWord, if_neg]
  intro heq
  rw [← heq] at hc
  obtain ⟨b, hb, hlower⟩ := List.mem_map.mp hc
  exact hs b (List.mem_of_mem_take hb) hlower

/-- The letters of the words are not in the text of a number. -/
theorem toLower_ne_of_mem_text (h : n.WellFormed) {c : UInt8}
    (hc : c ∈ [byte 'i', byte 'n', byte 'x']) : ∀ b ∈ n.text, toLower b ≠ c := by
  intro b hb
  rcases byte_of_mem_text h hb with hdigit | hmark
  · rw [toLower_digit hdigit]
    rintro rfl
    have hletters : ∀ c ∈ [byte 'i', byte 'n', byte 'x'], isDigit c = false := by
      simp only [List.forall_mem_cons]
      exact ⟨by decide, by decide, by decide, fun _ h => by cases h⟩
    rw [hletters b hc] at hdigit
    cases hdigit
  · have hmarks :
        ∀ b ∈ [byte '-', byte '.', byte 'e', byte '+'], toLower b ∉
          [byte 'i', byte 'n', byte 'x'] := by
      simp only [List.forall_mem_cons]
      exact ⟨by decide, by decide, by decide, by decide, fun _ h => by cases h⟩
    rintro rfl
    exact hmarks b hmark hc

theorem exponentSuffix_text (h : n.WellFormed) :
    exponentSuffix (byte 'e') n.expText = (n.expValue, []) := by
  obtain ⟨neg, int, frac, exp⟩ := n
  cases exp with
  | none => rfl
  | some e =>
    obtain ⟨eneg, ds⟩ := e
    obtain ⟨hne, hdigits⟩ := h.2.2 _ rfl
    have hsign : sign ((if eneg then byte '-' else byte '+') :: ds) = (eneg, ds) := by
      cases eneg <;> rfl
    rw [NumToken.expText, exponentSuffix, hsign]
    dsimp only
    rw [List.takeWhile_eq_self_iff.mpr hdigits, List.dropWhile_eq_nil_iff.mpr hdigits,
      if_pos ⟨rfl, hne⟩]
    rfl

theorem decimalPrefix_text (h : n.WellFormed) :
    decimalPrefix (n.int ++ (n.fracText ++ n.expText)) = some (n.value, []) := by
  have hend : NumEnd [] := fun c hc => (by cases hc)
  have hfracHead := head_fracText (n := n) hend
  have hexpHead := head_expText (n := n) hend
  rw [List.append_nil] at hfracHead hexpHead
  obtain ⟨htake, hdrop⟩ := takeWhile_digits h.1.2 hfracHead
  have hne : n.int ++ n.frac.getD [] ≠ [] := by simp [h.1.1]
  rw [decimalPrefix, htake, hdrop, fractionPart_text h hexpHead]
  dsimp only
  rw [if_neg hne, exponentSuffix_text h]
  rfl

theorem floatPrefix_text (h : n.WellFormed) :
    floatPrefix n.text = some (n.neg, .num n.value, []) := by
  have hspace : n.text.dropWhile isSpace = n.text := by
    obtain ⟨c, s, hs, hc⟩ := text_head h
    have hnot : isSpace c = false := by
      rcases hc with rfl | hdigit
      · decide
      · by_contra hblank
        rw [isDigit_of_isSpace c (by simpa using hblank)] at hdigit
        cases hdigit
    rw [hs, List.dropWhile_cons_of_neg (by simp [hnot])]
  have hsub : ∀ b ∈ n.int ++ (n.fracText ++ n.expText), b ∈ n.text :=
    fun b hb => List.mem_append_right _ hb
  have hword : ∀ {word : Bytes} {c : UInt8}, c ∈ word → c ∈ [byte 'i', byte 'n', byte 'x'] →
      afterWord word (n.int ++ (n.fracText ++ n.expText)) = none := fun hmem hc =>
    afterWord_eq_none hmem fun b hb => toLower_ne_of_mem_text h hc b (hsub b hb)
  have hhex : hexPrefix (n.int ++ (n.fracText ++ n.expText)) = none := by
    rw [hexPrefix, hword (c := byte 'x') (by decide) (by decide)]
    rfl
  rw [floatPrefix_eq, hspace, sign_text h]
  dsimp only
  rw [afterSign, hword (c := byte 'i') (by decide) (by decide),
    hword (c := byte 'i') (by decide) (by decide),
    hword (c := byte 'n') (by decide) (by decide), hhex, decimalPrefix_text h]
  rfl

theorem numberIn_text (h : n.WellFormed) : numberIn n.text = some (signed n.neg n.value) := by
  rw [numberIn, floatPrefix_text h]
  exact if_pos (.inl rfl)

theorem strtod_text (h : n.WellFormed) : Support.strtod n.text = some (n.strtod, []) := by
  rw [Support.strtod, floatPrefix_text h]
  rfl

theorem numberIn_toDecimal (i : ℤ) : numberIn (toDecimal i) = some (i : ℚ) := by
  rw [← intToken_text, numberIn_text (intToken_wellFormed i), value_intToken]
  exact congrArg some (signed_natAbs i)

theorem toDecimal_injective {i j : ℤ} (h : toDecimal i = toDecimal j) : i = j := by
  have hnumber := numberIn_toDecimal i
  rw [h, numberIn_toDecimal, Option.some.injEq, Int.cast_inj] at hnumber
  exact hnumber.symm

end Text

end ReadyUp.Support
