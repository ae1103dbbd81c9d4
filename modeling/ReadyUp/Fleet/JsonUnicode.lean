import ReadyUp.Fleet.JsonSyntax
import ReadyUp.Status.JsonSyntax

/-!
# Escaped characters in the two readers of JSON

Both readers look at a second escape behind a high surrogate and take it away, whatever it is. The
one of the fleet link writes a replacement and the second code unit as it is, which is wrong when
that is a high surrogate too (`Fleet.JsonText.decode_iff`). The one of the status library drops the
second code unit, and writes the bytes of a surrogate that stands alone (`Status.Json.decode_iff`).
-/
namespace ReadyUp

open Support JsonScan JsonTree

section Alone

variable {two : ℕ → ℕ → Option Bytes} {one : ℕ → Bytes} {a b c d : UInt8}

/-- An escape with no escape behind it is decoded by itself. -/
theorem decode_unicode_of_not {k : Chr} (hk : ∀ a' b' c' d', k ≠ .unicode a' b' c' d')
    (x : List Chr) :
    decode two one (.unicode a b c d :: k :: x) = one (codeUnit a b c d) ++
      decode two one (k :: x) := by
  apply decode_unicode
  rintro a' b' c' d' y heq
  exact absurd (List.cons.inj heq).1 (hk a' b' c' d')

theorem decode_unicode_nil : decode two one [.unicode a b c d] = one (codeUnit a b c d) := by
  simp [decode]

end Alone

namespace Fleet.JsonText

theorem noTwoHigh_cons {k k' : Chr} {x : List Chr} (h : k.isHigh = false) :
    NoTwoHigh (k :: k' :: x) ↔ NoTwoHigh (k' :: x) := by
  simp [NoTwoHigh, List.isChain_cons_cons, h]

theorem noTwoHigh_cons_of_next {k k' : Chr} {x : List Chr} (h : k'.isHigh = false) :
    NoTwoHigh (k :: k' :: x) ↔ NoTwoHigh (k' :: x) := by
  simp [NoTwoHigh, List.isChain_cons_cons, h]

theorem noTwoHigh_tail {k : Chr} {x : List Chr} (h : k.isHigh = false) :
    NoTwoHigh (k :: x) ↔ NoTwoHigh x := by
  cases x with
  | nil => simp [NoTwoHigh]
  | cons k' x => exact noTwoHigh_cons h

/-- The reader of the fleet link takes a string for what it stands for unless a high surrogate is
behind another. -/
theorem decode_iff (x : List Chr) : decode pairOf alone x = replaced x ↔ NoTwoHigh x := by
  unfold replaced
  induction hlen : x.length using Nat.strong_induction_on generalizing x with
  | _ n ih =>
    have hrec : ∀ y : List Chr, y.length < x.length →
        (decode pairOf alone y = decode paired alone y ↔ NoTwoHigh y) :=
          fun y hy => ih _ (hlen ▸ hy) y rfl
    cases x with
    | nil => simp [decode, NoTwoHigh]
    | cons k x =>
      have hx := hrec x (by simp)
      cases k with
      | raw c =>
        rw [noTwoHigh_tail rfl, ← hx]
        simp [decode]
      | simple e =>
        rw [noTwoHigh_tail rfl, ← hx]
        simp [decode]
      | unicode a b c d =>
        cases x with
        | nil => simp [decode_unicode_nil, NoTwoHigh]
        | cons k' x =>
          have hx' := hrec x (by simp)
          cases k' with
          | raw c' =>
            rw [noTwoHigh_cons_of_next rfl, ← hx, decode_unicode_of_not (fun _ _ _ _ => by simp),
              decode_unicode_of_not (fun _ _ _ _ => by simp), List.append_cancel_left_eq]
          | simple e =>
            rw [noTwoHigh_cons_of_next rfl, ← hx, decode_unicode_of_not (fun _ _ _ _ => by simp),
              decode_unicode_of_not (fun _ _ _ _ => by simp), List.append_cancel_left_eq]
          | unicode a' b' c' d' =>
            by_cases hhigh : isHighSurrogate (codeUnit a b c d) = true
            · by_cases hlow : isLowSurrogate (codeUnit a' b' c' d') = true
              · -- a pair
                have hnext : Chr.isHigh (.unicode a' b' c' d') = false := by
                  by_contra hboth
                  rw [Bool.not_eq_false] at hboth
                  rw [not_high_and_low hboth] at hlow
                  cases hlow
                rw [noTwoHigh_cons_of_next hnext, noTwoHigh_tail hnext, ← hx']
                simp [decode, pairOf, paired, hhigh, hlow]
              · by_cases hhigh' : isHighSurrogate (codeUnit a' b' c' d') = true
                · -- the second one is written as it is
                  have hnot : ¬NoTwoHigh (.unicode a b c d :: .unicode a' b' c' d' :: x) := by
                    simp [NoTwoHigh, List.isChain_cons_cons, Chr.isHigh, hhigh, hhigh']
                  obtain ⟨r, hr⟩ := putUtf8_surrogate (.inl hhigh')
                  have hne := replaced_high hhigh' x (r ++ decode pairOf alone x)
                  unfold replaced at hne
                  simp only [hnot, iff_false]
                  intro heq
                  rw [decode, decode] at heq
                  simp only [pairOf, paired, hhigh, hlow, if_true, if_false,
                    Bool.false_eq_true, and_false, List.append_assoc, alone_surrogate (.inl hhigh),
                    putUtf8_replacement, hr, List.append_cancel_left_eq] at heq
                  exact hne heq.symm
                · -- no surrogate behind it
                  have hnext : Chr.isHigh (.unicode a' b' c' d') = false := by
                    simpa [Chr.isHigh] using hhigh'
                  rw [Bool.not_eq_true] at hlow hhigh'
                  have hskip : decode paired alone (.unicode a' b' c' d' :: x) =
                      putUtf8 (codeUnit a' b' c' d') ++ decode paired alone x := by
                    rw [decode_unicode fun _ _ _ _ _ _ => paired_of_not hhigh',
                      alone_of_not hhigh' hlow]
                  rw [noTwoHigh_cons_of_next hnext, noTwoHigh_tail hnext, ← hx', decode, decode]
                  simp only [pairOf, paired, hhigh, hlow, if_true, if_false,
                    Bool.false_eq_true, and_false, List.append_assoc, alone_surrogate (.inl hhigh),
                    putUtf8_replacement, hskip, List.append_cancel_left_eq]
            · have hfirst : Chr.isHigh (.unicode a b c d) = false := by
                simpa [Chr.isHigh] using hhigh
              rw [Bool.not_eq_true] at hhigh
              rw [noTwoHigh_cons hfirst, ← hx,
                decode_unicode fun _ _ _ _ _ _ => by simp [pairOf, hhigh],
                decode_unicode fun _ _ _ _ _ _ => paired_of_not hhigh, List.append_cancel_left_eq]

end Fleet.JsonText

namespace Status.Json

theorem putUtf8_ne_alone {u : ℕ} (h : isHighSurrogate u = true ∨ isLowSurrogate u = true)
    (x y : Bytes) : putUtf8 u ++ x ≠ alone u ++ y := by
  obtain ⟨r, hr⟩ := putUtf8_surrogate h
  rw [hr, alone_surrogate h]
  simp only [List.cons_append, ne_eq, List.cons.injEq, not_and]
  intro heq
  exact absurd heq (by decide)

/-- The reader of the status library takes a string for what it stands for exactly when no surrogate
in it stands alone. -/
theorem decode_iff (x : List Chr) : decode pairOf putUtf8 x = replaced x ↔ NoneAlone x := by
  unfold replaced
  induction hlen : x.length using Nat.strong_induction_on generalizing x with
  | _ n ih =>
    have hrec : ∀ y : List Chr, y.length < x.length →
        (decode pairOf putUtf8 y = decode paired alone y ↔ NoneAlone y) :=
          fun y hy => ih _ (hlen ▸ hy) y rfl
    cases x with
    | nil => simp [decode, NoneAlone]
    | cons k x =>
      have hx := hrec x (by simp)
      cases x with
      | nil =>
        cases k with
        | raw c => simp [decode, NoneAlone, Chr.isHigh, Chr.isLow]
        | simple e => simp [decode, NoneAlone, Chr.isHigh, Chr.isLow]
        | unicode a b c d =>
          rw [decode_unicode_nil, decode_unicode_nil, NoneAlone]
          by_cases hsurr : isHighSurrogate (codeUnit a b c d) = true ∨
            isLowSurrogate (codeUnit a b c d) = true
          · have hne := putUtf8_ne_alone hsurr [] []
            rw [List.append_nil, List.append_nil] at hne
            simp only [hne, false_iff, Chr.isHigh, Chr.isLow]
            rintro ⟨h, h'⟩
            rw [h, h'] at hsurr
            simp at hsurr
          · rw [not_or, Bool.not_eq_true, Bool.not_eq_true] at hsurr
            simp [alone_of_not hsurr.1 hsurr.2, Chr.isHigh, Chr.isLow, hsurr]
      | cons k' x =>
        have hx' := hrec x (by simp)
        cases k with
        | raw c =>
          rw [NoneAlone, if_neg (by simp [Chr.isHigh]), ← hx]
          simp [decode, Chr.isLow]
        | simple e =>
          rw [NoneAlone, if_neg (by simp [Chr.isHigh]), ← hx]
          simp [decode, Chr.isLow]
        | unicode a b c d =>
          rw [NoneAlone]
          by_cases hhigh : isHighSurrogate (codeUnit a b c d) = true
          · have hfirst : Chr.isHigh (.unicode a b c d) = true := hhigh
            rw [if_pos hfirst]
            cases k' with
            | raw c' =>
              rw [decode_unicode_of_not (fun _ _ _ _ => by simp),
                decode_unicode_of_not (fun _ _ _ _ => by simp)]
              simp [Chr.isLow, putUtf8_ne_alone (.inl hhigh)]
            | simple e =>
              rw [decode_unicode_of_not (fun _ _ _ _ => by simp),
                decode_unicode_of_not (fun _ _ _ _ => by simp)]
              simp [Chr.isLow, putUtf8_ne_alone (.inl hhigh)]
            | unicode a' b' c' d' =>
              rw [decode, decode, ← hx']
              by_cases hlow : isLowSurrogate (codeUnit a' b' c' d') = true
              · simp [pairOf, paired, hhigh, hlow, Chr.isLow]
              · simp [pairOf, paired, hhigh, hlow, Chr.isLow, putUtf8_ne_alone (.inl hhigh)]
          · have hfirst : ¬Chr.isHigh (.unicode a b c d) = true := hhigh
            rw [if_neg hfirst, ← hx]
            rw [Bool.not_eq_true] at hhigh
            rw [decode_unicode fun _ _ _ _ _ _ => by simp [pairOf, hhigh],
              decode_unicode fun _ _ _ _ _ _ => paired_of_not hhigh]
            by_cases hlow : isLowSurrogate (codeUnit a b c d) = true
            · simp [Chr.isLow, hlow, putUtf8_ne_alone (.inr hlow)]
            · rw [Bool.not_eq_true] at hlow
              simp [Chr.isLow, hlow, alone_of_not hhigh hlow]

end Status.Json

section Readers

/-- The strings of a text in UTF-8 are read for what they stand for: by the reader of the fleet link
unless one of them has two high surrogates behind each other, by that of the status library exactly
when no surrogate in them stands alone. -/
theorem strings_sound_iff {s : Bytes} (hs : IsUtf8 s) :
    (∀ maxDepth, (Fleet.JsonText.lexisBy Fleet.JsonText.numValue).Sound
        (Fleet.JsonText.parse s maxDepth) (maxDepth + 1) s ↔
      ∀ t, Spells (IsNumberBy Digits) (maxDepth + 1) t s → ∀ x ∈ t.val.strings, NoTwoHigh x) ∧
    (Status.Json.lexis.Sound (Status.Json.parse s) 65 s ↔
      ∀ t, Spells Status.Json.IsLooseNumber 65 t s → ∀ x ∈ t.val.strings, NoneAlone x) := by
  constructor
  · intro maxDepth
    have hnumber : (Fleet.JsonText.lexisBy Fleet.JsonText.numValue).Number = IsNumberBy Digits :=
      funext fun n => propext (Fleet.JsonText.number_lexisBy _)
    rw [← hnumber]
    exact Lexis.sound_iff _ Fleet.JsonText.decode_iff (Fleet.JsonText.parse_eq s maxDepth) hs
  · have hnumber : Status.Json.lexis.Number = Status.Json.IsLooseNumber :=
      funext fun n => propext Status.Json.number_lexis
    rw [← hnumber]
    exact Lexis.sound_iff _ Status.Json.decode_iff rfl hs

theorem isUtf8_ascii {s : Bytes} (h : s.all (· < 0x80) = true) : IsUtf8 s := by
  induction s with
  | nil => exact isUtf8_nil
  | cons c s ih =>
    rw [List.all_cons, Bool.and_eq_true] at h
    exact (isUtf8_singleton (of_decide_eq_true h.1)).append (ih h.2)

/-- A text of one letter. -/
theorem strings_sound_iff_letter : IsUtf8 (ascii "\"a\"") ∧
    (∀ maxDepth, (Fleet.JsonText.lexisBy Fleet.JsonText.numValue).Sound
      (Fleet.JsonText.parse (ascii "\"a\"") maxDepth) (maxDepth + 1) (ascii "\"a\"")) ∧
    Status.Json.lexis.Sound (Status.Json.parse (ascii "\"a\"")) 65 (ascii "\"a\"") := by
  have hutf : IsUtf8 (ascii "\"a\"") := isUtf8_ascii (by decide)
  have hplain : byte '\\' ∉ ascii "\"a\"" := by decide
  obtain ⟨hfleet, hstatus⟩ := strings_sound_iff hutf
  refine ⟨hutf, fun maxDepth => (hfleet maxDepth).mpr ?_, hstatus.mpr ?_⟩
  · exact fun t ht x hx => noTwoHigh_of_plain (ht.no_escape hplain hx)
  · exact fun t ht x hx => noneAlone_of_plain (ht.no_escape hplain hx)

def twoHigh : List Chr :=
  [.unicode (byte 'd') (byte '8') (byte '0') (byte '0'),
    .unicode (byte 'd') (byte '8') (byte '0') (byte '0')]

/-- Two high surrogates: the reader of the fleet link writes the second one as it is, that of the
status library drops it and writes the first. -/
theorem two_high_unsound : IsUtf8 (literal twoHigh) ∧
    (Fleet.JsonText.string (literal twoHigh) = some ([0xEF, 0xBF, 0xBD, 0xED, 0xA0, 0x80], []) ∧
      ¬(Fleet.JsonText.lexisBy Fleet.JsonText.numValue).Sound
        (Fleet.JsonText.parse (literal twoHigh) 64) 65 (literal twoHigh)) ∧
    (Status.Json.dialect.string (literal twoHigh) = some ([0xED, 0xA0, 0x80], []) ∧
      ¬Status.Json.lexis.Sound (Status.Json.parse (literal twoHigh)) 65 (literal twoHigh)) := by
  have hok : ∀ c ∈ twoHigh, Chr.Ok c := by
    have hdigits : Chr.isHexDigit (byte 'd') = true ∧ Chr.isHexDigit (byte '8') = true ∧
        Chr.isHexDigit (byte '0') = true ∧ Chr.isHexDigit (byte '0') = true := by decide
    intro c hc
    simp only [twoHigh, List.mem_cons, List.not_mem_nil, or_false, or_self] at hc
    rw [hc]
    exact hdigits
  have hspells : ∀ N, Spells N 65 ⟨[], .str twoHigh, []⟩ (literal twoHigh) :=
    fun N => ⟨blank_nil, blank_nil, .str hok, by simp [Node.text]⟩
  have hmem : twoHigh ∈ (Node.str twoHigh).strings := by simp [Node.strings]
  have hfleet :
      Fleet.JsonText.string (literal twoHigh) =
        some ([0xEF, 0xBF, 0xBD, 0xED, 0xA0, 0x80], []) := by
    decide
  have hstatus : Status.Json.dialect.string (literal twoHigh) = some ([0xED, 0xA0, 0x80], []) := by
    decide
  have hreplaced : replaced twoHigh = [0xEF, 0xBF, 0xBD, 0xEF, 0xBF, 0xBD] := by decide
  have hutf : (literal twoHigh).all (· < 0x80) = true := rfl
  have hunsound : ¬(Fleet.JsonText.lexisBy Fleet.JsonText.numValue).Sound
      (Fleet.JsonText.parse (literal twoHigh) 64) 65 (literal twoHigh) := by
    intro h
    have hread := ((h _ (hspells _)).2 twoHigh hmem).1
    rw [Fleet.JsonText.string_dialectBy, hfleet, hreplaced] at hread
    exact absurd hread (by decide)
  have hunsound' :
      ¬Status.Json.lexis.Sound (Status.Json.parse (literal twoHigh)) 65 (literal twoHigh) := by
    intro h
    have hread := ((h _ (hspells _)).2 twoHigh hmem).1
    rw [hstatus, hreplaced] at hread
    exact absurd hread (by decide)
  exact And.intro (isUtf8_ascii hutf)
    (And.intro (And.intro hfleet hunsound) (And.intro hstatus hunsound'))

end Readers

end ReadyUp
