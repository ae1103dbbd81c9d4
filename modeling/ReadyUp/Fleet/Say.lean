import ReadyUp.Support.Strto
import ReadyUp.Support.Utf8

/-!
# Chat lines

`splitSay` splits a text of the platform into at most three chat lines, at a space where there is
one and never inside a character of UTF-8.

A line is cut by going back over continuation bytes, so a byte with 190 continuation bytes behind it
cannot be cut at all and the loop stands still on it (`Stuck`). No text in UTF-8 has one
(`not_stuck_of_isUtf8`), but the platform's JSON may carry other bytes.

Whether a text fits into the lines is said without the loop: there is a way to lay it out (`Fits`).
The loop takes as much as any layout could for a line (`le_lineCut`), and what it takes is a line of
a layout (`lineCut_breaks`).
-/
namespace ReadyUp.Fleet.Say

open Support JsonTree

section Code

/-- `kSayLineBytes` -/
def lineBytes : ℕ := 190

/-- `kSayMaxLines` -/
def maxLines : ℕ := 3

/-- The loop of `Utf8Cut`. -/
def cutBack (s : Bytes) : ℕ → ℕ
  | 0 => 0
  | cut + 1 => if isCont (s.getD (cut + 1) 0) then cutBack s cut else cut + 1

def utf8Cut (s : Bytes) (maxBytes : ℕ) : ℕ :=
  if s.length ≤ maxBytes then s.length else cutBack s maxBytes

def isPrintable (c : UInt8) : Bool := !(c < 0x20 || c == 0x7f)

def sanitizeSay (text : Bytes) (maxBytes : ℕ) : Bytes :=
  let s := text.filter isPrintable
  s.take (utf8Cut s maxBytes)

def isBlank (c : UInt8) : Bool := c == byte ' '

def trim (s : Bytes) : Bytes := trimBy isBlank s

/-- `rfind(' ', pos)` -/
def lastSpace (s : Bytes) : ℕ → Option ℕ
  | 0 => if isBlank (s.getD 0 0) then some 0 else none
  | pos + 1 => if isBlank (s.getD (pos + 1) 0) then some (pos + 1) else lastSpace s pos

def lineCut (rest : Bytes) : ℕ :=
  let cut := utf8Cut rest lineBytes
  if cut < rest.length then
    match lastSpace rest cut with
    | some sp => if lineBytes / 2 ≤ sp then sp else cut
    | none => cut
  else cut

/-- The loop of `SplitSay`: what is left, and the lines so far. -/
structure Saying where
  rest : Bytes
  out : List Bytes

def start (text : Bytes) : Saying where
  rest := trim (sanitizeSay text (lineBytes * maxLines))
  out := []

def Saying.done (s : Saying) : Bool := s.rest = [] || !(s.out.length < maxLines)

def nextRest (rest : Bytes) : Bytes := trim (rest.drop (lineCut rest))

def Saying.step (s : Saying) : Saying :=
  let line := trim (s.rest.take (lineCut s.rest))
  { rest := nextRest s.rest, out := if line = [] then s.out else s.out ++ [line] }

/-- So many rounds of the loop; none while it goes on. -/
def run : ℕ → Saying → Option (List Bytes)
  | 0, s => if s.done then some s.out else none
  | n + 1, s => if s.done then some s.out else run n s.step

/-- `SplitSay` comes back with the lines. -/
def Returns (text : Bytes) (lines : List Bytes) : Prop := ∃ n, run n (start text) = some lines

end Code

section Spec

/-- The text is the lines with blanks before them, and the rest. -/
def Interleaves (s : Bytes) (lines : List Bytes) (rest : Bytes) : Prop :=
  ∃ gaps : List Bytes, gaps.length = lines.length ∧ (∀ g ∈ gaps, ∀ c ∈ g, isBlank c = true) ∧
    s = (List.zipWith (· ++ ·) gaps lines).flatten ++ rest

def StartsBlank (s : Bytes) : Prop := ∀ c t, s = c :: t → isBlank c = true

/-- A line may end before the rest: at a space, or inside a word when the line would get very short
without it, which is when there is no blank in its second half. -/
def Breaks (line rest : Bytes) : Prop :=
  StartsBlank rest ∨ ∀ i, lineBytes / 2 ≤ i → isBlank (line.getD i 0) = false

/-- The text can be laid out in so many lines. -/
inductive Fits : ℕ → Bytes → Prop
  | blank {n : ℕ} {s : Bytes} (h : ∀ c ∈ s, isBlank c = true) : Fits n s
  | line {n : ℕ} {gap line rest : Bytes} (hgap : ∀ c ∈ gap, isBlank c = true)
    (hsize : line.length ≤ lineBytes) (hfresh : StartsFresh rest) (hbreaks : Breaks line rest)
    (hrest : Fits n rest) : Fits (n + 1) (gap ++ line ++ rest)

/-- What is asked of the lines; `fits` says whether the whole text is to be shown. -/
structure Good (fits : Prop) (text : Bytes) (lines : List Bytes) : Prop where
  count : lines.length ≤ maxLines
  size : ∀ l ∈ lines, l ≠ [] ∧ l.length ≤ lineBytes
  utf8 : IsUtf8 text → (∀ l ∈ lines, IsUtf8 l) ∧
    ∃ rest, Interleaves (sanitizeSay text (lineBytes * maxLines)) lines rest ∧
      (fits → ∀ c ∈ rest, isBlank c = true)

/-- The text is split, and into such lines. -/
def Splits (fits : Prop) (text : Bytes) : Prop := ∃ lines, Returns text lines ∧ Good fits text lines

/-- A byte with a whole line of continuation bytes behind it. -/
def Stuck (rest : Bytes) : Prop :=
  lineBytes < rest.length ∧ ∀ i, 1 ≤ i → i ≤ lineBytes → isCont (rest.getD i 0) = true

def restAt (text : Bytes) (i : ℕ) : Bytes := nextRest^[i] (start text).rest

end Spec

section Cuts

variable {s rest : Bytes}

theorem cutBack_le (s : Bytes) (n : ℕ) : cutBack s n ≤ n := by
  induction n with
  | zero => exact le_refl 0
  | succ n ih =>
    unfold cutBack
    split_ifs
    · omega
    · exact le_refl _

theorem cutBack_fresh {n : ℕ} (h : cutBack s n ≠ 0) : isCont (s.getD (cutBack s n) 0) = false := by
  induction n with
  | zero => exact absurd rfl h
  | succ n ih =>
    unfold cutBack at h ⊢
    split_ifs at h ⊢ with hcont
    · exact ih h
    · exact Bool.eq_false_iff.mpr hcont

theorem cutBack_eq_zero_iff {n : ℕ} :
    cutBack s n = 0 ↔ ∀ i, 1 ≤ i → i ≤ n → isCont (s.getD i 0) = true := by
  induction n with
  | zero =>
    constructor
    · intro _ i hlow hhigh
      exact absurd hlow (by omega)
    · intro _
      rfl
  | succ n ih =>
    unfold cutBack
    split_ifs with hcont
    · rw [ih]
      constructor
      · intro h i hlow hhigh
        rcases Nat.lt_or_eq_of_le hhigh with hlt | rfl
        · exact h i hlow (by omega)
        · exact hcont
      · exact fun h i hlow hhigh => h i hlow (by omega)
    · constructor
      · intro h
        exact h.elim
      · intro h
        exact absurd (h (n + 1) (by omega) (le_refl _)) hcont

theorem lastSpace_eq_some {n i : ℕ} (h : lastSpace s n = some i) :
    i ≤ n ∧ isBlank (s.getD i 0) = true ∧ ∀ j, i < j → j ≤ n → isBlank (s.getD j 0) = false := by
  induction n with
  | zero =>
    unfold lastSpace at h
    split_ifs at h with hblank
    cases h
    exact ⟨le_refl 0, hblank, fun j hlow hhigh => absurd hlow (by omega)⟩
  | succ n ih =>
    unfold lastSpace at h
    split_ifs at h with hblank
    · cases h
      exact ⟨le_refl _, hblank, fun j hlow hhigh => absurd hlow (by omega)⟩
    · obtain ⟨hle, hi, hafter⟩ := ih h
      refine ⟨by omega, hi, fun j hlow hhigh => ?_⟩
      rcases Nat.lt_or_eq_of_le hhigh with hlt | rfl
      · exact hafter j hlow (by omega)
      · exact Bool.eq_false_iff.mpr hblank

theorem lastSpace_eq_none {n : ℕ} (h : lastSpace s n = none) :
    ∀ j, j ≤ n → isBlank (s.getD j 0) = false := by
  induction n with
  | zero =>
    unfold lastSpace at h
    split_ifs at h with hblank
    intro j hj
    rw [Nat.le_zero.mp hj]
    exact Bool.eq_false_iff.mpr hblank
  | succ n ih =>
    unfold lastSpace at h
    split_ifs at h with hblank
    intro j hj
    rcases Nat.lt_or_eq_of_le hj with hlt | rfl
    · exact ih h j (by omega)
    · exact Bool.eq_false_iff.mpr hblank

theorem isCont_of_isBlank {c : UInt8} (h : isBlank c = true) : isCont c = false := by
  rw [isBlank, beq_iff_eq] at h
  subst h
  rfl

theorem utf8Cut_le (s : Bytes) (n : ℕ) : utf8Cut s n ≤ s.length ∧ utf8Cut s n ≤ n := by
  unfold utf8Cut
  split_ifs with h
  · exact ⟨le_refl _, h⟩
  · have := cutBack_le s n
    exact ⟨by omega, this⟩

theorem startsFresh_drop {n : ℕ} (h : isCont (s.getD n 0) = false) : StartsFresh (s.drop n) := by
  rcases lt_or_ge n s.length with hlt | hge
  · rw [List.getD_eq_getElem?_getD, List.getElem?_eq_getElem hlt, Option.getD_some] at h
    rw [List.drop_eq_getElem_cons hlt]
    exact startsFresh_cons h
  · rw [List.drop_eq_nil_of_le hge]
    exact startsFresh_nil

/-- Cutting at `Utf8Cut` does not split a character, unless it cuts at the very beginning. -/
theorem utf8Cut_fresh {n : ℕ} (h : utf8Cut s n ≠ 0) : StartsFresh (s.drop (utf8Cut s n)) := by
  unfold utf8Cut at h ⊢
  split_ifs at h ⊢
  · rw [List.drop_length]
    exact startsFresh_nil
  · exact startsFresh_drop (cutBack_fresh h)

theorem utf8Cut_eq_zero_iff {n : ℕ} (hn : 0 < s.length) :
    utf8Cut s n = 0 ↔ n < s.length ∧ ∀ i, 1 ≤ i → i ≤ n → isCont (s.getD i 0) = true := by
  unfold utf8Cut
  split_ifs with h
  · constructor
    · intro h'
      omega
    · rintro ⟨h', -⟩
      omega
  · rw [cutBack_eq_zero_iff, and_iff_right (not_le.mp h)]

/-- A line has at most 190 bytes, and ends before a character. -/
theorem lineCut_spec (rest : Bytes) : lineCut rest ≤ rest.length ∧ lineCut rest ≤ lineBytes ∧
    (lineCut rest ≠ 0 → StartsFresh (rest.drop (lineCut rest))) := by
  obtain ⟨hlen, hmax⟩ := utf8Cut_le rest lineBytes
  have hplain : utf8Cut rest lineBytes ≤ rest.length ∧ utf8Cut rest lineBytes ≤ lineBytes ∧
      (utf8Cut rest lineBytes ≠ 0 → StartsFresh (rest.drop (utf8Cut rest lineBytes))) :=
    ⟨hlen, hmax, utf8Cut_fresh⟩
  unfold lineCut
  simp only
  split_ifs with hlt
  · split
    · rename_i sp hsp
      obtain ⟨hle, hblank, -⟩ := lastSpace_eq_some hsp
      split_ifs
      · exact ⟨by omega, by omega, fun _ => startsFresh_drop (isCont_of_isBlank hblank)⟩
      · exact hplain
    · exact hplain
  · exact hplain

theorem lineCut_eq_zero_iff (h : rest ≠ []) : lineCut rest = 0 ↔ Stuck rest := by
  have hzero : utf8Cut rest lineBytes = 0 ↔ Stuck rest :=
    utf8Cut_eq_zero_iff (List.length_pos_of_ne_nil h)
  rw [← hzero]
  unfold lineCut
  simp only
  split_ifs with hlt
  · split
    · rename_i sp hsp
      obtain ⟨hle, -⟩ := lastSpace_eq_some hsp
      split_ifs with hhalf
      · have : 0 < lineBytes / 2 := by decide
        omega
      · rfl
    · rfl
  · rfl

theorem le_cutBack {k n : ℕ} (hk : k ≤ n) (hfresh : isCont (s.getD k 0) = false) :
    k ≤ cutBack s n := by
  induction n with
  | zero => exact hk
  | succ n ih =>
    unfold cutBack
    split_ifs with hcont
    · refine ih ?_
      rcases Nat.lt_or_eq_of_le hk with hlt | rfl
      · omega
      · rw [hfresh] at hcont
        cases hcont
    · exact hk

theorem getD_append_left {line rest : Bytes} {i : ℕ} (hi : i < line.length) :
    (line ++ rest).getD i 0 = line.getD i 0 := by
  rw [List.getD_eq_getElem?_getD, List.getD_eq_getElem?_getD, List.getElem?_append_left hi]

theorem lt_length_of_isBlank {i : ℕ} (h : isBlank (s.getD i 0) = true) : i < s.length := by
  by_contra hge
  rw [List.getD_eq_getElem?_getD, List.getElem?_eq_none (not_lt.mp hge)] at h
  exact absurd h (by decide)

theorem le_lineCut {line rest : Bytes} (hsize : line.length ≤ lineBytes) (hfresh : StartsFresh rest)
    (hbreaks : Breaks line rest) : line.length ≤ lineCut (line ++ rest) := by
  have hlength : line.length ≤ (line ++ rest).length := by
    rw [List.length_append]
    omega
  have hplain : line.length ≤ utf8Cut (line ++ rest) lineBytes := by
    unfold utf8Cut
    split_ifs with hshort
    · exact hlength
    · refine le_cutBack hsize ?_
      cases rest with
      | nil => exact absurd (by simpa using hsize) hshort
      | cons c t =>
        have hc : (line ++ c :: t).getD line.length 0 = c := by
          simp [List.getD_eq_getElem?_getD]
        rw [hc]
        exact hfresh c t rfl
  unfold lineCut
  simp only
  split_ifs with hlt
  · split
    · rename_i sp hsp
      obtain ⟨hle, hblank, hafter⟩ := lastSpace_eq_some hsp
      split_ifs with hhalf
      · by_contra hlong
        rw [not_le] at hlong
        -- the line goes on behind the last space, so it breaks there neither at a space nor for
        -- want of one
        rcases hbreaks with hspace | hnone
        · cases rest with
          | nil =>
            rw [List.append_nil] at hlt hplain
            omega
          | cons c t =>
            have hc : (line ++ c :: t).getD line.length 0 = c := by
              simp [List.getD_eq_getElem?_getD]
            have hnot := hafter line.length hlong hplain
            rw [hc, hspace c t rfl] at hnot
            cases hnot
        · rw [getD_append_left hlong, hnone sp hhalf] at hblank
          cases hblank
      · exact hplain
    · exact hplain
  · exact hplain

theorem lineCut_breaks (rest : Bytes) :
    Breaks (rest.take (lineCut rest)) (rest.drop (lineCut rest)) := by
  have hnone :
      (∀ j, lineBytes / 2 ≤ j → j ≤ utf8Cut rest lineBytes → isBlank (rest.getD j 0) = false) →
      Breaks (rest.take (utf8Cut rest lineBytes)) (rest.drop (utf8Cut rest lineBytes)) := by
    intro h
    refine .inr fun i hi => ?_
    by_contra hblank
    rw [Bool.not_eq_false] at hblank
    have hlt := lt_length_of_isBlank hblank
    rw [List.length_take] at hlt
    have hread : (rest.take (utf8Cut rest lineBytes)).getD i 0 = rest.getD i 0 := by
      rw [List.getD_eq_getElem?_getD, List.getD_eq_getElem?_getD,
        List.getElem?_take_of_lt (by omega)]
    rw [hread, h i hi (by omega)] at hblank
    cases hblank
  unfold lineCut
  simp only
  split_ifs with hlt
  · split
    · rename_i sp hsp
      obtain ⟨hle, hblank, hafter⟩ := lastSpace_eq_some hsp
      split_ifs with hhalf
      · refine .inl fun c t hrest => ?_
        rw [List.drop_eq_getElem_cons (by omega), List.cons.injEq] at hrest
        rw [List.getD_eq_getElem?_getD, List.getElem?_eq_getElem (by omega), Option.getD_some,
          hrest.1] at hblank
        exact hblank
      · exact hnone fun j hlow hhigh => hafter j (by omega) hhigh
    · rename_i hsp
      exact hnone fun j _ hhigh => lastSpace_eq_none hsp j hhigh
  · refine .inl fun c t hrest => ?_
    rw [List.drop_eq_nil_of_le (not_lt.mp hlt)] at hrest
    cases hrest

end Cuts

section Blanks

variable {s t g g' : Bytes}

theorem trim_spec (s : Bytes) : ∃ g g', s = g ++ trim s ++ g' ∧ (∀ c ∈ g, isBlank c = true) ∧
    ∀ c ∈ g', isBlank c = true := by
  obtain ⟨e, he, hblank⟩ := dropWhile_eq_trimBy isBlank s
  refine ⟨s.takeWhile isBlank, e, ?_, fun c hc => List.mem_takeWhile_imp hc, hblank⟩
  rw [List.append_assoc, trim, ← he, List.takeWhile_append_dropWhile]

theorem trim_blank_append (hg : ∀ c ∈ g, isBlank c = true) (s : Bytes) :
    trim (g ++ s) = trim s := by
  unfold trim trimBy
  rw [List.dropWhile_append_of_pos hg]

theorem trim_append_blank (hg : ∀ c ∈ g, isBlank c = true) (s : Bytes) :
    trim (s ++ g) = trim s := by
  unfold trim trimBy
  rcases hdrop : s.dropWhile isBlank with _ | ⟨c, t⟩
  · have hall : ∀ c ∈ s, isBlank c = true := List.dropWhile_eq_nil_iff.mp hdrop
    rw [List.dropWhile_append_of_pos hall, List.dropWhile_eq_nil_iff.mpr hg]
  · have happend : (s ++ g).dropWhile isBlank = (c :: t) ++ g := by
      rw [← hdrop, List.dropWhile_append, if_neg]
      rw [hdrop]
      simp
    rw [happend, List.rdropWhile, List.reverse_append,
      List.dropWhile_append_of_pos (by simpa using hg), List.rdropWhile]

theorem trim_trim (s : Bytes) : trim (trim s) = trim s := trimBy_trimBy isBlank s

theorem head_trim {c : UInt8} {t : Bytes} (h : trim s = c :: t) : isBlank c = false := by
  have htwice := trim_trim s
  rw [h] at htwice
  cases hc : isBlank c with
  | false => rfl
  | true =>
    have hlonger : trim (c :: t) = trim t := trim_blank_append (g := [c]) (by simpa using hc) t
    rw [hlonger] at htwice
    obtain ⟨a, b, hab, -, -⟩ := trim_spec t
    rw [htwice] at hab
    have hlen := congrArg List.length hab
    simp only [List.length_append, List.length_cons] at hlen
    omega

theorem trim_eq_nil_iff : trim s = [] ↔ ∀ c ∈ s, isBlank c = true := by
  constructor
  · intro h
    obtain ⟨g, g', hs, hg, hg'⟩ := trim_spec s
    rw [h, List.append_nil] at hs
    rw [hs]
    intro c hc
    rcases List.mem_append.mp hc with hc | hc
    · exact hg c hc
    · exact hg' c hc
  · intro h
    have happend := trim_append_blank h []
    rw [List.nil_append] at happend
    rw [happend]
    rfl

theorem length_trim_le (s : Bytes) : (trim s).length ≤ s.length := by
  obtain ⟨g, g', hs, -, -⟩ := trim_spec s
  have hlen := congrArg List.length hs
  rw [List.length_append, List.length_append] at hlen
  omega

theorem lt_of_isBlank {c : UInt8} (h : isBlank c = true) : c < 0x80 := by
  rw [isBlank, beq_iff_eq] at h
  subst h
  decide

theorem isUtf8_of_blank_append (hg : ∀ c ∈ g, isBlank c = true)
    (h : IsUtf8 (g ++ s)) : IsUtf8 s := by
  induction g with
  | nil => exact h
  | cons c g ih =>
    rw [List.forall_mem_cons] at hg
    exact ih hg.2 (IsUtf8.split (s := []) h (lt_of_isBlank hg.1)).2

theorem isUtf8_of_append_blank (hg : ∀ c ∈ g, isBlank c = true)
    (h : IsUtf8 (s ++ g)) : IsUtf8 s := by
  cases g with
  | nil =>
    rw [List.append_nil] at h
    exact h
  | cons c g => exact (IsUtf8.split h (lt_of_isBlank (hg c List.mem_cons_self))).1

theorem isUtf8_trim (h : IsUtf8 s) : IsUtf8 (trim s) := by
  obtain ⟨g, g', hs, hg, hg'⟩ := trim_spec s
  rw [hs] at h
  exact isUtf8_of_blank_append hg (isUtf8_of_append_blank hg' h)

end Blanks

section Text

variable {text : Bytes}

theorem isUtf8_sanitizeSay (h : IsUtf8 text) (n : ℕ) : IsUtf8 (sanitizeSay text n) := by
  have hfilter : IsUtf8 (text.filter isPrintable) := by
    apply h.filter
    intro c hc
    unfold isPrintable at hc
    simp only [Bool.not_eq_false', Bool.or_eq_true, decide_eq_true_eq, beq_iff_eq] at hc
    rcases hc with hc | rfl
    · exact UInt8.lt_trans hc (by decide)
    · decide
  unfold sanitizeSay
  simp only
  by_cases hcut : utf8Cut (text.filter isPrintable) n = 0
  · rw [hcut, List.take_zero]
    exact isUtf8_nil
  · rw [← List.take_append_drop (utf8Cut (text.filter isPrintable) n)
      (text.filter isPrintable)] at hfilter
    exact (hfilter.cut (utf8Cut_fresh hcut)).1

end Text

end ReadyUp.Fleet.Say
