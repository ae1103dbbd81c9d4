import ReadyUp.License.Key
import ReadyUp.Support.DigitOrder

/-!
# Days and their texts

`Day.next` goes through the valid days one by one (`Day.exists_iterate`), and the texts of days with
four digits of a year stand in the same order (`date_lt_iff`).
-/
namespace ReadyUp.License

open Support

namespace Day

structure Valid (d : Day) : Prop where
  month_pos : 1 ≤ d.month
  month_le : d.month ≤ 12
  day_pos : 1 ≤ d.day
  day_le : d.day ≤ lastOf d.year d.month

def code (d : Day) : ℕ := (d.year * 13 + d.month) * 32 + d.day

variable {d e : Day}

theorem lastOf_le (year month : ℕ) : lastOf year month ≤ 31 := by
  unfold lastOf
  simp only
  split_ifs
  · decide
  · rcases Nat.lt_or_ge (month - 1) 12 with h | h
    · interval_cases (month - 1) <;> decide
    · rw [List.getD_eq_getElem?_getD, List.getElem?_eq_none (by simpa using h)]
      decide

theorem lastOf_pos {year month : ℕ} (hpos : 1 ≤ month) (hle : month ≤ 12) :
    28 ≤ lastOf year month := by
  unfold lastOf
  simp only
  split_ifs
  · decide
  · interval_cases month <;> decide

theorem Valid.day_le_31 (h : d.Valid) : d.day ≤ 31 := h.day_le.trans (lastOf_le _ _)

theorem Valid.next (h : d.Valid) : d.next.Valid := by
  obtain ⟨hm, hm', hd, hd'⟩ := h
  unfold Day.next
  split_ifs with hday hmonth
  · exact ⟨hm, hm', by simp, hday⟩
  · have hlast := @lastOf_pos d.year (d.month + 1) (by omega) (by omega)
    exact ⟨by simp, by simpa using hmonth, le_refl 1, by simp only; omega⟩
  · exact ⟨le_refl 1, by simp, le_refl 1, by simp [lastOf]⟩

theorem code_lt_next (h : d.Valid) : d.code < d.next.code := by
  have hday := h.day_le_31
  have hmonth := h.month_le
  unfold Day.next code
  split_ifs <;> simp only <;> omega

theorem next_le (hd : d.Valid) (he : e.Valid) (h : d.code < e.code) : d.next.code ≤ e.code := by
  obtain ⟨hm, hm', hday, hday'⟩ := he
  have hlast := hd.day_le
  have hdm := hd.month_le
  have hd31 := hd.day_le_31
  have he31 : e.day ≤ 31 := hday'.trans (lastOf_le _ _)
  unfold code at h ⊢
  unfold Day.next
  split_ifs with hlt hmonth
  · simp only
    omega
  · simp only
    have hor : d.year * 13 + d.month < e.year * 13 + e.month := by
      by_contra hnot
      have hsame : d.year * 13 + d.month = e.year * 13 + e.month := by omega
      have hyear : e.year = d.year := by omega
      have hmon : e.month = d.month := by omega
      rw [hyear, hmon] at hday'
      omega
    omega
  · simp only
    have hor : d.year * 13 + d.month < e.year * 13 + e.month := by
      by_contra hnot
      have hsame : d.year * 13 + d.month = e.year * 13 + e.month := by omega
      have hyear : e.year = d.year := by omega
      have hmon : e.month = d.month := by omega
      rw [hyear, hmon] at hday'
      omega
    omega

theorem code_injective (hd : d.Valid) (he : e.Valid) (h : d.code = e.code) : d = e := by
  have hdm := hd.month_le
  have hd31 := hd.day_le_31
  have hem := he.month_le
  have he31 := he.day_le_31
  unfold code at h
  cases d
  cases e
  simp only [Day.mk.injEq] at *
  omega

theorem Valid.iterate (h : d.Valid) (n : ℕ) : (Day.next^[n] d).Valid := by
  induction n with
  | zero => exact h
  | succ n ih =>
    rw [Function.iterate_succ_apply']
    exact ih.next

theorem code_iterate_lt (h : d.Valid) {n m : ℕ} (hnm : n < m) :
    (Day.next^[n] d).code < (Day.next^[m] d).code := by
  have hmono : StrictMono fun n => (Day.next^[n] d).code := by
    refine strictMono_nat_of_lt_succ fun n => ?_
    rw [Function.iterate_succ_apply']
    exact code_lt_next (h.iterate n)
  exact hmono hnm

theorem exists_iterate (hd : d.Valid) (he : e.Valid) (h : d.code ≤ e.code) :
    ∃ n, e = Day.next^[n] d := by
  obtain ⟨k, hk⟩ : ∃ k, e.code - d.code = k := ⟨_, rfl⟩
  induction k using Nat.strong_induction_on generalizing d with
  | _ k ih =>
    rcases h.eq_or_lt with heq | hlt
    · exact ⟨0, (code_injective hd he heq).symm⟩
    · have hstep := code_lt_next hd
      have hnext := next_le hd he hlt
      obtain ⟨n, hn⟩ := ih (e.code - d.next.code) (by omega) hd.next hnext rfl
      exact ⟨n + 1, hn⟩

theorem code_iterate_mono (hd : d.Valid) (he : e.Valid) (h : d.code ≤ e.code) (n : ℕ) :
    (Day.next^[n] d).code ≤ (Day.next^[n] e).code := by
  obtain ⟨k, rfl⟩ := exists_iterate hd he h
  rw [← Function.iterate_add_apply]
  rcases Nat.eq_zero_or_pos k with rfl | hk
  · exact le_refl _
  · exact (code_iterate_lt hd (by omega)).le

/-- A day is followed by one of the same year, or by the first of January. -/
theorem next_cases (d : Day) : d.next.year = d.year ∨ d.next = ⟨d.year + 1, 1, 1⟩ := by
  unfold Day.next
  split_ifs
  · exact .inl rfl
  · exact .inl rfl
  · exact .inr rfl

theorem year_iterate_le (d : Day) {n : ℕ} (hn : n ≤ 27) :
    (Day.next^[n] d).year = d.year ∨ ∃ k ≤ n, Day.next^[n] d = ⟨d.year + 1, 1, k⟩ := by
  induction n with
  | zero => exact .inl rfl
  | succ n ih =>
    rw [Function.iterate_succ_apply']
    rcases ih (by omega) with hyear | ⟨k, hk, heq⟩
    · rcases next_cases (Day.next^[n] d) with hsame | hnew
      · exact .inl (hsame.trans hyear)
      · rw [hyear] at hnew
        exact .inr ⟨1, by omega, hnew⟩
    · have hlast : k < lastOf (d.year + 1) 1 := by
        have hpos := @lastOf_pos (d.year + 1) 1 (le_refl 1) (by decide)
        omega
      refine .inr ⟨k + 1, by omega, ?_⟩
      rw [heq, Day.next, if_pos hlast]

end Day

section Text

def dateText (y m d : Bytes) : Bytes := y ++ byte '-' :: m ++ byte '-' :: d

/-- The three runs of digits of a date. -/
structure Digits (y m d : Bytes) : Prop where
  year_length : y.length = 4
  month_length : m.length = 2
  day_length : d.length = 2
  year : ∀ c ∈ y, isDigit c = true
  month : ∀ c ∈ m, isDigit c = true
  day : ∀ c ∈ d, isDigit c = true

variable {s t y m d : Bytes}

theorem Digits.length (h : Digits y m d) : (dateText y m d).length = 10 := by
  simp [dateText, h.year_length, h.month_length, h.day_length]

theorem Digits.sub_year (h : Digits y m d) : sub (dateText y m d) 0 4 = y := by
  unfold sub dateText
  rw [List.drop_zero, List.append_assoc, ← h.year_length, List.take_left]

theorem Digits.sub_month (h : Digits y m d) : sub (dateText y m d) 5 2 = m := by
  have hshape : dateText y m d = (y ++ [byte '-']) ++ (m ++ byte '-' :: d) := by simp [dateText]
  have hlen : 5 = (y ++ [byte '-']).length := by simp [h.year_length]
  unfold sub
  rw [hshape, hlen, List.drop_left, ← h.month_length, List.take_left]

theorem Digits.sub_day (h : Digits y m d) : sub (dateText y m d) 8 2 = d := by
  have hshape : dateText y m d = (y ++ [byte '-'] ++ m ++ [byte '-']) ++ d := by simp [dateText]
  have hlen :
      8 = (y ++ [byte '-'] ++ m ++ [byte '-']).length := by simp [h.year_length, h.month_length]
  unfold sub
  rw [hshape, hlen, List.drop_left, ← h.day_length, List.take_length]

theorem Digits.ofText (h : Digits y m d) :
    Day.ofText (dateText y m d) = ⟨ofDigits y, ofDigits m, ofDigits d⟩ := by
  unfold Day.ofText num
  rw [h.sub_year, h.sub_month, h.sub_day]

/-- Dates are compared by their year, their month and their day, in this order. -/
theorem Digits.lt_iff {y' m' d' : Bytes} (h : Digits y m d) (h' : Digits y' m' d')
    (hm : ofDigits m < 13) (hm' : ofDigits m' < 13) (hd : ofDigits d < 32)
    (hd' : ofDigits d' < 32) : dateText y m d < dateText y' m' d' ↔
      (Day.ofText (dateText y m d)).code < (Day.ofText (dateText y' m' d')).code := by
  rw [h.ofText, h'.ofText]
  unfold dateText Day.code
  rw [List.append_assoc, List.append_assoc,
    append_lt_append_iff (h.year_length.trans h'.year_length.symm),
    List.cons_append, List.cons_append, List.cons_lt_cons_iff,
    append_lt_append_iff (h.month_length.trans h'.month_length.symm), List.cons_lt_cons_iff,
    digits_lt_iff h.year h'.year (h.year_length.trans h'.year_length.symm),
    digits_eq_iff h.year h'.year (h.year_length.trans h'.year_length.symm),
    digits_lt_iff h.month h'.month (h.month_length.trans h'.month_length.symm),
    digits_eq_iff h.month h'.month (h.month_length.trans h'.month_length.symm),
    digits_lt_iff h.day h'.day (h.day_length.trans h'.day_length.symm)]
  have hdash : ¬ byte '-' < byte '-' := by decide
  simp only [hdash, true_and, false_or]
  omega

theorem drop_eq_cons {i : ℕ} {c : UInt8} (h : s[i]? = some c) : s.drop i = c :: s.drop (i + 1) := by
  obtain ⟨hi, hc⟩ := List.getElem?_eq_some_iff.mp h
  rw [List.drop_eq_getElem_cons hi, hc]

theorem isDigits_iff {pos n : ℕ} :
    isDigits s pos n = true ↔ pos + n ≤ s.length ∧ ∀ c ∈ sub s pos n, isDigit c = true := by
  unfold isDigits
  rw [Bool.and_eq_true, decide_eq_true_eq, List.all_eq_true]

theorem dateText_sub (hlen : s.length = 10) (h4 : s[4]? = some (byte '-'))
    (h7 : s[7]? = some (byte '-')) : s = dateText (sub s 0 4) (sub s 5 2) (sub s 8 2) := by
  have hlast : sub s 8 2 = s.drop 8 := List.take_of_length_le (by rw [List.length_drop, hlen])
  have htail : sub s 5 2 ++ byte '-' :: sub s 8 2 = s.drop 5 := by
    rw [hlast, ← drop_eq_cons h7]
    unfold sub
    have hdrop : s.drop 7 = (s.drop 5).drop 2 := by rw [List.drop_drop]
    rw [hdrop, List.take_append_drop]
  unfold dateText
  rw [List.append_assoc, List.cons_append, htail, ← drop_eq_cons h4]
  unfold sub
  rw [List.drop_zero, List.take_append_drop]

/-- A date is written in three runs of digits and names a day. -/
theorem isDate_iff :
    isDate s = true ↔ ∃ y m d, Digits y m d ∧ s = dateText y m d ∧ (Day.ofText s).Valid := by
  constructor
  · intro h
    unfold isDate at h
    split_ifs at h with hform
    simp only [not_or, not_not, Bool.not_eq_true', Bool.not_eq_false, isDigits_iff] at hform h
    obtain ⟨hlen, ⟨-, hy⟩, h4, ⟨-, hm⟩, h7, ⟨-, hd⟩⟩ := hform
    refine ⟨sub s 0 4, sub s 5 2, sub s 8 2, ⟨?_, ?_, ?_, hy, hm, hd⟩, dateText_sub hlen h4 h7, ?_⟩
    · simp [sub, hlen]
    · simp [sub, hlen]
    · simp [sub, hlen]
    · split_ifs at h with hrange
      rw [decide_eq_true_eq] at h
      exact ⟨by omega, by omega, by omega, h⟩
  · rintro ⟨y, m, d, hdigits, rfl, hmonth, hmonth', hday, hday'⟩
    have hlen := hdigits.length
    have h4 : (dateText y m d)[4]? = some (byte '-') := by
      have hshape : dateText y m d = y ++ (byte '-' :: (m ++ byte '-' :: d)) := by simp [dateText]
      rw [hshape, ← hdigits.year_length, List.getElem?_append_right (le_refl _), Nat.sub_self]
      rfl
    have h7 : (dateText y m d)[7]? = some (byte '-') := by
      have hshape : dateText y m d = (y ++ byte '-' :: m) ++ (byte '-' :: d) := rfl
      have hseven :
          7 = (y ++ byte '-' :: m).length := by simp [hdigits.year_length, hdigits.month_length]
      rw [hshape, hseven, List.getElem?_append_right (le_refl _), Nat.sub_self]
      rfl
    have hform : ¬((dateText y m d).length ≠ 10 ∨ (!isDigits (dateText y m d) 0 4) = true ∨
        (dateText y m d)[4]? ≠ some (byte '-') ∨ (!isDigits (dateText y m d) 5 2) = true ∨
        (dateText y m d)[7]? ≠ some (byte '-') ∨ (!isDigits (dateText y m d) 8 2) = true) := by
      simp only [not_or, not_not, Bool.not_eq_true', Bool.not_eq_false, isDigits_iff, hlen,
        hdigits.sub_year, hdigits.sub_month, hdigits.sub_day]
      exact ⟨trivial, ⟨by decide, hdigits.year⟩, h4, ⟨by decide, hdigits.month⟩, h7,
        ⟨by decide, hdigits.day⟩⟩
    unfold isDate
    rw [if_neg hform]
    simp only
    rw [if_neg (by omega), decide_eq_true_eq]
    exact hday'

/-- The texts of two dates stand in the order of their days. -/
theorem date_lt_iff (hs : isDate s = true) (ht : isDate t = true) :
    s < t ↔ (Day.ofText s).code < (Day.ofText t).code := by
  obtain ⟨y, m, d, hdigits, rfl, hvalid⟩ := isDate_iff.mp hs
  obtain ⟨y', m', d', hdigits', rfl, hvalid'⟩ := isDate_iff.mp ht
  have hmonth := hvalid.month_le
  have hday := hvalid.day_le_31
  have hmonth' := hvalid'.month_le
  have hday' := hvalid'.day_le_31
  rw [hdigits.ofText] at hmonth hday
  rw [hdigits'.ofText] at hmonth' hday'
  simp only at hmonth hday hmonth' hday'
  exact hdigits.lt_iff hdigits' (by omega) (by omega) (by omega) (by omega)

theorem year_lt (hs : isDate s = true) : (Day.ofText s).year < 10000 := by
  obtain ⟨y, m, d, hdigits, rfl, -⟩ := isDate_iff.mp hs
  have hlt := ofDigits_lt hdigits.year
  rw [hdigits.year_length] at hlt
  rw [hdigits.ofText]
  exact hlt

theorem padded_spec {width n : ℕ} (hw : 0 < width) (h : n < 10 ^ width) :
    (Day.padded width n).length = width ∧ ofDigits (Day.padded width n) = n ∧
      ∀ c ∈ Day.padded width n, isDigit c = true := by
  have hle := length_decimal_le hw h
  have hzero : byte '0' = digit 0 := rfl
  unfold Day.padded
  refine ⟨?_, ?_, ?_⟩
  · rw [List.length_append, List.length_replicate]
    omega
  · rw [ofDigits_append, hzero, ofDigits_replicate_zero, ofDigits_decimal, Nat.zero_mul,
      Nat.zero_add]
  · intro c hc
    rcases List.mem_append.mp hc with hc | hc
    · rw [(List.mem_replicate.mp hc).2]
      decide
    · exact decimal_isDigit n c hc

/-- What is written for a day of a year with four digits is a date, and that of the day. -/
theorem isDate_text {d : Day} (hd : d.Valid) (hyear : d.year < 10000) :
    isDate d.text = true ∧ Day.ofText d.text = d := by
  have hmonth := hd.month_le
  have hday := hd.day_le_31
  obtain ⟨hylen, hyval, hydig⟩ := @padded_spec 4 d.year (by decide) hyear
  obtain ⟨hmlen, hmval, hmdig⟩ := @padded_spec 2 d.month (by decide) (by omega)
  obtain ⟨hdlen, hdval, hddig⟩ := @padded_spec 2 d.day (by decide) (by omega)
  have hdigits : Digits (Day.padded 4 d.year) (Day.padded 2 d.month) (Day.padded 2 d.day) :=
    ⟨hylen, hmlen, hdlen, hydig, hmdig, hddig⟩
  have htext :
      d.text = dateText (Day.padded 4 d.year) (Day.padded 2 d.month) (Day.padded 2 d.day) := rfl
  have hofText : Day.ofText d.text = d := by
    rw [htext, hdigits.ofText, hyval, hmval, hdval]
  refine ⟨isDate_iff.mpr ⟨_, _, _, hdigits, htext, ?_⟩, hofText⟩
  rw [hofText]
  exact hd

/-- In the order of texts the year ten thousand comes in the middle of the year one thousand. -/
theorem lt_text_iff_of_year {d : Day} (hs : isDate s = true) (hyear : d.year = 10000) :
    s < d.text ↔ (Day.ofText s).year ≤ 1000 := by
  obtain ⟨y, m, r, hdigits, rfl, -⟩ := isDate_iff.mp hs
  have hshape :
      d.text = ascii "1000" ++
        (byte '0' :: (byte '-' :: Day.padded 2 d.month ++ byte '-' :: Day.padded 2 d.day)) := by
    have hpad : Day.padded 4 d.year = ascii "10000" := by
      rw [hyear]
      simp [Day.padded, decimal]
      rfl
    unfold Day.text
    rw [hpad]
    rfl
  have hlen : y.length = (ascii "1000").length := hdigits.year_length
  have hdash : byte '-' < byte '0' := by decide
  have hthousand : ∀ c ∈ ascii "1000", isDigit c = true := by
    have hall : (ascii "1000").all isDigit = true := by decide
    exact List.all_eq_true.mp hall
  rw [hdigits.ofText, hshape]
  unfold dateText
  rw [List.append_assoc, append_lt_append_iff hlen, List.cons_append, List.cons_lt_cons_iff,
    digits_lt_iff hdigits.year hthousand hlen, digits_eq_iff hdigits.year hthousand hlen]
  have hvalue : ofDigits (ascii "1000") = 1000 := by decide
  simp only [hdash, true_or, and_true, hvalue]
  omega

end Text

end ReadyUp.License
